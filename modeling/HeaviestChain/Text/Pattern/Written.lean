import HeaviestChain.Text.Numeral
import HeaviestChain.Text.Pattern

/-!
# Written patterns

How a pattern is spelled.  Most characters stand for themselves.  A point stands for any character
but a line end, and brackets hold a set of characters; `*`, `+` and `?` after a part repeat it, a
bar stands between choices, and parentheses hold parts together.  A backslash takes the special
meaning from the character after it.
-/

namespace HeaviestChain.Text.Pattern

/-! ## Characters -/

/-- The character that is meant by what follows a backslash.  Any ASCII character but a letter, a
digit or an angle bracket stands for itself. -/
def escape? : List Char → Option (Char × List Char)
  | 'a' :: left => some ('\x07', left)
  | 'f' :: left => some ('\x0c', left)
  | 't' :: left => some ('\t', left)
  | 'n' :: left => some ('\n', left)
  | 'r' :: left => some ('\r', left)
  | 'v' :: left => some ('\x0b', left)
  | 'x' :: left => codePoint? 2 left
  | 'u' :: left => codePoint? 4 left
  | 'U' :: left => codePoint? 8 left
  | character :: left =>
      if character.toNat < 0x80 && !character.isAlphanum && character ≠ '<' && character ≠ '>' then
        some (character, left)
      else none
  | [] => none

/-- The next character of a set. -/
def character? : List Char → Option (Char × List Char)
  | '\\' :: left => escape? left
  | character :: left => some (character, left)
  | [] => none

/-! ## Sets -/

/-- The sets that have names. -/
def namedSets : List (String × List (Char × Char)) :=
  [("alnum", [('0', '9'), ('A', 'Z'), ('a', 'z')]), ("alpha", [('A', 'Z'), ('a', 'z')]),
    ("ascii", [('\x00', '\x7f')]), ("blank", [('\t', '\t'), (' ', ' ')]),
    ("cntrl", [('\x00', '\x1f'), ('\x7f', '\x7f')]), ("digit", [('0', '9')]),
    ("graph", [('!', '~')]), ("lower", [('a', 'z')]), ("print", [(' ', '~')]),
    ("punct", [('!', '/'), (':', '@'), ('[', '\x60'), ('\x7b', '~')]),
    ("space", [('\t', '\r'), (' ', ' ')]), ("upper", [('A', 'Z')]),
    ("word", [('0', '9'), ('A', 'Z'), ('_', '_'), ('a', 'z')]),
    ("xdigit", [('0', '9'), ('A', 'F'), ('a', 'f')])]

/-- A set with more characters in it; there may be none yet. -/
def adding (set : CharSet) : Option CharSet → CharSet
  | none => set
  | some before => .either before set

/-- The set between pairs of characters, if there is a pair. -/
def betweenAny : List (Char × Char) → Option CharSet
  | [] => none
  | (low, high) :: rest => some (adding (.between low high) (betweenAny rest))

/-- A set or the characters outside of it. -/
def perhapsOther (isOther : Bool) (set : CharSet) : CharSet :=
  if isOther then .other set else set

/-- Whether the mark stands in front, and what is left then. -/
def marked (mark : Char) : List Char → Bool × List Char
  | [] => (false, [])
  | character :: left => if character = mark then (true, left) else (false, character :: left)

/-- Reads a set with a name, after its opening bracket. -/
def namedSet? : List Char → Option (CharSet × List Char)
  | ':' :: left => do
      let (isOther, left) := marked '^' left
      let name := left.takeWhile (· ≠ ':')
      match left.dropWhile (· ≠ ':') with
      | ':' :: ']' :: left =>
          let set ← (namedSets.lookup (String.ofList name)).bind betweenAny
          pure (perhapsOther isOther set, left)
      | _ => none
  | _ => none

/-- Reads a character of a set, or a range of them. -/
def range? (left : List Char) : Option (CharSet × List Char) := do
  let (low, left) ← character? left
  match left with
  | '-' :: ']' :: _ => pure (.only low, left)
  | '-' :: '-' :: _ => pure (.only low, left)
  | '-' :: left => do
      let (high, left) ← character? left
      if low ≤ high then pure (.between low high, left) else none
  | left => pure (.only low, left)

/-- Reads what may only stand at the beginning of a set: a mark for the characters outside of it,
and hyphens, or else a closing bracket, for themselves. -/
def setStart (left : List Char) : Bool × Option CharSet × List Char :=
  let (isOther, left) := marked '^' left
  match left with
  | '-' :: left => (isOther, some (.only '-'), left.dropWhile (· = '-'))
  | ']' :: left => (isOther, some (.only ']'), left)
  | left => (isOther, none, left)

/-- Whether two sets are joined here by an operation, of which none is supported. -/
def isOperation : List Char → Bool
  | first :: second :: _ => first = second && ['&', '-', '~'].contains first
  | _ => false

/-- Reads the rest of a set up to its closing bracket in at most `fuel` steps. -/
def setRest? : (fuel : Nat) → Option CharSet → List Char → Option (CharSet × List Char)
  | 0, _, _ => none
  | _, some set, ']' :: left => some (set, left)
  | fuel + 1, set, '[' :: left =>
      match namedSet? left with
      | some (inner, left) => setRest? fuel (some (adding inner set)) left
      | none => do
          let (isOther, start, left) := setStart left
          let (inner, left) ← setRest? fuel start left
          setRest? fuel (some (adding (perhapsOther isOther inner) set)) left
  | fuel + 1, set, left => do
      if isOperation left then none
      else
        let (range, left) ← range? left
        setRest? fuel (some (adding range set)) left

/-- Reads a set, after its opening bracket. -/
def set? (left : List Char) : Option (CharSet × List Char) := do
  let (isOther, start, left) := setStart left
  let (set, left) ← setRest? (left.length + 1) start left
  pure (perhapsOther isOther set, left)

/-! ## Parts -/

/-- What has been read of a group. -/
structure Group where
  /-- The choices before the present one, the latest first. -/
  choices : List Pattern := []
  /-- The parts of the present choice, the latest first. -/
  parts : List Pattern := []

namespace Group

/-- The present choice. -/
def choice (group : Group) : Pattern :=
  group.parts.foldl (fun pattern part => andThen part pattern) nothing

/-- The whole group. -/
def pattern (group : Group) : Pattern :=
  group.choices.foldl (fun pattern choice => orElse choice pattern) group.choice

/-- The group with one more part. -/
def adding (group : Group) (part : Pattern) : Group :=
  { group with parts := part :: group.parts }

/-- The group with its last part repeated in some way, if it has one. -/
def repeating? (group : Group) (way : Pattern → Pattern) : Option Group :=
  match group.parts with
  | [] => none
  | part :: parts => some { group with parts := way part :: parts }

/-- The group before its next choice. -/
def closingChoice (group : Group) : Group :=
  { choices := group.choice :: group.choices }

end Group

/-- What is left after the name of a group and a closing angle bracket. -/
def groupName? (left : List Char) : Option (List Char) :=
  let name := left.takeWhile (· ≠ '>')
  let isName := name.head?.any (fun first => first.isAlpha || first = '_') &&
    name.all fun character => character.isAlphanum || ['_', '.', '[', ']'].contains character
  match left.dropWhile (· ≠ '>') with
  | _ :: left => if isName then some left else none
  | [] => none

/-- Reads what comes after the opening parenthesis of a group and does not belong to its content:
nothing, a mark that the group has no name, or a name. -/
def groupStart? : List Char → Option (List Char)
  | '?' :: ':' :: left => some left
  | '?' :: 'P' :: '<' :: left => groupName? left
  | '?' :: '<' :: left => groupName? left
  | '?' :: _ => none
  | left => some left

/-- A part that may be missing. -/
def optional (prefersMany : Bool) (part : Pattern) : Pattern :=
  if prefersMany then orElse part nothing else orElse nothing part

/-- The repetition that a sign stands for. -/
def repetition? (sign : Char) (prefersMany : Bool) : Option (Pattern → Pattern) :=
  match sign with
  | '*' => some (repeated prefersMany)
  | '+' => some fun part => andThen part (repeated prefersMany part)
  | '?' => some (optional prefersMany)
  | _ => none

/-- Reads one part that does not hold others. -/
def part? : List Char → Option (Pattern × List Char)
  | '.' :: left => some (one (.other (.only '\n')), left)
  | '^' :: left => some (textStart, left)
  | '$' :: left => some (textEnd, left)
  | '[' :: left => (set? left).map fun (set, left) => (one set, left)
  | '\\' :: 'A' :: left => some (textStart, left)
  | '\\' :: 'z' :: left => some (textEnd, left)
  | '\x7b' :: _ => none
  | left => (character? left).map fun (character, left) => (one (.only character), left)

/-- Reads the rest of a group in at most `fuel` steps, with the groups around it, inner ones
first. -/
def rest? : (fuel : Nat) → Group → List Group → List Char → Option Pattern
  | _, group, [], [] => some group.pattern
  | fuel + 1, group, around, '(' :: left => do
      rest? fuel {} (group :: around) (← groupStart? left)
  | fuel + 1, group, outer :: around, ')' :: left =>
      rest? fuel (outer.adding group.pattern) around left
  | fuel + 1, group, around, '|' :: left => rest? fuel group.closingChoice around left
  | fuel + 1, group, around, sign :: left => do
      let (prefersFew, after) := marked '?' left
      match repetition? sign !prefersFew with
      | some way => rest? fuel (← group.repeating? way) around after
      | none =>
          if sign = ')' then none
          else
            let (part, left) ← part? (sign :: left)
            rest? fuel (group.adding part) around left
  | _, _, _, _ => none

/-- The pattern that a text spells. -/
def ofText? (text : String) : Option Pattern :=
  let characters := text.toList
  rest? characters.length {} [] characters

end HeaviestChain.Text.Pattern
