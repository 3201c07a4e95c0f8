/-!
# Patterns of text

A pattern is looked for in a text from left to right.  Where a text offers a choice, a pattern says
which way it prefers; the first match that is found along the preferred ways counts, and the text
fits the pattern if that match ends where the text ends.
-/

namespace HeaviestChain.Text

/-- A set of characters. -/
inductive CharSet where
  /-- The characters from `low` to `high`. -/
  | between (low high : Char)
  /-- The characters in one of two sets. -/
  | either (left right : CharSet)
  /-- The characters that are not in a set. -/
  | other (set : CharSet)
  deriving DecidableEq

namespace CharSet

/-- Whether a character is in the set. -/
def contains : CharSet → Char → Bool
  | between low high, character => low ≤ character && character ≤ high
  | either left right, character => left.contains character || right.contains character
  | other set, character => !set.contains character

/-- The set of one character. -/
def only (character : Char) : CharSet := between character character

/-- The set of all characters. -/
def all : CharSet := between '\x00' (Char.ofNat 0x10ffff)

end CharSet

/-- What a text may look like. -/
inductive Pattern where
  /-- The empty text. -/
  | nothing
  /-- The start of the whole text. -/
  | textStart
  /-- The end of the whole text. -/
  | textEnd
  /-- One character from a set. -/
  | one (set : CharSet)
  /-- A text for the first pattern followed by one for the second. -/
  | andThen (first second : Pattern)
  /-- A text for one of two patterns, best for the first of them. -/
  | orElse (first second : Pattern)
  /-- Any number of texts for a pattern one after the other: best many, or best few. -/
  | repeated (prefersMany : Bool) (part : Pattern)
  deriving DecidableEq

namespace Pattern

/-- A way to go on with a pattern. -/
inductive Way where
  /-- The pattern matches up to here. -/
  | done
  /-- A character from `set` comes next, and the pattern `rest` after it. -/
  | read (set : CharSet) (rest : Pattern)
  deriving DecidableEq

/-- The ways to go on with a pattern, best ones first, at the start or end of the whole text or
between. -/
def ways (atStart atEnd : Bool) : Pattern → List Way
  | nothing => [.done]
  | textStart => if atStart then [.done] else []
  | textEnd => if atEnd then [.done] else []
  | one set => [.read set nothing]
  | andThen first second =>
      (first.ways atStart atEnd).flatMap fun way => match way with
        | .done => second.ways atStart atEnd
        | .read set rest => [.read set (andThen rest second)]
  | orElse first second => first.ways atStart atEnd ++ second.ways atStart atEnd
  | repeated prefersMany part =>
      let again := (part.ways atStart atEnd).map fun way => match way with
        | .done => .done
        | .read set rest => .read set (andThen rest (repeated prefersMany part))
      if prefersMany then again ++ [.done] else .done :: again

/-- What is left of patterns after a character.  A match that ends before the character makes all
worse ways void. -/
def step (atStart : Bool) (patterns : List Pattern) (character : Char) : List Pattern :=
  let going := (patterns.flatMap (ways atStart false)).takeWhile (· ≠ .done)
  (going.filterMap fun way => match way with
    | .done => none
    | .read set rest => if set.contains character then some rest else none).eraseDups

/-- Whether the best match of one of several patterns, best ones first, ends where the text
ends. -/
def anyFits (atStart : Bool) (patterns : List Pattern) : List Char → Bool
  | [] => patterns.any fun pattern => (pattern.ways atStart true).contains .done
  | character :: rest => anyFits false (step atStart patterns character) rest

/-- The pattern somewhere in a text, best where it begins first. -/
def anywhere (pattern : Pattern) : Pattern :=
  andThen (repeated false (one .all)) pattern

/-- Whether a text fits the pattern. -/
def fits (pattern : Pattern) (text : String) : Bool :=
  anyFits true [pattern.anywhere] text.toList

end Pattern

end HeaviestChain.Text
