import HeaviestChain.Toml.Moment
import HeaviestChain.Toml.Tree

/-!
# Documents in TOML

A document is a sequence of lines, each with a key and its value, with the header of a table, or
with neither.  A header says where the keys below it belong.  Reading gives the tree of all keys,
or nothing if the document is ill-formed anywhere.

Each step of a reader takes at least one character, so that one more step than there are
characters is never needed; the readers below are given that many.
-/

namespace HeaviestChain.Toml

/-! ## Values -/

/-- Reads a truth value. -/
def boolean? : List Char → Option (Bool × List Char)
  | 't' :: 'r' :: 'u' :: 'e' :: left => some (true, left)
  | 'f' :: 'a' :: 'l' :: 's' :: 'e' :: left => some (false, left)
  | _ => none

/-- Reads a value that has no values inside. -/
def simpleValue? (left : List Char) : Option (Value × List Char) :=
  match left.head? with
  | some '"' => (text? left).map fun read => (.text read.1, read.2)
  | some '\'' => (text? left).map fun read => (.text read.1, read.2)
  | some 't' => (boolean? left).map fun read => (.boolean read.1, read.2)
  | some 'f' => (boolean? left).map fun read => (.boolean read.1, read.2)
  | _ =>
      match moment? left with
      | some left => some (.moment, left)
      | none => (number? left).map fun read => (.number read.1, read.2)

mutual

/-- Reads a value inside `level` others. -/
def value? : (steps level : Nat) → List Char → Option (Value × List Char)
  | 0, _, _ => none
  | steps + 1, level, left =>
      match left with
      | '[' :: left =>
          if level + 1 < maxNesting then
            (arrayEnd? steps (level + 1) left).map fun left => (.array, left)
          else none
      | '\x7b' :: left =>
          if level + 1 < maxNesting then
            (inlineTableEnd? steps (level + 1) [] left).map fun left => (.inlineTable, left)
          else none
      | left => simpleValue? left

/-- What is left after the elements of an array and its closing bracket. -/
def arrayEnd? : (steps level : Nat) → List Char → Option (List Char)
  | 0, _, _ => none
  | steps + 1, level, left => do
      match ← skipTrivia false left with
      | ']' :: left => pure left
      | left =>
          let (_, left) ← value? steps level left
          match ← skipTrivia false left with
          | ',' :: left => arrayEnd? steps level left
          | ']' :: left => pure left
          | _ => none

/-- What is left after the keys of a table on one line and its closing brace, if the table has the
given keys so far. -/
def inlineTableEnd? : (steps level : Nat) → Entries → List Char → Option (List Char)
  | 0, _, _, _ => none
  | steps + 1, level, entries, left =>
      match entries, skipBlanks left with
      | [], '\x7d' :: left => some left
      | entries, left => do
          let (parts, left) ← key? left
          let left ← mark? '=' left
          let (value, left) ← value? steps level (skipBlanks left)
          let entries ← entries.defineKey value parts
          match skipBlanks left with
          | ',' :: left => inlineTableEnd? steps level entries left
          | '\x7d' :: left => pure left
          | _ => none

end

/-! ## Lines -/

/-- A document that was read up to some line. -/
structure Progress where
  /-- All keys so far. -/
  root : Entries := []
  /-- Where the keys of the next lines belong. -/
  location : List String := []

/-- Reads the header of a table or, after a second bracket, of a list of tables. -/
def header? (progress : Progress) (left : List Char) : Option (Progress × List Char) :=
  match left with
  | '[' :: left => do
      let (parts, left) ← key? left
      let left ← mark? ']' (← mark? ']' left)
      pure ({ root := ← progress.root.openHeader true parts, location := parts }, left)
  | left => do
      let (parts, left) ← key? left
      let left ← mark? ']' left
      pure ({ root := ← progress.root.openHeader false parts, location := parts }, left)

/-- Reads a key with its value. -/
def definition? (progress : Progress) (left : List Char) : Option (Progress × List Char) := do
  let (parts, left) ← key? left
  let left ← mark? '=' left
  let (value, left) ← value? (left.length + 1) 0 (skipBlanks left)
  let root ← progress.root.within (·.defineKey value parts) progress.location
  pure ({ progress with root }, left)

/-- Reads the remaining lines. -/
def lines? : (steps : Nat) → Progress → List Char → Option Entries
  | 0, _, _ => none
  | steps + 1, progress, left => do
      match ← skipTrivia false left with
      | [] => pure progress.root
      | first :: left =>
          let (progress, left) ← match first with
            | '[' => header? progress left
            | first => definition? progress (first :: left)
          let left := skipBlanks left
          guard (isLineEnd left)
          lines? steps progress left

/-- What is left after a mark of the byte order. -/
def skipByteOrderMark : List Char → List Char
  | '\uFEFF' :: left => left
  | left => left

/-- The tree of keys of a document. -/
def read? (document : String) : Option Entries :=
  let characters := skipByteOrderMark document.toList
  lines? (characters.length + 1) {} characters

end HeaviestChain.Toml
