import HeaviestChain.Toml.Number

/-!
# The tree of keys in a document

A document gives each key once.  A key with several parts leads through tables, and so does the
header of a table.  How a table came to be decides what may be added to it: a table with a header
of its own is complete after its section, one that only longer headers mention may still get its
own header, and one made by keys with dots takes more such keys.
-/

namespace HeaviestChain.Toml

/-- What a key stands for.  Of what no settings are made of, only the kind is kept. -/
inductive Value where
  /-- A text. -/
  | text (content : String)
  /-- A number. -/
  | number (number : Number)
  /-- A truth value. -/
  | boolean (value : Bool)
  /-- A date or a time. -/
  | moment
  /-- A list of values. -/
  | array
  /-- A table on one line. -/
  | inlineTable
  deriving DecidableEq

/-- How a table came to be. -/
inductive Origin where
  /-- By a header of its own. -/
  | header
  /-- By the header of a table inside it. -/
  | innerHeader
  /-- By a key with dots. -/
  | dottedKey
  deriving DecidableEq

/-- What stands at a key. -/
inductive Item where
  /-- A value. -/
  | value (value : Value)
  /-- A table. -/
  | table (origin : Origin) (entries : List (String × Item))
  /-- A list of tables, of which only the last one can still change. -/
  | tables (last : List (String × Item))

/-- The keys of a table with what stands at them, in the order of their first mention. -/
abbrev Entries := List (String × Item)

namespace Entries

/-- Puts something at a key, in place of what stood there. -/
def put (key : String) (item : Item) : Entries → Entries
  | [] => [(key, item)]
  | entry :: rest => if entry.1 = key then (key, item) :: rest else entry :: put key item rest

/-- Adds a key, whose last part comes after `path`.  Nothing if the key is taken, or leads through
a table that takes no such keys. -/
def define (value : Value) (key : String) : (path : List String) → Entries → Option Entries
  | [], entries =>
      match entries.lookup key with
      | none => some (put key (.value value) entries)
      | some _ => none
  | step :: path, entries =>
      match entries.lookup step with
      | none => do
          let inner ← define value key path []
          pure (put step (.table .dottedKey inner) entries)
      | some (.table .dottedKey inner) => do
          let inner ← define value key path inner
          pure (put step (.table .dottedKey inner) entries)
      | some (.table .innerHeader inner) => do
          guard (!path.isEmpty)
          let inner ← define value key path inner
          pure (put step (.table .innerHeader inner) entries)
      | some (.tables inner) => do
          guard (!path.isEmpty)
          let inner ← define value key path inner
          pure (put step (.tables inner) entries)
      | some (.table .header _) => none
      | some (.value _) => none

/-- Opens the table of a header, or adds a table to the list of the header.  Nothing if the table
has been made otherwise. -/
def openHeader (isList : Bool) : (path : List String) → Entries → Option Entries
  | [], _ => none
  | [key], entries =>
      match isList, entries.lookup key with
      | false, none => some (put key (.table .header []) entries)
      | false, some (.table .innerHeader inner) => some (put key (.table .header inner) entries)
      | true, none => some (put key (.tables []) entries)
      | true, some (.tables _) => some (put key (.tables []) entries)
      | _, _ => none
  | step :: path, entries =>
      match entries.lookup step with
      | none => do
          let inner ← openHeader isList path []
          pure (put step (.table .innerHeader inner) entries)
      | some (.table origin inner) => do
          let inner ← openHeader isList path inner
          pure (put step (.table origin inner) entries)
      | some (.tables inner) => do
          let inner ← openHeader isList path inner
          pure (put step (.tables inner) entries)
      | some (.value _) => none

/-- Changes the table at a path. -/
def within (change : Entries → Option Entries) : (path : List String) → Entries → Option Entries
  | [], entries => change entries
  | step :: path, entries =>
      match entries.lookup step with
      | some (.table origin inner) => do
          let inner ← within change path inner
          pure (put step (.table origin inner) entries)
      | some (.tables inner) => do
          let inner ← within change path inner
          pure (put step (.tables inner) entries)
      | _ => none

/-- Adds a key with several parts. -/
def defineKey (value : Value) (parts : List String) (entries : Entries) : Option Entries := do
  entries.define value (← parts.getLast?) parts.dropLast

end Entries

end HeaviestChain.Toml
