import HeaviestChain.Text.Shown

/-!
# Log records

What the program reports while it runs, and how a record is written.  Records that are made during
one stretch of work carry what is known about that work.
-/

namespace HeaviestChain

/-- How serious a record is, the most serious ones first. -/
inductive LogLevel where
  /-- Something went wrong. -/
  | error
  /-- Something may go wrong. -/
  | warn
  /-- What an operator wants to know. -/
  | info
  /-- What helps to find a mistake. -/
  | debug
  /-- Everything else. -/
  | trace
  deriving DecidableEq

namespace LogLevel

/-- The place of a level, from one for the most serious. -/
def rank : LogLevel → Nat
  | error => 1
  | warn => 2
  | info => 3
  | debug => 4
  | trace => 5

/-- The name of the level. -/
def name : LogLevel → String
  | error => "ERROR"
  | warn => "WARN"
  | info => "INFO"
  | debug => "DEBUG"
  | trace => "TRACE"

end LogLevel

/-- A value in a record. -/
inductive LogValue where
  /-- A text. -/
  | text (content : String)
  /-- A number. -/
  | number (value : Nat)
  /-- A truth value. -/
  | truth (value : Bool)
  deriving DecidableEq

/-- A stretch of work. -/
structure LogSpan where
  /-- What is done. -/
  name : String
  /-- The part of the program that tells the log about it. -/
  target : String
  /-- More about it, by name. -/
  fields : List (String × LogValue)
  deriving DecidableEq

/-- Something that is reported. -/
structure LogRecord where
  /-- How serious it is. -/
  level : LogLevel
  /-- The part of the program that reports it. -/
  target : String
  /-- What happened. -/
  message : String
  /-- More about it, by name. -/
  fields : List (String × LogValue) := []
  /-- The work during which it happened, if the log was told. -/
  span : Option LogSpan := none
  deriving DecidableEq

namespace LogValue

/-- The value in JSON. -/
def json : LogValue → String
  | text content => Text.json content
  | number value => toString value
  | truth value => toString value

end LogValue

namespace LogRecord

/-- The names of everything that the record says. -/
def fieldNames (record : LogRecord) : List String :=
  "message" :: record.fields.map (·.1)

/-- The fields, ordered by name. -/
def sortedFields (record : LogRecord) : List (String × LogValue) :=
  record.fields.mergeSort fun left right => decide (left.1 ≤ right.1)

/-- The record as a line for people. -/
def line (record : LogRecord) : String :=
  let fields := record.sortedFields.map fun (name, value) => s!" {name}={value.json}"
  s!"{record.level.name} {record.message}{String.join fields}"

/-- The record as an object in JSON. -/
def json (record : LogRecord) : String :=
  let fields := record.sortedFields.map fun (name, value) => s!",{Text.json name}:{value.json}"
  let content := s!"\"message\":{Text.json record.message}{String.join fields}"
  let origin := s!"\"target\":{Text.json record.target}"
  s!"\x7b\"level\":\"{record.level.name}\",\"fields\":\x7b{content}\x7d,{origin}\x7d"

end LogRecord

end HeaviestChain
