import HeaviestChain.Log
import HeaviestChain.Text.CharClass
import HeaviestChain.Text.Numeral
import HeaviestChain.Text.Pattern.Written

/-!
# Log rules

A rule says how serious records must be that are written.  It may be about records from targets
whose names begin in some way, about records with some field, and about work of some name or with
some field, whose value may have to pass a test.  A rule is written as
`target[work{field=value}]=level`, where every part may be missing.

Places in the text of a rule are found without regard to blanks around it, but are counted from
where the text begins with its blanks.
-/

namespace HeaviestChain

/-- What a rule asks of the value of a field. -/
inductive LogTest where
  /-- There is one. -/
  | present
  /-- It is this truth value. -/
  | truth (value : Bool)
  /-- It is this number. -/
  | number (value : Nat)
  /-- It is a number below zero or with a fraction, which no field has. -/
  | unheldNumber
  /-- It is a text that fits the pattern, which is written as `source`. -/
  | text (source : String) (pattern : Text.Pattern)
  deriving DecidableEq

namespace LogTest

/-- Whether the test is passed. -/
def passes : LogTest → LogValue → Bool
  | present, _ => true
  | truth wanted, .truth value => wanted = value
  | number wanted, .number value => wanted = value
  | text _ pattern, .text content => pattern.fits content
  | _, _ => false

/-- The test for a value that is written in a rule. -/
def ofText? (value : String) : Option LogTest :=
  match value with
  | "true" => some (truth true)
  | "false" => some (truth false)
  | _ =>
      let characters := value.toList
      match (Text.signedNatural? characters).filter (· < UInt64.size) with
      | some wanted => some (number wanted)
      | none =>
          if Text.isReal characters then some unheldNumber
          else (Text.Pattern.ofText? value).map (text value)

end LogTest

/-- How serious records must be that are written. -/
structure LogRule where
  /-- What the targets begin with, if that matters. -/
  target : Option String := none
  /-- The name of the work, if that matters. -/
  span : Option String := none
  /-- The name of a field with what is asked of its value, if one matters. -/
  field : Option (String × LogTest) := none
  /-- The highest rank that is written; zero for none. -/
  limit : Nat := LogLevel.trace.rank
  deriving DecidableEq

/-- Why a text is no rule. -/
inductive LogRuleError where
  /-- It makes no sense. -/
  | meaningless
  /-- A part would begin or end inside a character. -/
  | splitCharacter
  deriving DecidableEq

namespace LogRule

/-! ## Levels -/

/-- The rank that the name of a level stands for, in letters of either case; zero for no level. -/
def namedLimit? (text : String) : Option Nat :=
  match text.map Char.toLower with
  | "off" => some 0
  | "error" => some LogLevel.error.rank
  | "warn" => some LogLevel.warn.rank
  | "info" => some LogLevel.info.rank
  | "debug" => some LogLevel.debug.rank
  | "trace" => some LogLevel.trace.rank
  | _ => none

/-- The highest rank that a level in a rule allows, by its number or its name. -/
def limit? (text : String) : Option Nat :=
  ((Text.signedNatural? text.toList).filter (· ≤ LogLevel.trace.rank)).or (namedLimit? text)

/-! ## Reading -/

/-- Whether a rule may begin with the character, if it names a target or gives a level. -/
def canBegin (character : Char) : Bool :=
  ['-', ':', '_'].contains character || Text.isAlphanumeric character

/-- The part of a text between two places, counted in bytes. -/
def part (text : String) (start stop : Nat) : Except LogRuleError String :=
  let first : String.Pos.Raw := ⟨start⟩
  let last : String.Pos.Raw := ⟨stop⟩
  if first.isValid text && last.isValid text then .ok (first.extract text last)
  else .error .splitCharacter

/-- A field with what is asked of its value: a name, perhaps with an equals sign and a value after
it.  Of a second equals sign and what comes after it nothing is known. -/
def field? (text : String) : Option (String × LogTest) :=
  match text.splitOn "=" with
  | [] => none
  | [name] => if name.isEmpty then none else some (name, .present)
  | name :: value :: _ => (LogTest.ofText? value).map (name, ·)

/-- Something that makes sense. -/
def sensible {α : Type} (found : Option α) : Except LogRuleError α :=
  match found with
  | some found => .ok found
  | none => .error .meaningless

/-- Which part of a rule is being read, with where it starts. -/
inductive Stage where
  /-- Nothing has been read. -/
  | start
  /-- A target, or a level if nothing comes after it. -/
  | levelOrTarget
  /-- The name of the work. -/
  | span (start : Nat)
  /-- A field. -/
  | field (start : Nat)
  /-- The field is complete. -/
  | fieldEnd
  /-- The brackets are closed. -/
  | spanEnd
  /-- A level after an equals sign. -/
  | level (start : Nat)

/-- How far a rule has been read. -/
structure Progress where
  /-- The part that is being read. -/
  stage : Stage := .start
  /-- The place of the next character. -/
  place : Nat := 0
  /-- What has been read. -/
  rule : LogRule := {}

namespace Progress

/-- Reads one more character of the text. -/
def next (text : String) (progress : Progress) (character : Char) :
    Except LogRuleError Progress := do
  let here := progress.place
  let after := here + character.utf8Size
  let rule := progress.rule
  match progress.stage, character with
  | .start, '[' => pure ⟨.span after, after, rule⟩
  | .start, _ =>
      if canBegin character then pure ⟨.levelOrTarget, after, rule⟩ else throw .meaningless
  | .levelOrTarget, '=' => do
      pure ⟨.level after, after, { rule with target := some (← part text 0 here) }⟩
  | .levelOrTarget, '[' => do
      pure ⟨.span after, after, { rule with target := some (← part text 0 here) }⟩
  | .span start, ']' => do
      pure ⟨.spanEnd, after, { rule with span := some (← part text start here) }⟩
  | .span start, '\x7b' => do
      let name ← part text start here
      let span := if name.isEmpty then none else some name
      pure ⟨.field after, after, { rule with span }⟩
  | .field start, '\x7d' => do
      let field ← sensible (field? (← part text start here))
      pure ⟨.fieldEnd, after, { rule with field := some field }⟩
  | .fieldEnd, ']' => pure ⟨.spanEnd, after, rule⟩
  | .spanEnd, '=' => pure ⟨.level after, after, rule⟩
  | .fieldEnd, _ | .spanEnd, _ => throw .meaningless
  | stage, _ => pure ⟨stage, after, rule⟩

/-- The rule, if the text may end here. -/
def finish (text : String) (progress : Progress) : Except LogRuleError LogRule := do
  let rule := progress.rule
  match progress.stage with
  | .levelOrTarget =>
      match limit? text with
      | some limit => pure { rule with limit }
      | none => pure { rule with target := some text }
  | .level start => do
      let level ← part text start text.utf8ByteSize
      if level.isEmpty then pure rule
      else pure { rule with limit := ← sensible (limit? level) }
  | .spanEnd => pure rule
  | _ => throw .meaningless

end Progress

/-- The rule that a text stands for.  Without a level, all records are written. -/
def ofText (text : String) : Except LogRuleError LogRule := do
  let progress ← (Text.trimmed text.toList).foldlM (Progress.next text) {}
  progress.finish text

/-! ## Meaning -/

/-- Whether the rule is about records of every work. -/
def isAboutRecords (rule : LogRule) : Bool :=
  rule.span.isNone && rule.field.all fun field => decide (field.2 = .present)

/-- Whether the rule is about work. -/
def isAboutWork (rule : LogRule) : Bool :=
  rule.span.isSome || rule.field.isSome

/-- Whether the rule is about targets of this name. -/
def coversTarget (rule : LogRule) (target : String) : Bool :=
  rule.target.all fun start => start.toList.isPrefixOf target.toList

/-- Whether the rule is about the record. -/
def coversRecord (rule : LogRule) (record : LogRecord) : Bool :=
  rule.isAboutRecords && rule.coversTarget record.target &&
    rule.field.all fun field => record.fieldNames.contains field.1

/-- Whether the rule is about the work, and what is known about it passes the test. -/
def coversSpan (rule : LogRule) (span : LogSpan) : Bool :=
  rule.isAboutWork && rule.coversTarget span.target && rule.span.all (· = span.name) &&
    rule.field.all fun field => (span.fields.lookup field.1).any field.2.passes

/-- Whether the rule allows records of the level. -/
def allows (rule : LogRule) (level : LogLevel) : Bool := level.rank ≤ rule.limit

/-- How exactly a rule says what it is about: by a longer target, else by a field, else by the name
of a field that comes later in the alphabet. -/
def compareExactness (left right : LogRule) : Ordering :=
  let size (rule : LogRule) := rule.target.map String.utf8ByteSize
  let name (rule : LogRule) := rule.field.map (·.1)
  (compare (size left) (size right)).then (compare (name left) (name right))

/-- Whether two rules are about the same, so that the later one replaces the other. -/
def hasSameSubject (left right : LogRule) : Bool :=
  left.target = right.target && left.span = right.span && left.field = right.field

end LogRule

end HeaviestChain
