import HeaviestChain.Log.Rule

/-!
# The log filter

Which records are written.  A filter is a list of rules in one text, with commas between.  Of the
rules about a record, the most exact one decides whether it is written.  Besides, a record that was
made during some work is written if a rule about that work allows it.
-/

namespace HeaviestChain

/-- Which records are written. -/
structure LogFilter where
  /-- The rules, in the order in which they were given. -/
  rules : List LogRule
  deriving DecidableEq

namespace LogFilter

/-! ## Reading -/

/-- The filter with the given rules; without any, only errors are written. -/
def ofRules (rules : List LogRule) : LogFilter :=
  ⟨if rules.isEmpty then [{ limit := LogLevel.error.rank }] else rules⟩

/-- The texts of the single rules. -/
def ruleTexts (text : String) : List String :=
  (text.splitOn ",").filter fun rule => !rule.isEmpty

/-- The filter that a text stands for, if all its rules make sense. -/
def ofText (text : String) : Except LogRuleError LogFilter :=
  ((ruleTexts text).mapM LogRule.ofText).map ofRules

/-- A rule in a list, or no rules if the text makes no sense. -/
def sensibleRules (text : String) : Except LogRuleError (List LogRule) :=
  match LogRule.ofText text with
  | .ok rule => .ok [rule]
  | .error .meaningless => .ok []
  | .error .splitCharacter => .error .splitCharacter

/-- The filter that a text stands for, without the rules that make no sense. -/
def ofSensibleRules (text : String) : Except LogRuleError LogFilter :=
  ((ruleTexts text).mapM sensibleRules).map fun rules => ofRules rules.flatten

/-! ## Filtering -/

/-- Of two rules about a record, the one that decides: the more exact one, else the later one. -/
def deciding (earlier : Option LogRule) (later : LogRule) : Option LogRule :=
  match earlier with
  | none => some later
  | some earlier => if (earlier.compareExactness later).isLE then some later else some earlier

/-- Rules in order, without those that a later one replaces. -/
def latest : List LogRule → List LogRule
  | [] => []
  | rule :: rest => if rest.any rule.hasSameSubject then latest rest else rule :: latest rest

/-- Whether a record of the level is written because of the work during which it was made. -/
def passesSpan (filter : LogFilter) (level : LogLevel) (span : LogSpan) : Bool :=
  (latest filter.rules).any fun rule => rule.coversSpan span && rule.allows level

/-- Whether a record is written. -/
def passes (filter : LogFilter) (record : LogRecord) : Bool :=
  let rules := filter.rules.filter (·.coversRecord record)
  (rules.foldl deciding none).any (·.allows record.level) ||
    record.span.any (filter.passesSpan record.level)

end LogFilter

end HeaviestChain
