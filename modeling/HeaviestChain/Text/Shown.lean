import HeaviestChain.Text.Unseen

/-!
# Values as text

How a value stands in a line: the name of its kind with its named fields between braces, or a text
between double quotes.  A quoted text is in printable characters only, as people see it in a
message, or as JSON has it.
-/

namespace HeaviestChain.Text

/-- The kind, then the fields with their texts in order, between braces. -/
def fields (kind : String) (entries : List (String × String)) : String :=
  let shown := ", ".intercalate (entries.map fun entry => s!"{entry.1}: {entry.2}")
  s!"{kind} \x7b {shown} \x7d"

/-! ## Quoted text -/

/-- The digits of a number in base sixteen, in small letters and without leading zeros. -/
def hexadecimal (number : Nat) : String :=
  String.ofList (Nat.toDigits 16 number)

/-- How a character is written between double quotes: as it is if it can be seen, else by a letter
or by its code point. -/
def quotedChar (character : Char) : String :=
  match character with
  | '\x00' => "\\0"
  | '\t' => "\\t"
  | '\n' => "\\n"
  | '\r' => "\\r"
  | '"' => "\\\""
  | '\\' => "\\\\"
  | character =>
      if character.toNat < 0x20 || character.toNat = 0x7f || isUnseen character then
        "\\u\x7b" ++ hexadecimal character.toNat ++ "\x7d"
      else character.toString

/-- A text between double quotes, for people. -/
def quoted (text : String) : String :=
  "\"" ++ String.join (text.toList.map quotedChar) ++ "\""

/-- How JSON writes a character of a text. -/
def jsonChar (character : Char) : String :=
  match character with
  | '\x08' => "\\b"
  | '\t' => "\\t"
  | '\n' => "\\n"
  | '\x0c' => "\\f"
  | '\r' => "\\r"
  | '"' => "\\\""
  | '\\' => "\\\\"
  | character =>
      if character.toNat < 0x10 then "\\u000" ++ hexadecimal character.toNat
      else if character.toNat < 0x20 then "\\u00" ++ hexadecimal character.toNat
      else character.toString

/-- A text in JSON. -/
def json (text : String) : String :=
  "\"" ++ String.join (text.toList.map jsonChar) ++ "\""

end HeaviestChain.Text
