import HeaviestChain.Text.Shown

/-!
# Writing TOML

A text is written in the first of these ways that needs no escape: on one line between double
quotes, on one line between single quotes, between three double quotes, and between three single
quotes.  Up to two quotes together may stand between three of the same kind.  A text that fits none
of these needs escapes; it stays between double quotes, three of them if it has several lines.
-/

namespace HeaviestChain.Toml

/-- The digits of a number in base sixteen, in capital letters, of which there are four at least. -/
def codeUnit (number : Nat) : String :=
  let digits := (Nat.toDigits 16 number).map Char.toUpper
  String.ofList (List.replicate (4 - digits.length) '0' ++ digits)

/-- Whether a character can only be written by an escape. -/
def needsEscape (character : Char) : Bool :=
  character ≠ '\t' && character ≠ '\n' && (character.toNat < 0x20 || character.toNat = 0x7f)

/-- A character other than a quote as it is written between double quotes. -/
def escaped (keepsNewlines : Bool) (character : Char) : String :=
  match character with
  | '\x08' => "\\b"
  | '\t' => "\\t"
  | '\n' => if keepsNewlines then "\n" else "\\n"
  | '\x0c' => "\\f"
  | '\r' => "\\r"
  | '\\' => "\\\\"
  | character =>
      if needsEscape character then "\\u" ++ codeUnit character.toNat else character.toString

/-- The characters of a text as they are written between double quotes, of which `allowed` may
stand together.  `together` quotes come right before. -/
def escapedQuotes (keepsNewlines : Bool) (allowed : Nat) : (together : Nat) → List Char → String
  | _, [] => ""
  | together, '"' :: rest =>
      if together < allowed then "\"" ++ escapedQuotes keepsNewlines allowed (together + 1) rest
      else "\\\"" ++ escapedQuotes keepsNewlines allowed 0 rest
  | _, character :: rest =>
      escaped keepsNewlines character ++ escapedQuotes keepsNewlines allowed 0 rest

/-- A text on one line between double quotes. -/
def onOneLine (content : List Char) : String :=
  "\"" ++ escapedQuotes false 0 0 content ++ "\""

/-- What comes before the content of a text between three quotes.  A line end right after the
opening quotes does not count, so one is written if the text has several lines. -/
def lineStart (content : List Char) : String :=
  if content.contains '\n' then "\n" else ""

/-- A text between three double quotes. -/
def onLines (content : List Char) : String :=
  "\"\"\"" ++ lineStart content ++ escapedQuotes true 2 0 content ++ "\"\"\""

/-- A text between single quotes. -/
def verbatimOnOneLine (content : List Char) : String :=
  "'" ++ String.ofList content ++ "'"

/-- A text between three single quotes. -/
def verbatimOnLines (content : List Char) : String :=
  "'''" ++ lineStart content ++ String.ofList content ++ "'''"

/-- Whether more than two of the given character stand together somewhere. -/
def hasThree (quote : Char) : List Char → Bool
  | [] => false
  | character :: rest =>
      [quote, quote, quote].isPrefixOf (character :: rest) || hasThree quote rest

/-- A text. -/
def writtenText (text : String) : String :=
  let content := text.toList
  let isOneLine := !content.contains '\n'
  if content.any needsEscape then if isOneLine then onOneLine content else onLines content
  else if isOneLine && !content.contains '"' && !content.contains '\\' then onOneLine content
  else if isOneLine && !content.contains '\'' then verbatimOnOneLine content
  else if !hasThree '"' content && !content.contains '\\' then onLines content
  else if !hasThree '\'' content then verbatimOnLines content
  else if isOneLine then onOneLine content
  else onLines content

end HeaviestChain.Toml
