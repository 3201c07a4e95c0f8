import HeaviestChain.Text.Numeral

/-!
# Characters and texts in TOML

How a document spells blanks, comments, keys and texts.  A reader takes the characters that are
left of the document, and gives what it read with the characters after it.

A text stands between double quotes, where a backslash escapes a character, or between single
quotes, where all characters stand for themselves.  Three quotes make a text that may have several
lines; a line end right after them does not count.
-/

namespace HeaviestChain.Toml

/-! ## Characters -/

/-- Whether a character separates words on a line. -/
def isBlank (character : Char) : Bool :=
  character = ' ' || character = '\t'

/-- Whether a character may not stand in a comment or a text: a control other than a tab. -/
def isForbidden (character : Char) : Bool :=
  character ≠ '\t' && (character.toNat < 0x20 || character.toNat = 0x7f)

/-- Whether a character may stand in a key without quotes. -/
def isKeyCharacter (character : Char) : Bool :=
  character.isAlphanum || character = '-' || character = '_'

/-! ## Between words -/

/-- What is left after blanks. -/
def skipBlanks (left : List Char) : List Char := left.dropWhile isBlank

/-- What is left after a line end, if there is one. -/
def newline? : List Char → Option (List Char)
  | '\n' :: left => some left
  | '\r' :: '\n' :: left => some left
  | _ => none

/-- What is left after blanks, line ends and comments; nothing if a comment is ill-formed. -/
def skipTrivia (inComment : Bool) : List Char → Option (List Char)
  | [] => some []
  | '\n' :: left => skipTrivia false left
  | '\r' :: '\n' :: left => skipTrivia false left
  | character :: left =>
      if inComment then if isForbidden character then none else skipTrivia true left
      else if isBlank character then skipTrivia false left
      else if character = '#' then skipTrivia true left
      else some (character :: left)

/-- Whether the line ends here, or only a comment follows. -/
def isLineEnd (left : List Char) : Bool :=
  left.isEmpty || (newline? left).isSome || left.head? = some '#'

/-! ## Texts -/

/-- The character that is meant by what follows a backslash. -/
def escape? : List Char → Option (Char × List Char)
  | 'b' :: left => some ('\x08', left)
  | 't' :: left => some ('\t', left)
  | 'n' :: left => some ('\n', left)
  | 'f' :: left => some ('\x0c', left)
  | 'r' :: left => some ('\r', left)
  | '"' :: left => some ('"', left)
  | '\\' :: left => some ('\\', left)
  | 'u' :: left => Text.codePoint? 4 left
  | 'U' :: left => Text.codePoint? 8 left
  | _ => none

/-- An escape takes at least one character. -/
theorem length_escape? {left after : List Char} {character : Char}
    (found : escape? left = some (character, after)) : after.length < left.length := by
  unfold escape? at found
  split at found
  case h_8 => exact Nat.lt_succ_of_le (Text.length_codePoint? found)
  case h_9 => exact Nat.lt_succ_of_le (Text.length_codePoint? found)
  case h_10 => simp at found
  all_goals
    obtain ⟨_, rfl⟩ := by simpa using found
    simp

/-- Puts a character in front of a text that was read. -/
def withFirst (character : Char) (read : List Char × List Char) : List Char × List Char :=
  (character :: read.1, read.2)

/-- Reads a text on one line up to its closing double quote. -/
def escapedText (left : List Char) : Option (List Char × List Char) :=
  match left with
  | [] => none
  | '"' :: left => some ([], left)
  | '\\' :: left =>
      match _found : escape? left with
      | none => none
      | some (character, after) => (escapedText after).map (withFirst character)
  | character :: left =>
      if isForbidden character then none else (escapedText left).map (withFirst character)
termination_by left.length
decreasing_by
  · exact Nat.lt_succ_of_lt (length_escape? _found)
  · exact Nat.lt_succ_self _

/-- Reads a text on one line up to its closing single quote. -/
def plainText : List Char → Option (List Char × List Char)
  | [] => none
  | '\'' :: left => some ([], left)
  | character :: left =>
      if isForbidden character then none else (plainText left).map (withFirst character)

/-- The quotes after the three that close a text with several lines: up to two of them belong to
the text. -/
def afterClosing (quote : Char) (left : List Char) : List Char × List Char :=
  let quotes := (left.take 2).takeWhile (· = quote)
  (quotes, left.drop quotes.length)

/-- Reads a text with several lines up to its closing double quotes.  A backslash at the end of a
line takes away the blanks and line ends up to the next character that is neither. -/
def escapedLines (isSkipping : Bool) (left : List Char) : Option (List Char × List Char) :=
  match left with
  | [] => none
  | '"' :: '"' :: '"' :: left => some (afterClosing '"' left)
  | '\\' :: left =>
      if (newline? (skipBlanks left)).isSome then escapedLines true left
      else
        match _found : escape? left with
        | none => none
        | some (character, after) => (escapedLines false after).map (withFirst character)
  | '\r' :: '\n' :: left => escapedLines isSkipping ('\n' :: left)
  | character :: left =>
      if isSkipping && (isBlank character || character = '\n') then escapedLines true left
      else if isForbidden character && character ≠ '\n' then none
      else (escapedLines false left).map (withFirst character)
termination_by left.length
decreasing_by
  · exact Nat.lt_succ_self _
  · exact Nat.lt_succ_of_lt (length_escape? _found)
  · exact Nat.lt_succ_self _
  · exact Nat.lt_succ_self _
  · exact Nat.lt_succ_self _

/-- Reads a text with several lines up to its closing single quotes. -/
def plainLines : List Char → Option (List Char × List Char)
  | [] => none
  | '\'' :: '\'' :: '\'' :: left => some (afterClosing '\'' left)
  | '\r' :: '\n' :: left => (plainLines left).map (withFirst '\n')
  | character :: left =>
      if isForbidden character && character ≠ '\n' then none
      else (plainLines left).map (withFirst character)

/-- What is left after a line end right at the start of a text with several lines. -/
def skipFirstNewline (left : List Char) : List Char := (newline? left).getD left

/-- Reads a text on one line, if one starts here. -/
def lineText? : List Char → Option (String × List Char)
  | '"' :: left => (escapedText left).map fun read => (String.ofList read.1, read.2)
  | '\'' :: left => (plainText left).map fun read => (String.ofList read.1, read.2)
  | _ => none

/-- Reads a text, if one starts here. -/
def text? : List Char → Option (String × List Char)
  | '"' :: '"' :: '"' :: left =>
      (escapedLines false (skipFirstNewline left)).map fun read => (String.ofList read.1, read.2)
  | '\'' :: '\'' :: '\'' :: left =>
      (plainLines (skipFirstNewline left)).map fun read => (String.ofList read.1, read.2)
  | left => lineText? left

/-! ## Keys -/

/-- The number of levels that keys, and values in values, stay below. -/
def maxNesting : Nat := 80

/-- Reads one part of a key. -/
def keyPart? (left : List Char) : Option (String × List Char) :=
  let word := left.takeWhile isKeyCharacter
  if word.isEmpty then lineText? left
  else some (String.ofList word, left.dropWhile isKeyCharacter)

/-- Reads the parts of a key, of which at most `count` are left, with blanks around them. -/
def keyParts? : (count : Nat) → List Char → Option (List String × List Char)
  | 0, _ => none
  | count + 1, left => do
      let (part, left) ← keyPart? (skipBlanks left)
      match skipBlanks left with
      | '.' :: left =>
          let (parts, left) ← keyParts? count left
          pure (part :: parts, left)
      | left => pure ([part], left)

/-- Reads a key: parts with dots between them. -/
def key? (left : List Char) : Option (List String × List Char) :=
  keyParts? (maxNesting - 1) left

end HeaviestChain.Toml
