/-!
# Numerals

Numbers as they stand on a command line or in a rule for the log, and characters that are named by
their numbers.  Leading zeros are allowed.
-/

namespace HeaviestChain.Text

/-! ## Base ten -/

/-- The number with the given digits, the most significant one first. -/
def ofDigits (digits : List Char) : Nat :=
  digits.foldl (fun number digit => 10 * number + (digit.toNat - '0'.toNat)) 0

/-- The number that characters stand for, if they are digits and there is at least one. -/
def natural? (characters : List Char) : Option Nat :=
  if characters.isEmpty || !characters.all Char.isDigit then none else some (ofDigits characters)

/-- The number that digits stand for, perhaps after a plus sign. -/
def signedNatural? : List Char → Option Nat
  | '+' :: digits => natural? digits
  | digits => natural? digits

/-- Characters without the sign in front. -/
def unsigned : List Char → List Char
  | '+' :: left => left
  | '-' :: left => left
  | left => left

/-- Whether characters are an exponent: a mark, perhaps a sign, and digits. -/
def isExponent : List Char → Bool
  | [] => false
  | mark :: left => (mark = 'e' || mark = 'E') && (natural? (unsigned left)).isSome

/-- Whether characters are a real number: infinity, no number at all, or digits with a point among
them, before or behind them, if there is one, and perhaps an exponent. -/
def isReal (characters : List Char) : Bool :=
  let content := unsigned characters
  let whole := content.takeWhile Char.isDigit
  let left := content.dropWhile Char.isDigit
  let (fraction, left) := match left with
    | '.' :: left => (left.takeWhile Char.isDigit, left.dropWhile Char.isDigit)
    | left => ([], left)
  ["inf", "infinity", "nan"].contains (String.ofList (content.map Char.toLower)) ||
    (!(whole ++ fraction).isEmpty && (left.isEmpty || isExponent left))

/-! ## Other bases -/

/-- The value of a digit in base sixteen. -/
def digitValue? (character : Char) : Option Nat :=
  if character.isDigit then some (character.toNat - '0'.toNat)
  else if 'a' ≤ character && character ≤ 'f' then some (character.toNat - 'a'.toNat + 10)
  else if 'A' ≤ character && character ≤ 'F' then some (character.toNat - 'A'.toNat + 10)
  else none

/-- The number that digits in some base stand for, most significant digit first. -/
def valueOf? (base : Nat) (digits : List Char) : Option Nat :=
  digits.foldlM (fun value digit => (digitValue? digit).map (base * value + ·)) 0

/-- The character with the code point that the next digits give in base sixteen. -/
def codePoint? (count : Nat) (left : List Char) : Option (Char × List Char) :=
  if left.length < count then none
  else
    match valueOf? 16 (left.take count) with
    | some value =>
        if value.isValidChar then some (Char.ofNat value, left.drop count) else none
    | none => none

theorem length_codePoint? {count : Nat} {left after : List Char} {character : Char}
    (found : codePoint? count left = some (character, after)) : after.length ≤ left.length := by
  unfold codePoint? at found
  split at found
  case isTrue => cases found
  case isFalse =>
      split at found
      case h_2 => cases found
      case h_1 =>
          split at found
          case isFalse => cases found
          case isTrue =>
              cases found
              exact List.length_drop ▸ Nat.sub_le ..

end HeaviestChain.Text
