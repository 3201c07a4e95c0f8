import HeaviestChain.Toml.Text

/-!
# Numbers in TOML

Integers have 64 bits with a sign and may be written in base ten, two, eight or sixteen.  Floating
point numbers have a part after the point, an exponent, or both; one that is too large is refused.
An underscore may stand between two digits.
-/

namespace HeaviestChain.Toml

/-- A number in a document.  Of a floating point number only the kind is kept. -/
inductive Number where
  /-- An integer. -/
  | integer (value : Int)
  /-- A floating point number. -/
  | float
  deriving DecidableEq

/-! ## Digits -/

/-- Reads digits with single underscores between them, of which one digit has been read. -/
def moreDigits (isDigit : Char → Bool) : List Char → List Char × List Char
  | '_' :: digit :: left =>
      if isDigit digit then withFirst digit (moreDigits isDigit left)
      else ([], '_' :: digit :: left)
  | digit :: left =>
      if isDigit digit then withFirst digit (moreDigits isDigit left) else ([], digit :: left)
  | [] => ([], [])

/-- Reads digits, if one stands here. -/
def digits? (isDigit : Char → Bool) : List Char → Option (List Char × List Char)
  | digit :: left =>
      if isDigit digit then some (withFirst digit (moreDigits isDigit left)) else none
  | [] => none

/-- Reads digits in base ten that do not start with a superfluous zero. -/
def decimalDigits? : List Char → Option (List Char × List Char)
  | '0' :: left => some (['0'], left)
  | left => digits? Char.isDigit left

/-- Reads a sign.  Says whether it is a minus. -/
def sign : List Char → Bool × List Char
  | '-' :: left => (true, left)
  | '+' :: left => (false, left)
  | left => (false, left)

/-! ## Integers -/

/-- The integer, if 64 bits are enough for it. -/
def integer? (value : Int) : Option Number :=
  if Int64.minValue.toInt ≤ value ∧ value ≤ Int64.maxValue.toInt then some (.integer value)
  else none

/-- Reads an integer in the given base, after the mark of the base. -/
def integerInBase? (base : Nat) (left : List Char) : Option (Number × List Char) := do
  let isDigit character := (Text.digitValue? character).any fun value => decide (value < base)
  let (digits, left) ← digits? isDigit left
  let number ← integer? (← Text.valueOf? base digits)
  pure (number, left)

/-! ## Floating point numbers -/

/-- Reads the digits after the point, if there is one. -/
def fraction? : List Char → Option (List Char × List Char)
  | '.' :: left => digits? Char.isDigit left
  | left => some ([], left)

/-- Reads an exponent, if there is one. -/
def exponent? (left : List Char) : Option (Int × List Char) :=
  match left with
  | mark :: left =>
      if mark = 'e' || mark = 'E' then do
        let (isNegative, left) := sign left
        let (digits, left) ← digits? Char.isDigit left
        let value ← Text.valueOf? 10 digits
        pure (if isNegative then -value else value, left)
      else some (0, mark :: left)
  | [] => some (0, [])

/-- The least number that rounds to infinity: half a step beyond the largest finite one. -/
def floatLimit : Nat := 1 <<< 1024 - 1 <<< 970

/-- Whether a number in decimal, with its point moved right by `exponent` digits, is too large. -/
def isTooLarge (digits : List Char) (exponent : Int) : Bool :=
  let significant := digits.dropWhile (· = '0')
  let size := significant.length + exponent
  if significant.isEmpty || size < 308 then false
  else if 310 < size then true
  else
    match Text.valueOf? 10 significant with
    | some value =>
        decide (floatLimit * Nat.pow 10 (-exponent).toNat ≤ value * Nat.pow 10 exponent.toNat)
    | none => false

/-! ## Numbers -/

/-- Reads a number in base ten, after its sign. -/
def decimal? (isNegative : Bool) (left : List Char) : Option (Number × List Char) := do
  let (whole, left) ← decimalDigits? left
  let (fraction, afterFraction) ← fraction? left
  let (exponent, afterExponent) ← exponent? afterFraction
  if afterExponent.length = left.length then
    let value ← Text.valueOf? 10 whole
    let number ← integer? (if isNegative then -value else value)
    pure (number, left)
  else if !isNegative && isTooLarge (whole ++ fraction) (exponent - fraction.length) then none
  else pure (.float, afterExponent)

/-- Reads a number. -/
def number? : List Char → Option (Number × List Char)
  | '0' :: 'x' :: left => integerInBase? 16 left
  | '0' :: 'o' :: left => integerInBase? 8 left
  | '0' :: 'b' :: left => integerInBase? 2 left
  | left =>
      match sign left with
      | (_, 'i' :: 'n' :: 'f' :: left) => some (.float, left)
      | (_, 'n' :: 'a' :: 'n' :: left) => some (.float, left)
      | (isNegative, left) => decimal? isNegative left

end HeaviestChain.Toml
