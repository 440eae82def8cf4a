import HclSyntax.Text.Digits

/-!
# `HclSyntax.Data.Yaml.Resolution`: texts that would be read as something else

A YAML scalar without quotes that is spelled like nothing, like a truth value or like a number is
read as that. `Yaml.resolves` tells these texts, which need quotes to stay texts.

The truth values are those of YAML 1.2, so `yes` and `off` are texts. Numbers are integers of up to
128 bits in base 16, 8 or 2, decimals in the range of double precision, the infinities, and the
value that is no number. What is too large for its kind is a text again.
-/

set_option autoImplicit false

namespace HclSyntax.Yaml

/-- The spellings of nothing. -/
def nullWords : List Text :=
  ["null", "Null", "NULL", "~"].map String.toList

/-- The spellings of the truth values. -/
def truthWords : List Text :=
  ["true", "True", "TRUE", "false", "False", "FALSE"].map String.toList

/-- The spellings of infinity, which may have a sign. -/
def infinityWords : List Text :=
  [".inf", ".Inf", ".INF"].map String.toList

/-- The spellings of the value that is no number. -/
def notANumberWords : List Text :=
  [".nan", ".NaN", ".NAN"].map String.toList

/-! ### Numbers -/

/-- Whether a number starts with a minus sign, and the number without its sign. -/
def splitSign : Text → Bool × Text
  | '-' :: rest => (true, rest)
  | '+' :: rest => (false, rest)
  | text => (false, text)

/-- The marks of the bases other than ten. -/
def baseMarks : List (Text × Nat) :=
  [("0x".toList, 16), ("0o".toList, 8), ("0b".toList, 2)]

/-- Whether a text is an integer with a mark of its base. Negative ones are at least -2¹²⁷, others
less than 2¹²⁸. -/
def isMarkedInteger (text : Text) : Bool :=
  let (negative, magnitude) := splitSign text
  baseMarks.any fun (mark, base) =>
    match mark.isPrefixOf? magnitude with
    | none => false
    | some digits =>
      (Text.numeral? base digits).any fun value =>
        if negative then value ≤ Nat.pow 2 127 else value < Nat.pow 2 128

/-- A decimal without its sign: the number its digits write, times a power of ten. -/
structure Decimal where
  digits : Text
  exponent : Int

/-- The decimal that a text without sign writes: digits with at most one point among or around them,
and perhaps an exponent. -/
def decimal? (text : Text) : Option Decimal :=
  let whole := text.takeWhile Char.isDigit
  let (decimals, rest) :=
    match text.dropWhile Char.isDigit with
    | '.' :: rest => (rest.takeWhile Char.isDigit, rest.dropWhile Char.isDigit)
    | rest => ([], rest)
  if whole.isEmpty && decimals.isEmpty then none
  else
    match rest with
    | [] => some ⟨whole ++ decimals, -decimals.length⟩
    | mark :: power =>
      if mark = 'e' ∨ mark = 'E' then
        let (negative, magnitude) := splitSign power
        (Text.numeral? 10 magnitude).map fun value =>
          ⟨whole ++ decimals, (if negative then -value else value) - (decimals.length : Int)⟩
      else none

/-- Whether a decimal is in the range of double precision: less than the number half a step above
the largest one, from which on rounding gives infinity. That number has 309 digits, so decimals with
more or fewer digits before their point need no arithmetic. -/
def Decimal.isFinite (decimal : Decimal) : Bool :=
  let digits := decimal.digits.dropWhile (· = '0')
  let places := digits.length + decimal.exponent
  if digits.isEmpty || places < 309 then true
  else if 309 < places then false
  else
    (Text.numeral? 10 digits).getD 0 * Nat.pow 10 decimal.exponent.toNat
      < (Nat.pow 2 1024 - Nat.pow 2 970) * Nat.pow 10 (-decimal.exponent).toNat

/-- Whether a text consists of digits after a leading zero, which some readers take for a number and
some do not. -/
def isZeroPadded (text : Text) : Bool :=
  match (splitSign text).2 with
  | '0' :: c :: rest => (c :: rest).all Char.isDigit
  | _ => false

/-- Whether a text is a number. -/
def isNumber (text : Text) : Bool :=
  isMarkedInteger text
    || (decimal? (splitSign text).2).any Decimal.isFinite
    || isZeroPadded text
    || infinityWords.contains (splitSign text).2
    || notANumberWords.contains text

/-! ### All kinds -/

/-- Whether a text without quotes would be read as something else than this text. -/
def resolves (text : Text) : Bool :=
  text.isEmpty || nullWords.contains text || truthWords.contains text || isNumber text

end HclSyntax.Yaml
