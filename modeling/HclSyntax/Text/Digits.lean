import HclSyntax.Text.Basic

/-!
# `HclSyntax.Text.Digits`: numbers written in digits

Digits of bases up to 36 are the ASCII digits and then the letters in either case. `Text.numeral?`
reads the number that some digits write.
-/

set_option autoImplicit false

namespace HclSyntax

/-- The value of a character as a digit of a large enough base. -/
def digitValue? (c : Char) : Option Nat :=
  if c.isDigit then some (c.toNat - '0'.toNat)
  else if 'a' ≤ c && c ≤ 'z' then some (c.toNat - 'a'.toNat + 10)
  else if 'A' ≤ c && c ≤ 'Z' then some (c.toNat - 'A'.toNat + 10)
  else none

/-- Whether a character is a digit of a base. -/
def isDigitOf (base : Nat) (c : Char) : Bool :=
  (digitValue? c).any (· < base)

/-- The number that digits of a base write; nothing if there is none or one is no digit. -/
def Text.numeral? (base : Nat) (digits : Text) : Option Nat :=
  if digits.isEmpty || !digits.all (isDigitOf base) then none
  else some (digits.foldl (fun value c => base * value + (digitValue? c).getD 0) 0)

end HclSyntax
