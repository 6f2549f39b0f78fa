/-!
# Hexadecimal digits

Digits up to fifteen, with letters of either case when read and small ones when written.
-/

namespace SchemaLift.Text

/-- The value of a hexadecimal digit. -/
def hexValue? (char : Char) : Option Nat :=
  if '0' ≤ char ∧ char ≤ '9' then some (char.toNat - '0'.toNat)
  else if 'a' ≤ char ∧ char ≤ 'f' then some (char.toNat - 'a'.toNat + 10)
  else if 'A' ≤ char ∧ char ≤ 'F' then some (char.toNat - 'A'.toNat + 10)
  else none

/-- The hexadecimal digits of a code point, without leading zeros. -/
def hexText (code : Nat) : List Char :=
  Nat.toDigits 16 code

end SchemaLift.Text
