/-!
# Fixed-width hexadecimal text

Flag words and magic numbers are shown in lowercase hexadecimal with a fixed
number of digits.
-/

namespace ClassAccess.Text

/-- The lowercase digit of a number below sixteen. -/
def hexDigit (value : Nat) : Char :=
  if value < 10 then Char.ofNat (48 + value) else Char.ofNat (87 + value)

/-- The last `width` hexadecimal digits of a number, most significant first. -/
def hexDigits : Nat → Nat → List Char
  | 0, _ => []
  | width + 1, value => hexDigits width (value / 16) ++ [hexDigit (value % 16)]

/-- A number as `0x` and exactly `width` digits. -/
def hexText (width value : Nat) : String :=
  String.ofList ('0' :: 'x' :: hexDigits width value)

@[simp] theorem length_hexDigits (width value : Nat) : (hexDigits width value).length = width := by
  induction width generalizing value with
  | zero => rfl
  | succ width ih => simp [hexDigits, ih]

end ClassAccess.Text
