import Tablature.Text.Fields

/-!
# Decimal numerals

Whole numbers are written with the digits `0` to `9`. No numeral, read or written, has more than
`digitLimit` digits; leading zeros count, signs do not. `read` takes a run of digits, `parse` a
text with blanks around it and perhaps a plus sign, and `write` gives the numeral of a number.
Other scripts have decimal digits too, which stand in no numeral that is read.

* `read_eq_ok_iff`: a run of digits is read as soon as it is neither empty nor too long.
-/

namespace Tablature

namespace Text

/-- The code points of the zeros of all scripts in Unicode 14. The other decimal digits of a script
follow its zero. -/
def decimalZeros : List Nat :=
  [0x0030, 0x0660, 0x06F0, 0x07C0, 0x0966, 0x09E6, 0x0A66, 0x0AE6, 0x0B66, 0x0BE6, 0x0C66,
   0x0CE6, 0x0D66, 0x0DE6, 0x0E50, 0x0ED0, 0x0F20, 0x1040, 0x1090, 0x17E0, 0x1810, 0x1946,
   0x19D0, 0x1A80, 0x1A90, 0x1B50, 0x1BB0, 0x1C40, 0x1C50, 0xA620, 0xA8D0, 0xA900, 0xA9D0,
   0xA9F0, 0xAA50, 0xABF0, 0xFF10, 0x104A0, 0x10D30, 0x11066, 0x110F0, 0x11136, 0x111D0, 0x112F0,
   0x11450, 0x114D0, 0x11650, 0x116C0, 0x11730, 0x118E0, 0x11950, 0x11C50, 0x11D50, 0x11DA0,
   0x16A60, 0x16AC0, 0x16B50, 0x1D7CE, 0x1D7D8, 0x1D7E2, 0x1D7EC, 0x1D7F6, 0x1E140, 0x1E2F0,
   0x1E950, 0x1FBF0]

def isDecimalDigit (c : Char) : Bool :=
  decimalZeros.any fun first => first ≤ c.toNat && c.toNat < first + 10

end Text

namespace Numeral

open Tablature.Text

/-- The most digits a numeral may have. -/
def digitLimit : Nat := 4300

/-- Why a text is not read as a number. -/
inductive Fault where
  /-- A run of digits without a digit. -/
  | noDigits
  /-- A text with nothing but blanks. -/
  | blank
  /-- A text with something else than digits. -/
  | notDigits
  /-- More digits than the limit. -/
  | tooLong (digits : Nat)
deriving DecidableEq, Repr

def Fault.message : Fault → String
  | noDigits => "invalid literal for int() with base 10: ''"
  | blank => "cannot parse integer from empty string"
  | notDigits => "invalid digit found in string"
  | tooLong digits =>
    "Exceeds the limit (4300 digits) for integer string conversion: value has " ++
      toString digits ++ " digits; use sys.set_int_max_str_digits() to increase the limit"

/-- The number written by a run of digits. -/
def read (digits : List Char) : Except Fault Nat :=
  if digits = [] then .error .noDigits
  else if digitLimit < digits.length then .error (.tooLong digits.length)
  else .ok (Nat.ofDigitChars 10 digits 0)

/-- A text without the plus sign in front of it. -/
def dropPlus : List Char → List Char
  | '+' :: cs => cs
  | cs => cs

/-- The number written by a text that may have blanks at its ends and a plus sign in front. -/
def parse (text : List Char) : Except Fault Nat :=
  let numeral := trim text
  let digits := dropPlus numeral
  if numeral = [] then .error .blank
  else if digits = [] ∨ ¬ digits.all Char.isDigit then .error .notDigits
  else read digits

/-- The numeral of a number, if it does not have too many digits. -/
def write (n : Int) : Option String :=
  if digitLimit < (toString n.natAbs).length then none else some (toString n)

theorem read_eq_ok_iff {digits : List Char} {n : Nat} :
    read digits = .ok n ↔
      digits ≠ [] ∧ digits.length ≤ digitLimit ∧ n = Nat.ofDigitChars 10 digits 0 := by
  unfold read
  split
  · simp [*]
  · split
    · simp only [reduceCtorEq, false_iff]; omega
    · simp only [Except.ok.injEq]
      constructor
      · rintro rfl; exact ⟨‹_›, by omega, rfl⟩
      · rintro ⟨-, -, rfl⟩; rfl

end Numeral

end Tablature
