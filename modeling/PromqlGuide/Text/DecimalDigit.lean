/-!
Decimal digits of every script. Each script that has them has ten in a row, from zero to nine, so
a table of the zeros is enough.

Main statements: a digit's value is below ten (`digitValue_lt`), and the ASCII digits are among
the digits (`isDigit_of_ascii`).
-/
namespace PromqlGuide.Text

/-- The code points of the zeros of all scripts with decimal digits. -/
def digitZeros : List Nat :=
  [0x30, 0x660, 0x6F0, 0x7C0, 0x966, 0x9E6, 0xA66, 0xAE6, 0xB66, 0xBE6, 0xC66, 0xCE6, 0xD66,
    0xDE6, 0xE50, 0xED0, 0xF20, 0x1040, 0x1090, 0x17E0, 0x1810, 0x1946, 0x19D0, 0x1A80, 0x1A90,
    0x1B50, 0x1BB0, 0x1C40, 0x1C50, 0xA620, 0xA8D0, 0xA900, 0xA9D0, 0xA9F0, 0xAA50, 0xABF0,
    0xFF10, 0x104A0, 0x10D30, 0x11066, 0x110F0, 0x11136, 0x111D0, 0x112F0, 0x11450, 0x114D0,
    0x11650, 0x116C0, 0x11730, 0x118E0, 0x11950, 0x11C50, 0x11D50, 0x11DA0, 0x16A60, 0x16AC0,
    0x16B50, 0x1D7CE, 0x1D7D8, 0x1D7E2, 0x1D7EC, 0x1D7F6, 0x1E140, 0x1E2F0, 0x1E950, 0x1FBF0]

/-- The value of a decimal digit of any script. -/
def digitValue? (c : Char) : Option Nat :=
  let n := c.toNat
  if n < 0x660 then
    if 0x30 ≤ n ∧ n < 0x3A then some (n - 0x30) else none
  else
    (digitZeros.find? fun first => decide (first ≤ n) && decide (n < first + 10)).map (n - ·)

/-- Whether the character is a decimal digit of some script. -/
def isDigit (c : Char) : Bool := (digitValue? c).isSome

/-- The value of a digit is below ten. -/
theorem digitValue_lt {c : Char} {v : Nat} (h : digitValue? c = some v) : v < 10 := by
  unfold digitValue? at h
  simp only at h
  split at h
  · split at h
    · cases h; omega
    · cases h
  · obtain ⟨first, hz, rfl⟩ := Option.map_eq_some_iff.1 h
    have := List.find?_some hz
    simp only [Bool.and_eq_true, decide_eq_true_eq] at this
    omega

/-- The digits from 0 to 9 of ASCII are digits. -/
theorem isDigit_of_ascii {c : Char} (h : 0x30 ≤ c.toNat ∧ c.toNat < 0x3A) :
    isDigit c = true := by
  unfold isDigit digitValue?
  simp only
  rw [if_pos (by omega), if_pos h]
  rfl

/-- The number that a run of digits stands for; a character that is no digit counts as zero. -/
def digitsValue (ds : List Char) : Nat :=
  ds.foldl (fun acc c => acc * 10 + (digitValue? c).getD 0) 0

end PromqlGuide.Text
