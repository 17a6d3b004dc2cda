import PromqlGuide.Text.DecimalDigit

/-!
Numerals: whole numbers written in decimal. Numerals of more than 4300 digits are refused, both
when a number is read and when one is written.

Main statements: a run of digits within the limit is read as its value (`readNumeral_eq_ok_iff`),
and a number within the limit is written as its decimal text (`writeNumeral_eq_ok_iff`).
-/
namespace PromqlGuide.Text

/-- The most digits that a numeral may have. -/
def numeralLimit : Nat := 4300

/-- Why a numeral is refused: too many digits to read, or too many to write. -/
inductive NumeralTooLong where
  | reading (digits : Nat)
  | writing
  deriving Repr, DecidableEq

/-- The sentence that reports a refused numeral. -/
def NumeralTooLong.message : NumeralTooLong → String
  | .reading digits =>
    s!"Exceeds the limit ({numeralLimit} digits) for integer string conversion: " ++
      s!"value has {digits} digits; use sys.set_int_max_str_digits() to increase the limit"
  | .writing =>
    s!"Exceeds the limit ({numeralLimit} digits) for integer string conversion; " ++
      "use sys.set_int_max_str_digits() to increase the limit"

/-- The value of a run of digits; leading zeros count towards the limit. -/
def readNumeral (digits : List Char) : Except NumeralTooLong Nat :=
  if digits.length ≤ numeralLimit then .ok (digitsValue digits)
  else .error (.reading digits.length)

/-- Digits are read as their number exactly if there are not too many. -/
theorem readNumeral_eq_ok_iff {digits : List Char} {n : Nat} :
    readNumeral digits = .ok n ↔ digits.length ≤ numeralLimit ∧ n = digitsValue digits := by
  unfold readNumeral
  split
  · next h => simp [h, eq_comm]
  · next h => simp [h]

/-- The smallest number with too many digits. -/
def numeralBound : Nat := Nat.pow 10 numeralLimit

/-- Whether a whole number has few enough digits to be written. -/
def isWritable (n : Int) : Bool := decide (n.natAbs < numeralBound)

/-- The decimal text of a whole number. -/
def writeNumeral (n : Int) : Except NumeralTooLong String :=
  if isWritable n then .ok (toString n) else .error .writing

/-- A whole number is written in digits exactly if there are not too many. -/
theorem writeNumeral_eq_ok_iff {n : Int} {s : String} :
    writeNumeral n = .ok s ↔ isWritable n = true ∧ s = toString n := by
  unfold writeNumeral
  cases isWritable n <;> simp [eq_comm]

end PromqlGuide.Text
