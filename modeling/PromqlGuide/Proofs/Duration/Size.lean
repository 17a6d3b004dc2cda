import Mathlib.Data.List.Induction
import Mathlib.Tactic.Ring
import PromqlGuide.Duration.Basic

/-!
# The size of durations

A duration has at most as many digits as its text has characters, apart from those that come in with
its units: the longest unit, a year, adds eleven of them, and takes one character itself.

Main statement: a duration is below a power of ten that the length of its text determines
(`Duration.read_lt`).
-/
namespace PromqlGuide

open Text

/-- A run of digits stands for a number with at most as many digits. -/
lemma Text.digitsValue_lt (ds : List Char) : digitsValue ds < 10 ^ ds.length := by
  induction ds using List.reverseRecOn with
  | nil => decide
  | append_singleton ds c ih =>
    have hdigit : (digitValue? c).getD 0 < 10 := by
      cases hc : digitValue? c with
      | none => decide
      | some v => exact digitValue_lt hc
    have hvalue : digitsValue (ds ++ [c]) = digitsValue ds * 10 + (digitValue? c).getD 0 := by
      rw [digitsValue, List.foldl_append]
      rfl
    rw [hvalue, List.length_append, List.length_singleton, pow_succ]
    omega

namespace Duration

variable {ps : List DurationPart} {cs : List Char}

/-- No unit is longer than a year. -/
lemma milliseconds_le (u : TimeUnit) : u.milliseconds ≤ TimeUnit.year.milliseconds := by
  cases u <;> decide

/-- How many digits the parts of a duration have together. -/
def digitCount : List DurationPart → Nat
  | [] => 0
  | p :: ps => p.digits.length + digitCount ps

/-- Parts last less than a number of years that has their digits. -/
lemma sum_add_le (ps : List DurationPart) :
    sum ps + TimeUnit.year.milliseconds ≤ TimeUnit.year.milliseconds * 10 ^ digitCount ps := by
  induction ps with
  | nil => exact Nat.le_refl _
  | cons p ps ih =>
    -- the number of the part and that of the others are multiplied, not only added
    obtain ⟨a, ha⟩ : ∃ a, 10 ^ p.digits.length = a + 1 :=
      Nat.exists_eq_succ_of_ne_zero (Nat.pos_iff_ne_zero.1 (Nat.pow_pos (by decide)))
    have hdigits : digitsValue p.digits ≤ a := by
      have hlt := digitsValue_lt p.digits
      omega
    have hown : digitsValue p.digits * p.unit.milliseconds ≤ a * TimeUnit.year.milliseconds :=
      Nat.mul_le_mul hdigits (milliseconds_le p.unit)
    have hpow : 1 ≤ 10 ^ digitCount ps := Nat.pow_pos (by decide)
    have hmore : a * TimeUnit.year.milliseconds ≤
        a * (TimeUnit.year.milliseconds * 10 ^ digitCount ps) :=
      Nat.mul_le_mul_left a (Nat.le_mul_of_pos_right _ hpow)
    rw [sum, digitCount, pow_add, ha]
    calc digitsValue p.digits * p.unit.milliseconds + sum ps + TimeUnit.year.milliseconds
        ≤ a * (TimeUnit.year.milliseconds * 10 ^ digitCount ps) +
            TimeUnit.year.milliseconds * 10 ^ digitCount ps := by omega
      _ = TimeUnit.year.milliseconds * ((a + 1) * 10 ^ digitCount ps) := by ring

/-- Every part that is found in a text has a unit there besides its digits. -/
lemma digitCount_partsFrom (run cs : List Char) :
    digitCount (partsFrom run cs) + (partsFrom run cs).length ≤ run.length + cs.length := by
  induction cs generalizing run with
  | nil => exact Nat.zero_le _
  | cons c cs ih =>
    have hempty := ih []
    rw [List.length_nil] at hempty
    unfold partsFrom
    rw [List.length_cons]
    split_ifs
    · have hrun := ih (c :: run)
      rw [List.length_cons] at hrun
      omega
    · omega
    · split
      · omega
      · rw [digitCount, List.length_cons, List.length_reverse]
        omega

/-- The milliseconds of a text have at most ten digits more than the text has characters. -/
theorem read_lt {ms : Nat} (h : read cs = .ok ms) : ms < 10 ^ (cs.length + 10) := by
  have hfallback : fallback < 10 ^ (cs.length + 10) :=
    Nat.lt_of_lt_of_le (by decide : fallback < 10 ^ 10)
      (Nat.pow_le_pow_right (by decide) (Nat.le_add_left _ _))
  obtain ⟨n, hn, rfl⟩ : ∃ n, total (parts cs) = .ok n ∧ (if n = 0 then fallback else n) = ms := by
    unfold read at h
    cases htotal : total (parts cs) with
    | error cause =>
      rw [htotal] at h
      cases h
    | ok n =>
      rw [htotal] at h
      exact ⟨n, rfl, Except.ok.inj h⟩
  obtain ⟨-, rfl⟩ := total_eq_ok_iff.1 hn
  split_ifs with hzero
  · exact hfallback
  have hcount : digitCount (parts cs) + (parts cs).length ≤ 0 + cs.length :=
    digitCount_partsFrom [] cs
  have hparts : (parts cs).length ≠ 0 := by
    intro hlength
    rw [List.eq_nil_of_length_eq_zero hlength] at hzero
    exact hzero rfl
  calc sum (parts cs)
      < TimeUnit.year.milliseconds * 10 ^ digitCount (parts cs) := by
        have hle := sum_add_le (parts cs)
        have hyear : 0 < TimeUnit.year.milliseconds := by decide
        omega
    _ ≤ 10 ^ 11 * 10 ^ digitCount (parts cs) := Nat.mul_le_mul_right _ (by decide)
    _ = 10 ^ (11 + digitCount (parts cs)) := (pow_add 10 11 _).symm
    _ ≤ 10 ^ (cs.length + 10) := Nat.pow_le_pow_right (by decide) (by omega)

end Duration

end PromqlGuide
