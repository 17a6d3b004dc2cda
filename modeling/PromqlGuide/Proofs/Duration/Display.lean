import Mathlib.Order.Bounds.Basic
import PromqlGuide.Proofs.Json.Numerals
import PromqlGuide.Proofs.Token.Durations

/-!
# Durations as they are displayed

A duration is displayed as a whole number of the largest unit that it reaches.  What is displayed is
a duration text of one part, and it is read back as the duration rounded down to that unit.
Rounding down keeps the order of durations: in front of the next larger unit it stays below it, and
behind it stays at least there.

Main statement: display and reading together round down (`Duration.display_rounds_down`).
-/
namespace PromqlGuide

open Text

namespace Duration

variable {n m u v : Nat}

/-- Whether a unit of so many milliseconds is the largest display unit that some milliseconds
reach. -/
def IsDisplaySize (n u : Nat) : Prop :=
  IsGreatest {s | s ∈ [86400000, 3600000, 60000, 1000, 1] ∧ s ≤ n} u

namespace IsDisplaySize

/-- The size of the unit is reached. -/
lemma le (h : IsDisplaySize n u) : u ≤ n := h.1.2

/-- The size of a unit is not zero. -/
lemma pos (h : IsDisplaySize n u) : 0 < u := by
  have hpositive : ∀ s ∈ [86400000, 3600000, 60000, 1000, 1], 0 < s := by decide
  exact hpositive u h.1.1

/-- There is only one size of the unit to display. -/
lemma unique (h : IsDisplaySize n u) (h' : IsDisplaySize n v) : u = v := IsGreatest.unique h h'

/-- What reaches a unit reaches it when it is rounded down. -/
lemma le_div_mul (h : IsDisplaySize n u) : u ≤ n / u * u :=
  Nat.le_mul_of_pos_left u (Nat.div_pos h.le h.pos)

/-- Rounding down does not change the largest unit. -/
lemma div_mul (h : IsDisplaySize n u) : IsDisplaySize (n / u * u) u :=
  ⟨⟨h.1.1, h.le_div_mul⟩, fun _ hs => h.2 ⟨hs.1, hs.2.trans (Nat.div_mul_le_self n u)⟩⟩

/-- Rounding down to the largest unit keeps the order. -/
lemma div_mul_le (h : IsDisplaySize n u) (h' : IsDisplaySize m v) (hle : n ≤ m) :
    n / u * u ≤ m / v * v := by
  by_cases hreach : v ≤ n
  · -- both are rounded to the same unit
    have huv : u = v := Nat.le_antisymm (h'.2 ⟨h.1.1, h.le.trans hle⟩) (h.2 ⟨h'.1.1, hreach⟩)
    subst huv
    exact Nat.mul_le_mul_right u (Nat.div_le_div_right hle)
  · calc n / u * u ≤ n := Nat.div_mul_le_self n u
      _ ≤ v := Nat.le_of_not_le hreach
      _ ≤ m / v * v := h'.le_div_mul

end IsDisplaySize

/-- The sizes are those of the display units, and a millisecond. -/
lemma mem_sizes {s : Nat} : s ∈ [86400000, 3600000, 60000, 1000, 1] ↔
    s ∈ displayUnits.map TimeUnit.milliseconds ∨ s = 1 := by
  have hsizes : [86400000, 3600000, 60000, 1000, 1] =
    displayUnits.map TimeUnit.milliseconds ++ [1] := by
    decide
  rw [hsizes, List.mem_append, List.mem_singleton]

/-- The unit that milliseconds are displayed in is the largest one that they reach. -/
lemma isDisplaySize_displayUnit (hn : 1 ≤ n) : IsDisplaySize n (displayUnit n).milliseconds := by
  have hsorted : displayUnits.Pairwise fun u v => v.milliseconds < u.milliseconds := by decide
  rw [displayUnit]
  cases hfind : displayUnits.find? fun u => decide ((u.milliseconds : Int) ≤ (n : Int)) with
  | none =>
    have hnone := List.find?_eq_none.1 hfind
    refine ⟨⟨mem_sizes.2 (.inr rfl), hn⟩, fun s hs => ?_⟩
    rcases mem_sizes.1 hs.1 with hmem | rfl
    · obtain ⟨w, hw, rfl⟩ := List.mem_map.1 hmem
      exact absurd (decide_eq_true (Int.ofNat_le.2 hs.2)) (hnone w hw)
    · exact Nat.le_refl _
  | some w =>
    obtain ⟨hw, larger, smaller, hunits, hlarger⟩ := List.find?_eq_some_iff_append.1 hfind
    have hmem : w ∈ displayUnits := List.mem_of_find?_eq_some hfind
    refine ⟨⟨mem_sizes.2 (.inl (List.mem_map_of_mem hmem)), Int.ofNat_le.1 (of_decide_eq_true hw)⟩,
      fun s hs => ?_⟩
    rcases mem_sizes.1 hs.1 with hsize | rfl
    · obtain ⟨x, hx, rfl⟩ := List.mem_map.1 hsize
      rw [hunits] at hx hsorted
      rcases List.mem_append.1 hx with hx | hx
      · exact absurd (hlarger x hx) (by simpa using hs.2)
      · rcases List.mem_cons.1 hx with rfl | hx
        · exact Nat.le_refl _
        · exact Nat.le_of_lt (List.rel_of_pairwise_cons (List.pairwise_append.1 hsorted).2.1 hx)
    · exact w.milliseconds_pos

/-- The unit with that size is the one that is displayed. -/
lemma displayUnit_eq {unit : TimeUnit} (h : IsDisplaySize n unit.milliseconds) :
    displayUnit n = unit := by
  have hinj : ∀ a b : TimeUnit, a.milliseconds = b.milliseconds → a = b := by
    intro a b
    cases a <;> cases b <;> simp [TimeUnit.milliseconds]
  exact hinj _ _ ((isDisplaySize_displayUnit (h.pos.trans_le h.le)).unique h)

/-- That size belongs to a unit. -/
lemma IsDisplaySize.exists_unit (h : IsDisplaySize n u) :
    ∃ unit : TimeUnit, unit.milliseconds = u :=
  ⟨displayUnit n, (isDisplaySize_displayUnit (h.pos.trans_le h.le)).unique h⟩

/-- The text in which milliseconds are displayed. -/
lemma display_eq_ok {unit : TimeUnit} (h : IsDisplaySize n unit.milliseconds)
    (hdigits : (Nat.toDigits 10 (n / unit.milliseconds)).length ≤ numeralLimit) :
    display n =
      .ok (String.ofList (Nat.toDigits 10 (n / unit.milliseconds) ++ unit.letters)) := by
  have hwritable : isWritable ((n / unit.milliseconds : Nat) : Int) = true := by
    rwa [isWritable_iff, Int.natAbs_natCast]
  have htext : toString ((n / unit.milliseconds : Nat) : Int) =
      String.ofList (Nat.toDigits 10 (n / unit.milliseconds)) := by
    rw [← String.toList_inj, Json.toList_toString, if_neg (Int.not_lt.2 (Int.natCast_nonneg _)),
      String.toList_ofList, Int.natAbs_natCast]
  rw [display, displayUnit_eq h, ← Int.natCast_ediv, writeNumeral_eq_ok_iff.2 ⟨hwritable, rfl⟩,
    htext, String.ofList_append]
  rfl

/-- What is displayed is read back as so many whole units. -/
lemma read_displayed {unit : TimeUnit} {k : Nat} (hk : 0 < k)
    (hdigits : (Nat.toDigits 10 k).length ≤ numeralLimit) :
    read (Nat.toDigits 10 k ++ unit.letters) = .ok (k * unit.milliseconds) := by
  have hwrites : Writes [⟨Nat.toDigits 10 k, unit⟩] (Nat.toDigits 10 k ++ unit.letters) :=
    writes_singleton Nat.toDigits_ne_nil (fun _ => isDigit_of_mem_toDigits) unit
  have hsum : sum [⟨Nat.toDigits 10 k, unit⟩] = k * unit.milliseconds := by
    rw [sum, sum, digitsValue_toDigits, Nat.add_zero]
  have hpos : 0 < k * unit.milliseconds := Nat.mul_pos hk unit.milliseconds_pos
  rw [read_of_writes hwrites (by simpa using hdigits), span_of_sum_ne_zero (by omega), hsum]

/-- What is displayed is read back as the milliseconds, rounded down to the largest unit they reach,
and the milliseconds rounded down are displayed in the same way. -/
lemma exists_display (h : IsDisplaySize n u)
    (hdigits : (Nat.toDigits 10 (n / u)).length ≤ numeralLimit) :
    ∃ a, display n = .ok a ∧ read a.toList = .ok (n / u * u) ∧
      display ((n / u * u : Nat) : Int) = .ok a := by
  obtain ⟨unit, rfl⟩ := h.exists_unit
  have hagain : n / unit.milliseconds * unit.milliseconds / unit.milliseconds =
    n / unit.milliseconds :=
    Nat.mul_div_cancel _ h.pos
  refine ⟨_, display_eq_ok h hdigits, ?_, ?_⟩
  · rw [String.toList_ofList]
    exact read_displayed (Nat.div_pos h.le h.pos) hdigits
  · rw [display_eq_ok h.div_mul (hagain.symm ▸ hdigits), hagain]

/-- Display and reading together round milliseconds down to the largest unit that they reach: the
result is not zero, at most the milliseconds themselves and less than a unit below them, it is
displayed like them, and the order of durations is kept. -/
theorem display_rounds_down (hn : 1 ≤ n) (hle : n ≤ m) :
    ∃ u v, IsDisplaySize n u ∧ IsDisplaySize m v ∧
      ((Nat.toDigits 10 (n / u)).length ≤ numeralLimit →
        (Nat.toDigits 10 (m / v)).length ≤ numeralLimit →
        ∃ a b y, display n = .ok a ∧ display m = .ok b ∧
          read a.toList = .ok (n - n % u) ∧ n - n % u ≠ 0 ∧ n - n % u ≤ n ∧ n - (n - n % u) < u ∧
          display ((n - n % u : Nat) : Int) = .ok a ∧
          read b.toList = .ok y ∧ n - n % u ≤ y) := by
  obtain ⟨u, hu⟩ : ∃ u, IsDisplaySize n u := ⟨_, isDisplaySize_displayUnit hn⟩
  obtain ⟨v, hv⟩ : ∃ v, IsDisplaySize m v := ⟨_, isDisplaySize_displayUnit (hn.trans hle)⟩
  refine ⟨u, v, hu, hv, fun hdigits hdigits' => ?_⟩
  obtain ⟨a, hdisplay, hread, hagain⟩ := exists_display hu hdigits
  obtain ⟨b, hdisplay', hread', -⟩ := exists_display hv hdigits'
  have hfloor : n / u * u = n - n % u := Nat.div_mul_self_eq_mod_sub_self
  -- What is left of `n` is at least one of its units, and no more than what is left of `m`.
  have hreach := hu.le_div_mul
  have hkept := hu.div_mul_le hv hle
  rw [hfloor] at hread hagain hreach hkept
  refine ⟨a, b, m / v * v, hdisplay, hdisplay', hread, ?_, Nat.sub_le n _, ?_, hagain, hread',
    hkept⟩
  · exact Nat.ne_of_gt (hu.pos.trans_le hreach)
  · rw [Nat.sub_sub_self (Nat.mod_le n u)]
    exact Nat.mod_lt n hu.pos

/-- A millisecond below an hour and one behind it. -/
theorem display_rounds_down_around_an_hour :
    ∃ a b y, display 3599999 = .ok a ∧ display 3600001 = .ok b ∧ read a.toList = .ok 3540000 ∧
      display 3540000 = .ok a ∧ read b.toList = .ok y ∧ 3540000 ≤ y := by
  obtain ⟨u, v, hu, hv, h⟩ := display_rounds_down (n := 3599999) (m := 3600001) (by decide)
    (by decide)
  obtain rfl : u = 60000 := hu.unique (isDisplaySize_displayUnit (by decide))
  obtain rfl : v = 3600000 := hv.unique (isDisplaySize_displayUnit (by decide))
  obtain ⟨a, b, y, hdisplay, hdisplay', hread, -, -, -, hagain, hread', hkept⟩ :=
    h (by decide) (by decide)
  exact ⟨a, b, y, hdisplay, hdisplay', hread, hagain, hread', hkept⟩

end Duration

end PromqlGuide
