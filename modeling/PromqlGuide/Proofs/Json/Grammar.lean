import PromqlGuide.Proofs.Json.Numerals
import PromqlGuide.Proofs.Json.Strings

/-!
# Strings and numbers at the start of a text

What a string or a number leaves of a text, as relations between the text and what follows. The
parts of a number are as long as possible, so at most one number stands at the start of a text.

Main statements: what the reader leaves of a text follows a string (`Json.isOutcome_readString`)
or a number (`Json.isOutcome_readNumber`), the numerals that it refuses are whole numbers with too
many digits, and it reads and refuses all of these (`Json.StringEnds.behind_readString`,
`Json.NumberParts.behind_readNumber`).
-/
namespace PromqlGuide.Json

open Text

/-! ### What follows -/

/-- What follows a value that was read, or the fault. -/
def behind {α : Type} (r : Read α) : Except Fault (List Char) := r.map Prod.snd

section Behind

variable {α β : Type}

/-- Behind a value that was read is the rest of the text. -/
@[simp] lemma behind_ok (found : α × List Char) : behind (.ok found) = .ok found.2 := rfl

/-- A fault leaves nothing behind. -/
@[simp] lemma behind_error (f : Fault) : behind (.error f : Read α) = .error f := rfl

/-- There is a rest exactly if a value was read in front of it. -/
lemma behind_eq_ok_iff {r : Read α} {rest : List Char} :
    behind r = .ok rest ↔ ∃ a, r = .ok (a, rest) := by
  rcases r with f | ⟨a, cs⟩ <;> simp

/-- The fault is the one that was met in reading the value. -/
lemma behind_eq_error_iff {r : Read α} {f : Fault} : behind r = .error f ↔ r = .error f := by
  rcases r with g | ⟨a, cs⟩ <;> simp

/-- What is made of the value changes nothing about what follows. -/
lemma behind_map (r : Read α) (make : α → β) :
    behind (r.map fun found => (make found.1, found.2)) = behind r := by
  rcases r with f | ⟨a, cs⟩ <;> rfl

end Behind

/-! ### Outcomes -/

/-- What was read is accounted for: either what follows is as it should be, or the text is
malformed, or the fault is one that should be met. -/
def IsOutcome (ends : List Char → Prop) (meets : Fault → Prop) : Except Fault (List Char) → Prop
  | .ok rest => ends rest
  | .error f => f = .malformed ∨ meets f

section IsOutcome

variable {ends ends' : List Char → Prop} {meets meets' : Fault → Prop}
  {r : Except Fault (List Char)}

/-- A malformed text is always accounted for. -/
lemma IsOutcome.malformed : IsOutcome ends meets (.error .malformed) := .inl rfl

/-- An outcome is accounted for by weaker conditions. -/
lemma IsOutcome.imp (h : IsOutcome ends meets r) (hends : ∀ rest, ends rest → ends' rest)
    (hmeets : ∀ f, meets f → meets' f) : IsOutcome ends' meets' r := by
  cases r with
  | ok rest => exact hends rest h
  | error f => exact h.imp_right (hmeets f)

/-- Two steps are accounted for if each is. -/
lemma IsOutcome.bind {k : List Char → Except Fault (List Char)} (h : IsOutcome ends meets r)
    (hends : ∀ rest, ends rest → IsOutcome ends' meets' (k rest))
    (hmeets : ∀ f, meets f → meets' f) : IsOutcome ends' meets' (r.bind k) := by
  cases r with
  | ok rest => exact hends rest h
  | error f => exact h.imp_right (hmeets f)

end IsOutcome

/-! ### Strings -/

/-- `rest` follows the string whose opening quote stands in front of the text. -/
inductive StringEnds : List Char → List Char → Prop where
  | close (rest : List Char) : StringEnds ('"' :: rest) rest
  | plain {c : Char} {cs rest : List Char} (hquote : c ≠ '"') (hslash : c ≠ '\\')
      (hc : 0x20 ≤ c.toNat) (h : StringEnds cs rest) : StringEnds (c :: cs) rest
  | escape {e c : Char} {cs rest : List Char} (he : simpleEscape? e = some c)
      (h : StringEnds cs rest) : StringEnds ('\\' :: e :: cs) rest
  | unit {a b c d : Char} {n : Nat} {cs rest : List Char} (hunit : hexUnit? a b c d = some n)
      (h : StringEnds cs rest) : StringEnds ('\\' :: 'u' :: a :: b :: c :: d :: cs) rest

/-- A character in front of a string does not change what follows the string. -/
@[simp] lemma behind_consPoint (p : CodePoint) (r : Read (List CodePoint)) :
    behind (consPoint p r) = behind r := behind_map r (p :: ·)

/-- A half that stands alone in front of a string does not change what follows the string. -/
@[simp] lemma behind_consHalf (half : Option Nat) (r : Read (List CodePoint)) :
    behind (consHalf half r) = behind r := by
  cases half with
  | none => rfl
  | some high => exact behind_consPoint (.half high) r

/-- Less text follows a string. -/
lemma StringEnds.length_lt {cs rest : List Char} (h : StringEnds cs rest) :
    rest.length < cs.length := by
  induction h with
  | close | plain | escape | unit => simp only [List.length_cons]; omega

/-- Behind an escape of four digits the string goes on, whether or not it names a half. -/
lemma behind_readString_unit {half : Option Nat} {a b c d : Char} {n : Nat} {cs rest : List Char}
    (hunit : hexUnit? a b c d = some n)
    (hcs : ∀ half, behind (readString half cs) = .ok rest) :
    behind (readString half ('\\' :: 'u' :: a :: b :: c :: d :: cs)) = .ok rest := by
  rw [readString, hunit]
  cases half <;> simp only <;> split_ifs <;> simp [hcs]

/-- The reader gets behind a string. -/
lemma StringEnds.behind_readString {cs rest : List Char} (h : StringEnds cs rest)
    (half : Option Nat) : behind (readString half cs) = .ok rest := by
  induction h generalizing half with
  | close rest => simp [readString]
  | plain hquote hslash hc h ih =>
    rw [readString_plain hquote hslash hc, behind_consHalf, behind_consPoint, ih]
  | escape he h ih => rw [readString_simple he, behind_consHalf, behind_consPoint, ih]
  | unit hunit h ih => exact behind_readString_unit hunit ih

/-- A string that is read is one, and a text without one is malformed. -/
lemma isOutcome_readString (half : Option Nat) (cs : List Char) :
    IsOutcome (StringEnds cs) (fun _ => False) (behind (readString half cs)) := by
  fun_induction readString half cs with
  | case1 => exact .malformed
  | case2 half rest =>
    rw [behind_consHalf]
    exact StringEnds.close rest
  | case3 => exact .malformed
  | case4 a b c d cs n hunit _ _ ih =>
    rw [behind_consPoint]
    exact ih.imp (fun _ h => .unit hunit h) fun _ h => h
  | case5 a b c d cs n hunit _ _ _ ih =>
    rw [behind_consPoint]
    exact ih.imp (fun _ h => .unit hunit h) fun _ h => h
  | case6 a b c d cs n hunit _ _ _ ih =>
    rw [behind_consPoint, behind_consPoint]
    exact ih.imp (fun _ h => .unit hunit h) fun _ h => h
  | case7 a b c d cs n hunit _ ih => exact ih.imp (fun _ h => .unit hunit h) fun _ h => h
  | case8 a b c d cs n hunit _ ih =>
    rw [behind_consPoint]
    exact ih.imp (fun _ h => .unit hunit h) fun _ h => h
  | case9 => exact .malformed
  | case10 half e cs _ c he ih =>
    rw [behind_consHalf, behind_consPoint]
    exact ih.imp (fun _ h => .escape he h) fun _ h => h
  | case11 => exact .malformed
  | case12 half c cs hquote _ _ hc ih =>
    rw [behind_consHalf, behind_consPoint]
    rw [not_or, Nat.not_lt] at hc
    exact ih.imp (fun _ h => .plain hquote hc.1 hc.2 h) fun _ h => h

/-! ### Digits -/

/-- The reader takes all digits at the start of a text. -/
lemma digitRun_eq_iff {cs digits rest : List Char} :
    digitRun cs = (digits, rest) ↔ (∀ c ∈ digits, c.isDigit = true) ∧
      endsBefore Char.isDigit rest = true ∧ cs = digits ++ rest := by
  constructor
  · intro hrun
    rw [digitRun, Prod.mk.injEq] at hrun
    obtain ⟨rfl, rfl⟩ := hrun
    refine ⟨List.all_eq_true.1 List.all_takeWhile, ?_, List.takeWhile_append_dropWhile.symm⟩
    cases hbehind : cs.dropWhile Char.isDigit with
    | nil => rfl
    | cons c more =>
      have := List.head_dropWhile_not Char.isDigit (l := cs) (by simp [hbehind])
      simpa [endsBefore, hbehind] using this
  · rintro ⟨hdigits, hrest, rfl⟩
    exact digitRun_append hdigits hrest

/-- `rest` follows the digits at the start of the text, of which there is at least one. -/
def DigitsEnd (cs rest : List Char) : Prop :=
  ∃ digits, digits ≠ [] ∧ (∀ c ∈ digits, c.isDigit = true) ∧
    endsBefore Char.isDigit rest = true ∧ cs = digits ++ rest

/-- Digits end where no further digit follows, behind at least one. -/
lemma digitsEnd_iff {cs rest : List Char} :
    DigitsEnd cs rest ↔ (digitRun cs).1.isEmpty = false ∧ (digitRun cs).2 = rest := by
  simp only [DigitsEnd, ← digitRun_eq_iff, List.isEmpty_eq_false_iff]
  constructor
  · rintro ⟨digits, hne, hrun⟩
    rw [hrun]
    exact ⟨hne, rfl⟩
  · rintro ⟨hne, rfl⟩
    exact ⟨_, hne, rfl⟩

/-- Less text follows digits. -/
lemma DigitsEnd.length_lt {cs rest : List Char} (h : DigitsEnd cs rest) :
    rest.length < cs.length := by
  obtain ⟨digits, hne, -, -, rfl⟩ := h
  have hpos := List.length_pos_iff.2 hne
  rw [List.length_append]
  omega

/-! ### The parts of a number -/

/-- `rest` follows the whole number at the start of the text, which has so many digits: a zero, or
digits of which the first is no zero. -/
inductive WholeEnds : Nat → List Char → List Char → Prop where
  | zero (rest : List Char) : WholeEnds 1 ('0' :: rest) rest
  | run {c : Char} {more rest : List Char} (hc : c ≠ '0')
      (hdigits : ∀ d ∈ c :: more, d.isDigit = true) (hrest : endsBefore Char.isDigit rest = true) :
      WholeEnds (more.length + 1) (c :: more ++ rest) rest

/-- `rest` follows a point and the digits behind it. -/
inductive FractionEnds : List Char → List Char → Prop where
  | mk {cs rest : List Char} (h : DigitsEnd cs rest) : FractionEnds ('.' :: cs) rest

/-- The text behind the sign at its start, if there is one. -/
def signless : List Char → List Char
  | '-' :: cs => cs
  | '+' :: cs => cs
  | cs => cs

/-- `rest` follows an exponent. -/
inductive ExponentEnds : List Char → List Char → Prop where
  | mk {e : Char} {cs rest : List Char} (he : e = 'e' ∨ e = 'E')
      (h : DigitsEnd (signless cs) rest) : ExponentEnds (e :: cs) rest

/-- `rest` follows a part that may be left out; it is not left out where it stands. -/
def OptionallyEnds (ends : List Char → List Char → Prop) (cs rest : List Char) : Prop :=
  ends cs rest ∨ rest = cs ∧ ∀ other, ¬ends cs other

/-- The number without sign at the start of a text: `after` follows the whole number, which has
so many digits, and `rest` follows all of it. -/
structure UnsignedParts (n : Nat) (cs after rest : List Char) : Prop where
  whole : WholeEnds n cs after
  tail : ∃ middle, OptionallyEnds FractionEnds after middle ∧
    OptionallyEnds ExponentEnds middle rest

/-- A value that is made of digits is read exactly if there are some. -/
lemma exists_of_digits_iff {α : Type} {v : α} {cs rest : List Char} :
    (∃ a, (if (digitRun cs).1.isEmpty = true then none else some (v, (digitRun cs).2)) =
      some (a, rest)) ↔ DigitsEnd cs rest := by
  rw [digitsEnd_iff]
  cases (digitRun cs).1.isEmpty <;> simp

/-- Less text follows a fraction. -/
lemma FractionEnds.length_lt {cs rest : List Char} (h : FractionEnds cs rest) :
    rest.length < cs.length := by
  obtain ⟨h⟩ := h
  exact Nat.lt_succ_of_lt h.length_lt

/-- A sign may only be taken away. -/
lemma signless_length_le (cs : List Char) : (signless cs).length ≤ cs.length := by
  fun_cases signless cs <;> simp

/-- Less text follows an exponent. -/
lemma ExponentEnds.length_lt {cs rest : List Char} (h : ExponentEnds cs rest) :
    rest.length < cs.length := by
  obtain ⟨-, h⟩ := h
  exact Nat.lt_succ_of_lt (Nat.lt_of_lt_of_le h.length_lt (signless_length_le _))

/-- A fraction is read exactly if there is one. -/
lemma readFraction_eq_some_iff {cs rest : List Char} :
    (∃ digits, readFraction cs = some (digits, rest)) ↔ FractionEnds cs rest := by
  constructor
  · rintro ⟨digits, h⟩
    unfold readFraction at h
    split at h
    · exact .mk (exists_of_digits_iff.1 ⟨digits, h⟩)
    · cases h
  · rintro ⟨h⟩
    exact exists_of_digits_iff.2 h

/-- An exponent is read exactly if digits follow its letter and its sign. -/
lemma readExponent_cons {e : Char} (he : e = 'e' ∨ e = 'E') {cs rest : List Char} :
    (∃ shift, readExponent (e :: cs) = some (shift, rest)) ↔ DigitsEnd (signless cs) rest := by
  obtain ⟨v, hv⟩ : ∃ v : Int, readExponent (e :: cs) =
      if (digitRun (signless cs)).1.isEmpty = true then none
      else some (v, (digitRun (signless cs)).2) := by
    unfold readExponent
    simp only [if_pos he]
    fun_cases signless cs with
    | case1 | case2 => exact ⟨_, rfl⟩
    | case3 _ hminus hplus =>
      split
      · exact (hminus _ rfl).elim
      · exact (hplus _ rfl).elim
      · exact ⟨_, rfl⟩
  rw [hv]
  exact exists_of_digits_iff

/-- An exponent is read exactly if there is one. -/
lemma readExponent_eq_some_iff {cs rest : List Char} :
    (∃ shift, readExponent cs = some (shift, rest)) ↔ ExponentEnds cs rest := by
  constructor
  · rintro ⟨shift, h⟩
    cases cs with
    | nil => cases h
    | cons e cs =>
      by_cases he : e = 'e' ∨ e = 'E'
      · exact .mk he ((readExponent_cons he).1 ⟨shift, h⟩)
      · unfold readExponent at h
        simp only [if_neg he, reduceCtorEq] at h
  · rintro ⟨he, h⟩
    exact (readExponent_cons he).2 h

/-- A part is read where it stands, and nothing is read where it does not stand. -/
lemma optionallyEnds_iff {α : Type} {ends : List Char → List Char → Prop}
    {part : List Char → Option (α × List Char)}
    (hpart : ∀ cs rest, (∃ a, part cs = some (a, rest)) ↔ ends cs rest) {cs rest : List Char} :
    OptionallyEnds ends cs rest ↔
      (part cs = none ∧ rest = cs) ∨ ∃ a, part cs = some (a, rest) := by
  simp only [OptionallyEnds, ← hpart]
  rcases hread : part cs with _ | ⟨a, after⟩ <;> simp

/-- A part that may be left out has some end. -/
lemma exists_optionallyEnds (ends : List Char → List Char → Prop) (cs : List Char) :
    ∃ rest, OptionallyEnds ends cs rest := by
  by_cases h : ∃ rest, ends cs rest
  · exact h.imp fun _ h => .inl h
  · exact ⟨cs, .inr ⟨rfl, not_exists.1 h⟩⟩

/-- A digit goes on with the digits behind it. -/
lemma digitRun_cons {c : Char} (hc : c.isDigit = true) (cs : List Char) :
    digitRun (c :: cs) = (c :: (digitRun cs).1, (digitRun cs).2) := by
  simp only [digitRun, List.takeWhile_cons_of_pos hc, List.dropWhile_cons_of_pos hc]

/-- Where a digit stands, a whole number ends. -/
lemma exists_wholeEnds {c : Char} (hc : c.isDigit = true) (cs : List Char) :
    ∃ n after, WholeEnds n (c :: cs) after := by
  by_cases hzero : c = '0'
  · subst hzero
    exact ⟨1, cs, .zero cs⟩
  · obtain ⟨hmore, hrest, hcs⟩ := digitRun_eq_iff.1 (rfl : digitRun cs = _)
    rw [hcs]
    exact ⟨_, _, .run hzero (List.forall_mem_cons.2 ⟨hc, hmore⟩) hrest⟩

/-- The reader takes the digits of the whole number at the start of a text. -/
lemma WholeEnds.exists_digits {n : Nat} {cs after : List Char} (h : WholeEnds n cs after) :
    ∃ first more rest digits, digitRun cs = (first :: more, rest) ∧ digits.length = n ∧
      (if first = '0' then (['0'], more ++ rest) else (first :: more, rest)) = (digits, after) := by
  cases h with
  | zero =>
    refine ⟨_, _, _, ['0'], digitRun_cons rfl after, rfl, ?_⟩
    rw [if_pos rfl, digitRun, List.takeWhile_append_dropWhile]
  | run hc hdigits hrest =>
    exact ⟨_, _, after, _, digitRun_append hdigits hrest, rfl, if_neg hc⟩

/-- A number is read up to its end, unless it is a whole number of too many digits. -/
lemma UnsignedParts.behind_readUnsigned {n : Nat} {cs after rest : List Char}
    (h : UnsignedParts n cs after rest) (negative : Bool) :
    behind (readUnsigned readNumeral negative cs) =
      if rest = after ∧ numeralLimit < n then .error (.numeral (.reading n)) else .ok rest := by
  obtain ⟨first, more, rest', digits, hrun, rfl, hdigits⟩ := h.whole.exists_digits
  obtain ⟨middle, hfraction, hexponent⟩ := h.tail
  unfold readUnsigned
  simp only [hrun, hdigits]
  rcases (optionallyEnds_iff @readFraction_eq_some_iff).1 hfraction with
    ⟨hnone, rfl⟩ | ⟨fraction, hsome⟩
  · rcases (optionallyEnds_iff @readExponent_eq_some_iff).1 hexponent with
      ⟨hnone', rfl⟩ | ⟨shift, hsome'⟩
    · -- the number is whole
      simp only [hnone, hnone', Option.getD_none, Option.isNone_none, Bool.and_self, if_true,
        true_and, readNumeral]
      by_cases hlimit : digits.length ≤ numeralLimit
      · simp [hlimit, Nat.not_lt.2 hlimit]
      · simp [hlimit, Nat.lt_of_not_le hlimit]
    · have hshorter := (readExponent_eq_some_iff.1 ⟨shift, hsome'⟩).length_lt
      have hne : rest ≠ middle := by
        rintro rfl
        omega
      simp [hnone, hsome', hne]
  · have hmiddle := (readFraction_eq_some_iff.1 ⟨fraction, hsome⟩).length_lt
    rcases (optionallyEnds_iff @readExponent_eq_some_iff).1 hexponent with
      ⟨hnone', rfl⟩ | ⟨shift, hsome'⟩
    · have hne : rest ≠ after := by
        rintro rfl
        omega
      simp [hsome, hnone', hne]
    · have hshorter := (readExponent_eq_some_iff.1 ⟨shift, hsome'⟩).length_lt
      have hne : rest ≠ after := by
        rintro rfl
        omega
      simp [hsome, hsome', hne]

/-! ### Numbers -/

/-- The number at the start of a text, which may have a minus sign. -/
inductive NumberParts (n : Nat) : List Char → List Char → List Char → Prop where
  | positive {cs after rest : List Char} (h : UnsignedParts n cs after rest) :
      NumberParts n cs after rest
  | negative {cs after rest : List Char} (h : UnsignedParts n cs after rest) :
      NumberParts n ('-' :: cs) after rest

/-- `rest` follows the number at the start of the text; a whole number is within the limit. -/
def NumberEnds (cs rest : List Char) : Prop :=
  ∃ n after, NumberParts n cs after rest ∧ (rest = after → n ≤ numeralLimit)

/-- A whole number of so many digits stands at the start of the text, which is too many. -/
def LongNumber (n : Nat) (cs : List Char) : Prop :=
  ∃ after, NumberParts n cs after after ∧ numeralLimit < n

/-- Ones beyond the limit are a number that is too long. -/
lemma longNumber_ones {n : Nat} (hn : numeralLimit < n + 1) :
    LongNumber (n + 1) (List.replicate (n + 1) '1') := by
  have hdigits : ∀ d ∈ '1' :: List.replicate n '1', d.isDigit = true := by
    intro d hd
    rw [← List.replicate_succ] at hd
    rw [List.eq_of_mem_replicate hd]
    rfl
  have hwhole : WholeEnds _ ('1' :: List.replicate n '1' ++ []) [] := .run (by decide) hdigits rfl
  rw [List.length_replicate, List.append_nil] at hwhole
  exact ⟨[], .positive ⟨hwhole, [], .inr ⟨rfl, nofun⟩, .inr ⟨rfl, nofun⟩⟩, hn⟩

/-- A whole number starts with a digit. -/
lemma WholeEnds.head {n : Nat} {cs after : List Char} (h : WholeEnds n cs after) :
    ∃ c more, cs = c :: more ∧ c.isDigit = true := by
  cases h with
  | zero => exact ⟨_, _, rfl, rfl⟩
  | run hc hdigits => exact ⟨_, _, rfl, hdigits _ List.mem_cons_self⟩

/-- A number is read up to its end, unless it is a whole number of too many digits. -/
lemma NumberParts.behind_readNumber {n : Nat} {cs after rest : List Char}
    (h : NumberParts n cs after rest) :
    behind (readNumber readNumeral cs) =
      if rest = after ∧ numeralLimit < n then .error (.numeral (.reading n)) else .ok rest := by
  cases h with
  | positive h =>
    obtain ⟨c, more, rfl, hc⟩ := h.whole.head
    rw [readNumber]
    · exact h.behind_readUnsigned false
    · rintro _ ⟨rfl, -⟩
      cases hc
  | negative h => exact h.behind_readUnsigned true

/-- At the start of a text is a number, or the reader of numbers refuses the text as malformed. -/
lemma unsignedParts_or (cs : List Char) :
    (∃ n after rest, UnsignedParts n cs after rest) ∨
      ∀ negative, readUnsigned readNumeral negative cs = .error .malformed := by
  cases cs with
  | nil => exact .inr fun _ => rfl
  | cons c cs =>
    by_cases hc : c.isDigit = true
    · obtain ⟨n, after, hwhole⟩ := exists_wholeEnds hc cs
      obtain ⟨middle, hfraction⟩ := exists_optionallyEnds FractionEnds after
      obtain ⟨rest, hexponent⟩ := exists_optionallyEnds ExponentEnds middle
      exact .inl ⟨n, after, rest, hwhole, middle, hfraction, hexponent⟩
    · refine .inr fun negative => ?_
      unfold readUnsigned
      simp [digitRun, hc]

/-- Where no number stands the text is malformed. -/
lemma numberParts_or (cs : List Char) :
    (∃ n after rest, NumberParts n cs after rest) ∨
      readNumber readNumeral cs = .error .malformed := by
  unfold readNumber
  split
  · next rest =>
    rcases unsignedParts_or rest with ⟨n, after, end', h⟩ | h
    · exact .inl ⟨n, after, end', .negative h⟩
    · exact .inr (h true)
  · rcases unsignedParts_or cs with ⟨n, after, end', h⟩ | h
    · exact .inl ⟨n, after, end', .positive h⟩
    · exact .inr (h false)

/-- A number that is read is one, and a numeral that is refused is too long. -/
lemma isOutcome_readNumber (cs : List Char) :
    IsOutcome (NumberEnds cs) (fun f => ∃ n, f = .numeral (.reading n) ∧ LongNumber n cs)
      (behind (readNumber readNumeral cs)) := by
  rcases numberParts_or cs with ⟨n, after, rest, h⟩ | h
  · rw [h.behind_readNumber]
    split_ifs with hlong
    · obtain ⟨rfl, hn⟩ := hlong
      exact .inr ⟨n, rfl, rest, h, hn⟩
    · exact ⟨n, after, h, fun hafter => Nat.le_of_not_lt fun hn => hlong ⟨hafter, hn⟩⟩
  · rw [h]
    exact .malformed

/-- A number within the limit is read up to its end. -/
lemma NumberEnds.behind_readNumber {cs rest : List Char} (h : NumberEnds cs rest) :
    behind (readNumber readNumeral cs) = .ok rest := by
  obtain ⟨n, after, hparts, hn⟩ := h
  rw [hparts.behind_readNumber, if_neg fun hlong => Nat.not_lt.2 (hn hlong.1) hlong.2]

/-- A whole number with too many digits is refused. -/
lemma LongNumber.behind_readNumber {n : Nat} {cs : List Char} (h : LongNumber n cs) :
    behind (readNumber readNumeral cs) = .error (.numeral (.reading n)) := by
  obtain ⟨after, hparts, hn⟩ := h
  rw [hparts.behind_readNumber, if_pos ⟨rfl, hn⟩]

/-- A number starts with a digit, or with a minus sign and a digit. -/
lemma NumberParts.head {n : Nat} {cs after rest : List Char} (h : NumberParts n cs after rest) :
    ∃ c more, c.isDigit = true ∧ (cs = c :: more ∨ cs = '-' :: c :: more) := by
  cases h with
  | positive h =>
    obtain ⟨c, more, rfl, hc⟩ := h.whole.head
    exact ⟨c, more, hc, .inl rfl⟩
  | negative h =>
    obtain ⟨c, more, rfl, hc⟩ := h.whole.head
    exact ⟨c, more, hc, .inr rfl⟩

/-- Less text follows a whole number. -/
lemma WholeEnds.length_lt {n : Nat} {cs after : List Char} (h : WholeEnds n cs after) :
    after.length < cs.length := by
  cases h with
  | zero => exact Nat.lt_succ_self _
  | run =>
    rw [List.length_append, List.length_cons]
    omega

/-- Less text follows a number without sign. -/
lemma UnsignedParts.length_lt {n : Nat} {cs after rest : List Char}
    (h : UnsignedParts n cs after rest) : rest.length < cs.length := by
  have hwhole := h.whole.length_lt
  obtain ⟨middle, hfraction, hexponent⟩ := h.tail
  have hmiddle : middle.length ≤ after.length := by
    rcases hfraction with hfraction | ⟨rfl, -⟩
    · exact Nat.le_of_lt hfraction.length_lt
    · exact Nat.le_refl _
  have hrest : rest.length ≤ middle.length := by
    rcases hexponent with hexponent | ⟨rfl, -⟩
    · exact Nat.le_of_lt hexponent.length_lt
    · exact Nat.le_refl _
  omega

/-- Less text follows a number. -/
lemma NumberEnds.length_lt {cs rest : List Char} (h : NumberEnds cs rest) :
    rest.length < cs.length := by
  obtain ⟨n, after, hparts, -⟩ := h
  cases hparts with
  | positive h => exact h.length_lt
  | negative h => exact Nat.lt_succ_of_lt h.length_lt

end PromqlGuide.Json
