import PromqlGuide.Text.Numeral
import PromqlGuide.Text.LetterCase

/-!
Durations such as `5m30s`: a sequence of parts, each a run of decimal digits and a unit. A duration
is kept as a number of milliseconds.

Main statement: the milliseconds of a duration are the sum of its parts
(`Duration.total_eq_ok_iff`).
-/
namespace PromqlGuide

/-- The units of time a duration may be written in. -/
inductive TimeUnit where
  | millisecond | second | minute | hour | day | week | year
  deriving Repr, DecidableEq

namespace TimeUnit

/-- How many milliseconds one unit lasts. -/
def milliseconds : TimeUnit → Nat
  | millisecond => 1
  | second => 1000
  | minute => 60 * 1000
  | hour => 60 * 60 * 1000
  | day => 24 * 60 * 60 * 1000
  | week => 7 * 24 * 60 * 60 * 1000
  | year => 365 * 24 * 60 * 60 * 1000

/-- The letters that stand for a unit. -/
def letters : TimeUnit → List Char
  | millisecond => ['m', 's']
  | second => ['s']
  | minute => ['m']
  | hour => ['h']
  | day => ['d']
  | week => ['w']
  | year => ['y']

/-- The unit that a text starts with; two letters win over one. -/
def first? : List Char → Option TimeUnit
  | 'm' :: 's' :: _ => some millisecond
  | 's' :: _ => some second
  | 'm' :: _ => some minute
  | 'h' :: _ => some hour
  | 'd' :: _ => some day
  | 'w' :: _ => some week
  | 'y' :: _ => some year
  | _ => none

/-- Every unit lasts at least a millisecond. -/
theorem milliseconds_pos (u : TimeUnit) : 0 < u.milliseconds := by cases u <;> decide

/-- A unit's letters are read as the unit, unless they are one `m` and an `s` follows. -/
theorem first?_letters (u : TimeUnit) (rest : List Char)
    (h : u = minute → rest.head? ≠ some 's') : first? (u.letters ++ rest) = some u := by
  cases u <;> try rfl
  cases rest with
  | nil => rfl
  | cons c cs =>
    have hc : c ≠ 's' := by simpa using h rfl
    simp only [letters, List.cons_append, List.nil_append]
    unfold first?
    split <;> simp_all

end TimeUnit

/-- One part of a duration: digits as written, and their unit. -/
structure DurationPart where
  digits : List Char
  unit : TimeUnit
  deriving Repr, DecidableEq

/-- The text of a part. -/
def DurationPart.text (p : DurationPart) : List Char := p.digits ++ p.unit.letters

namespace Duration

open Text

/-- The parts found in a text, in order. `run` holds the digits of the run being read, last digit
first; a run that no unit follows is dropped, as is everything else that belongs to no part. -/
def partsFrom : List Char → List Char → List DurationPart
  | _, [] => []
  | run, c :: rest =>
    if isDigit c then partsFrom (c :: run) rest
    else if run.isEmpty then partsFrom [] rest
    else
      match TimeUnit.first? (c :: rest) with
      | none => partsFrom [] rest
      | some unit => ⟨run.reverse, unit⟩ :: partsFrom [] rest

/-- The parts found in a text, in order; anything else in it is ignored. -/
def parts (cs : List Char) : List DurationPart := partsFrom [] cs

/-- The milliseconds of all parts together. -/
def total : List DurationPart → Except NumeralTooLong Nat
  | [] => .ok 0
  | p :: ps => do
    let amount ← readNumeral p.digits
    let others ← total ps
    .ok (amount * p.unit.milliseconds + others)

/-- What a duration lasts when its text names no time: five minutes. -/
def fallback : Nat := 300000

/-- The milliseconds of a duration text: the sum of its parts, or five minutes if that is zero. -/
def read (cs : List Char) : Except NumeralTooLong Nat :=
  (total (parts cs)).map fun ms => if ms = 0 then fallback else ms

/-- What the parts last together, however long their digits are. -/
def sum : List DurationPart → Nat
  | [] => 0
  | p :: ps => digitsValue p.digits * p.unit.milliseconds + sum ps

/-- The total is the sum of the parts, if all their numbers can be read. -/
theorem total_eq_ok_iff {ps : List DurationPart} {n : Nat} :
    total ps = .ok n ↔ (∀ p ∈ ps, p.digits.length ≤ numeralLimit) ∧ n = sum ps := by
  induction ps generalizing n with
  | nil => simp [total, sum, eq_comm]
  | cons p ps ih =>
    constructor
    · intro h
      simp only [total] at h
      cases hr : readNumeral p.digits with
      | error e => simp [hr, bind, Except.bind] at h
      | ok amount =>
        cases ht : total ps with
        | error e => simp [hr, ht, bind, Except.bind] at h
        | ok others =>
          simp only [hr, ht, bind, Except.bind, Except.ok.injEq] at h
          have hp := readNumeral_eq_ok_iff.1 hr
          have hs := ih.1 ht
          refine ⟨fun q hq => ?_, by rw [← h, hp.2, hs.2, sum]⟩
          rcases List.mem_cons.1 hq with rfl | hq
          · exact hp.1
          · exact hs.1 q hq
    · rintro ⟨h, rfl⟩
      have hr := readNumeral_eq_ok_iff.2 ⟨h p List.mem_cons_self, rfl⟩
      have ht := ih.2 ⟨fun q hq => h q (List.mem_cons_of_mem _ hq), rfl⟩
      simp only [total, hr, ht, bind, Except.bind, sum]

/-- The units a duration is displayed in, largest first. -/
def displayUnits : List TimeUnit := [.day, .hour, .minute, .second]

/-- The largest display unit that the milliseconds reach; below a second, milliseconds. -/
def displayUnit (ms : Int) : TimeUnit :=
  (displayUnits.find? fun u => decide ((u.milliseconds : Int) ≤ ms)).getD .millisecond

/-- A duration in the largest unit it reaches, with the remainder cut off; negative durations are
written in milliseconds. -/
def display (ms : Int) : Except NumeralTooLong String :=
  let unit := displayUnit ms
  (writeNumeral (ms / unit.milliseconds)).map (· ++ String.ofList unit.letters)

/-! ### Duration tokens

A duration token is one part after another, with nothing between and no name character behind. -/

/-- Length of the parts at the start of a text, up to the last part after which the token may end;
`inRun` says that digits of the next part have been read. -/
def tokenRun : Bool → List Char → Option Nat
  | _, [] => none
  -- no part starts with `s`, so `m` alone would lead nowhere
  | inRun, 'm' :: 's' :: rest =>
    if inRun then (endOr rest (tokenRun false rest)).map (· + 2) else none
  | inRun, c :: rest =>
    if isDigit c then (tokenRun true rest).map (· + 1)
    else if inRun && (TimeUnit.first? [c]).isSome then
      (endOr rest (tokenRun false rest)).map (· + 1)
    else none
where
  /-- The further parts if there are any, else nothing more if the token may end here. -/
  endOr (rest : List Char) : Option Nat → Option Nat
    | some n => some n
    | none => if endsBefore isNamePart rest then some 0 else none

/-- Length of the duration token at the start of a text. -/
def tokenLength? (cs : List Char) : Option Nat := tokenRun false cs

end Duration

end PromqlGuide
