import Mathlib.Data.Option.Basic
import PromqlGuide.Proofs.Grammar.Run

/-!
# Readings side by side

Two readings by one form start at different cursors, perhaps of different queries.  Where the same
tokens and marks are found, step for step, they go the same way to the end (`Rule.parallel_read`):
both read something, both fail, or both go too deep.  What holds of the cursors that they stand at,
and of the points that they do not get past, is said by two relations in *lockstep*.

A single reading is one that goes side by side with itself, so that the same argument gives what
holds of all the cursors and all the points of a reading (`Rule.keeps_read`).
-/
namespace PromqlGuide

open Text Written

variable {C : Cursor → Cursor → Prop} {S : Nat → Nat → Prop}

/-! ### Progress -/

namespace Form

variable {f : Form} {depth : Nat} {c next : Cursor} {its : List Item} {stuck : Option Stuck}

/-- A reading that is done is a run. -/
lemma exists_run_of_done (hf : f.wellMade = true)
    (h : f.read (Rule.read depth) c = .done its next stuck) :
    ∃ ps, c.rest = textAll ps ++ next.rest ∧ f.Run (Rule.read depth) (Rule.Run depth) ps next.rest ∧
      its = items c.position ps := by
  have hreads : ∀ r ps rest, Rule.Run depth r ps rest → Reads (Rule.read depth r) ps rest :=
    fun _ _ _ => Rule.reads_of_run
  have hproper : ∀ r ps rest, Rule.Run depth r ps rest → IsProperNode ps :=
    fun _ _ _ => Rule.isProperNode_of_run
  obtain ⟨position, text⟩ := c
  rcases settles hreads hproper (Rule.settles depth) hf text with
    ⟨ps, rest, rfl, hrun⟩ | hfails | hsinks
  · obtain ⟨further, hdone⟩ := reads_of_run hreads hrun position
    rw [hdone] at h
    cases h
    exact ⟨ps, rfl, hrun, rfl⟩
  · obtain ⟨further, hfailed⟩ := hfails position
    rw [hfailed] at h
    cases h
  · rw [hsinks position] at h
    cases h

/-- An advancing form leaves less to read. -/
lemma length_rest_lt_of_done (hadvances : f.advances = true) (hf : f.wellMade = true)
    (h : f.read (Rule.read depth) c = .done its next stuck) : next.rest.length < c.rest.length := by
  obtain ⟨ps, hrest, hrun, -⟩ := exists_run_of_done hf h
  have hne := textAll_ne_nil_of_run (fun _ _ _ => Rule.isProperNode_of_run) hadvances hrun
  have hpos := List.length_pos_iff.2 hne
  rw [hrest, List.length_append]
  omega

end Form

/-- A repetition that makes progress does not depend on its bound, if this is large enough. -/
lemma readMany_eq_of_lt {item : Cursor → Outcome}
    (hitem : ∀ c its next stuck, item c = .done its next stuck → next.rest.length < c.rest.length)
    {n m : Nat} {c : Cursor} (hn : c.rest.length < n) (hm : c.rest.length < m) :
    readMany item n c = readMany item m c := by
  induction n generalizing m c with
  | zero => exact absurd hn (Nat.not_lt_zero _)
  | succ n ih =>
    obtain ⟨m, rfl⟩ := Nat.exists_eq_add_one_of_ne_zero (Nat.ne_of_gt (Nat.zero_lt_of_lt hm))
    unfold readMany
    cases hread : item c with
    | done its next stuck =>
      have hless := hitem c its next stuck hread
      dsimp only
      rw [ih (by omega) (by omega : next.rest.length < m)]
    | failed stuck => rfl
    | tooDeep => rfl

/-! ### Outcomes side by side -/

/-- The merged point is not before the second one, and is one of the two. -/
lemma Stuck.mergeOption_position (a : Option Stuck) (b : Stuck) :
    b.position ≤ (mergeOption a b).position ∧ ((mergeOption a b).position = b.position ∨
      ∃ s ∈ a, (mergeOption a b).position = s.position) := by
  cases a with
  | none => exact ⟨Nat.le_refl _, Or.inl rfl⟩
  | some a =>
    rw [mergeOption, merge_position]
    refine ⟨Nat.le_max_right _ _, ?_⟩
    rcases Nat.le_total a.position b.position with hle | hle
    · exact Or.inl (Nat.max_eq_right hle)
    · exact Or.inr ⟨a, rfl, Nat.max_eq_left hle⟩

/-- Whether the positions of two points are related. -/
def Stuck.Beside (S : Nat → Nat → Prop) (s s' : Stuck) : Prop := S s.position s'.position

/-- Whether two outcomes are of the same sort, at related cursors and with related points that were
not got past. -/
inductive Outcome.Parallel (C : Cursor → Cursor → Prop) (S : Nat → Nat → Prop) :
    Outcome → Outcome → Prop where
  | done {its its' : List Item} {next next' : Cursor} {stuck stuck' : Option Stuck} :
      C next next' → Option.Rel (Stuck.Beside S) stuck stuck' →
      Parallel C S (.done its next stuck) (.done its' next' stuck')
  | failed {stuck stuck' : Stuck} : stuck.Beside S stuck' →
      Parallel C S (.failed stuck) (.failed stuck')
  | tooDeep : Parallel C S .tooDeep .tooDeep

/-- Relations between the cursors and the points of two readings that are kept by reading a token or
a mark. -/
structure Lockstep (C : Cursor → Cursor → Prop) (S : Nat → Nat → Prop) : Prop where
  /-- The further of two points is related to the further of the others. -/
  max : ∀ p p' q q', S p p' → S q q' → S (max p q) (max p' q')
  /-- A cursor is a point that reading may not get past. -/
  position : ∀ c c', C c c' → S c.position c'.position
  /-- The same tokens and marks are found. -/
  length_eq : ∀ c c' (x : Lexical), C c c' → x.isUsed = true →
    x.length? c.skipBlank.rest = x.length? c'.skipBlank.rest
  /-- Behind a token or a mark the cursors are related again. -/
  advance : ∀ c c' (x : Lexical) (n : Nat), C c c' → x.isUsed = true →
    x.length? c.skipBlank.rest = some n → C (c.skipBlank.advance n) (c'.skipBlank.advance n)

namespace Lockstep

variable (h : Lockstep C S)

include h

/-- The later of two points is beside the later of two points beside them. -/
lemma mergeOption {a a' : Option Stuck} {b b' : Stuck}
    (ha : Option.Rel (Stuck.Beside S) a a') (hb : b.Beside S b') :
    (Stuck.mergeOption a b).Beside S (Stuck.mergeOption a' b') := by
  cases ha with
  | none => exact hb
  | some ha =>
    simp only [Stuck.mergeOption, Stuck.Beside, Stuck.merge_position]
    exact h.max _ _ _ _ ha hb

/-- The later of two points, if there are any, is beside the later of those beside them. -/
lemma mergeOptions {a a' b b' : Option Stuck}
    (ha : Option.Rel (Stuck.Beside S) a a')
    (hb : Option.Rel (Stuck.Beside S) b b') :
    Option.Rel (Stuck.Beside S) (Stuck.mergeOptions a b)
      (Stuck.mergeOptions a' b') := by
  cases hb with
  | none => exact ha
  | some hb => exact .some (h.mergeOption ha hb)

/-- Outcomes stay parallel behind what was read before. -/
lemma after {o o' : Outcome} {its its' : List Item} {stuck stuck' : Option Stuck}
    (hstuck : Option.Rel (Stuck.Beside S) stuck stuck')
    (ho : o.Parallel C S o') : (o.after its stuck).Parallel C S (o'.after its' stuck') := by
  cases ho with
  | done hnext hmore => exact .done hnext (h.mergeOptions hstuck hmore)
  | failed hmore => exact .failed (h.mergeOption hstuck hmore)
  | tooDeep => exact .tooDeep

/-- Outcomes stay parallel behind a failed attempt. -/
lemma afterFailure {o o' : Outcome} {stuck stuck' : Stuck}
    (hstuck : stuck.Beside S stuck') (ho : o.Parallel C S o') :
    (o.afterFailure stuck).Parallel C S (o'.afterFailure stuck') := by
  cases ho with
  | done hnext hmore => exact .done hnext (h.mergeOptions (.some hstuck) hmore)
  | failed hmore => exact .failed (h.mergeOption (.some hstuck) hmore)
  | tooDeep => exact .tooDeep

omit h in
/-- What is made of the items does not matter for whether outcomes are parallel. -/
lemma mapItems {o o' : Outcome} {g g' : List Item → List Item} (ho : o.Parallel C S o') :
    (o.mapItems g).Parallel C S (o'.mapItems g') := by
  cases ho with
  | done hnext hmore => exact .done hnext hmore
  | failed hmore => exact .failed hmore
  | tooDeep => exact .tooDeep

/-! ### Forms side by side -/

/-- Reading a lexeme at related cursors has parallel outcomes. -/
lemma readLexeme {x : Lexical} {e : Expectation} {build build' : Nat → Nat → Item}
    {c c' : Cursor} (hx : x.isUsed = true) (hc : C c c') :
    (PromqlGuide.readLexeme e x.length? build c).Parallel C S
      (PromqlGuide.readLexeme e x.length? build' c') := by
  have hlength := h.length_eq c c' x hc hx
  simp only [PromqlGuide.readLexeme, ← hlength]
  cases hfound : x.length? c.skipBlank.rest with
  | none => exact .failed (h.position c c' hc)
  | some n => exact .done (h.advance c c' x n hc hx hfound) .none

omit h in
/-- Repeating a step with parallel outcomes has parallel outcomes. -/
lemma readMany {item : Cursor → Outcome} (h : Lockstep C S)
    (hitem : ∀ c c', C c c' → (item c).Parallel C S (item c')) (n : Nat) {c c' : Cursor}
    (hc : C c c') : (PromqlGuide.readMany item n c).Parallel C S
      (PromqlGuide.readMany item n c') := by
  induction n generalizing c c' with
  | zero => exact .done hc .none
  | succ n ih =>
    unfold PromqlGuide.readMany
    have hfirst := hitem c c' hc
    generalize item c = o at hfirst ⊢
    generalize item c' = o' at hfirst ⊢
    cases hfirst with
    | done hnext hmore => exact h.after hmore (ih hnext)
    | failed hmore => exact .done hc (.some hmore)
    | tooDeep => exact .tooDeep

/-- Forms are read side by side, if rules are. -/
theorem read {depth : Nat}
    (hrules : ∀ r c c', C c c' → (Rule.read depth r c).Parallel C S (Rule.read depth r c'))
    {f : Form} (hf : f.wellMade = true) {c c' : Cursor} (hc : C c c') :
    (f.read (Rule.read depth) c).Parallel C S (f.read (Rule.read depth) c') := by
  induction f generalizing c c' with
  | token t => exact h.readLexeme (x := .token t) rfl hc
  | mark m => exact h.readLexeme (x := .mark m) hf hc
  | nothing => exact .done hc .none
  | seq f g ihf ihg =>
    obtain ⟨hf, hg⟩ := Bool.and_eq_true_iff.1 hf
    have hfirst := ihf hf hc
    simp only [Form.read]
    generalize f.read (Rule.read depth) c = o at hfirst ⊢
    generalize f.read (Rule.read depth) c' = o' at hfirst ⊢
    cases hfirst with
    | done hnext hmore => exact h.after hmore (ihg hg hnext)
    | failed hmore => exact .failed hmore
    | tooDeep => exact .tooDeep
  | choice f g ihf ihg =>
    obtain ⟨hf, hg⟩ := Bool.and_eq_true_iff.1 hf
    have hfirst := ihf hf hc
    simp only [Form.read]
    generalize f.read (Rule.read depth) c = o at hfirst ⊢
    generalize f.read (Rule.read depth) c' = o' at hfirst ⊢
    cases hfirst with
    | done hnext hmore => exact .done hnext hmore
    | failed hmore => exact h.afterFailure hmore (ihg hg hc)
    | tooDeep => exact .tooDeep
  | many f ih =>
    obtain ⟨hadvances, hf⟩ := Bool.and_eq_true_iff.1 hf
    have hprogress : ∀ c its next stuck, f.read (Rule.read depth) c = .done its next stuck →
        next.rest.length < c.rest.length := fun _ _ _ _ => Form.length_rest_lt_of_done hadvances hf
    -- The texts may differ in length, so both repetitions are given the same bound.
    simp only [Form.read]
    rw [readMany_eq_of_lt hprogress (Nat.lt_succ_self _)
        (by omega : c.rest.length < c.rest.length + c'.rest.length + 1),
      readMany_eq_of_lt hprogress (Nat.lt_succ_self _)
        (by omega : c'.rest.length < c.rest.length + c'.rest.length + 1)]
    exact readMany h (fun _ _ => ih hf) _ hc
  | phrase p body ih => exact mapItems (ih hf hc)
  | graft f g ihf ihg =>
    simp only [Form.wellMade, Bool.and_eq_true] at hf
    obtain ⟨⟨-, hf⟩, hg⟩ := hf
    have hfirst := ihf hf hc
    simp only [Form.read]
    generalize f.read (Rule.read depth) c = o at hfirst ⊢
    generalize f.read (Rule.read depth) c' = o' at hfirst ⊢
    cases hfirst with
    | @done its its' next next' _ _ hnext hmore =>
      have hsecond := ihg hg hnext
      dsimp only
      generalize g.read (Rule.read depth) next = o at hsecond ⊢
      generalize g.read (Rule.read depth) next' = o' at hsecond ⊢
      cases hsecond with
      | done hstop hlater => exact .done hstop (h.mergeOptions hmore hlater)
      | failed hlater => exact .failed (h.mergeOption hmore hlater)
      | tooDeep => exact .tooDeep
    | failed hmore => exact .failed hmore
    | tooDeep => exact .tooDeep
  | rule r => exact hrules r c c' hc

end Lockstep

/-- Rules are read side by side. -/
theorem Rule.parallel_read (h : Lockstep C S) (depth : Nat) (r : Rule) {c c' : Cursor}
    (hc : C c c') :
    (Rule.read depth r c).Parallel C S (Rule.read depth r c') := by
  induction depth generalizing r c c' with
  | zero => exact .tooDeep
  | succ depth ih => exact h.read (fun r _ _ => ih r) (wellMade_form r) hc

/-- Queries are read side by side. -/
theorem Lockstep.query (h : Lockstep C S) (depth : Nat) {c c' : Cursor} (hc : C c c') :
    ((Form.optional (.rule .expression)).read (Rule.read depth) c).Parallel C S
      ((Form.optional (.rule .expression)).read (Rule.read depth) c') :=
  h.read (fun r _ _ => Rule.parallel_read h depth r) rfl hc

/-! ### A single reading -/

variable {P : Cursor → Prop} {Q : Nat → Prop}

/-- Whether something holds of the cursor of an outcome, and something of the point that was not got
past. -/
def Outcome.Keeps (P : Cursor → Prop) (Q : Nat → Prop) : Outcome → Prop
  | done _ next stuck => P next ∧ ∀ s ∈ stuck, Q s.position
  | failed stuck => Q stuck.position
  | tooDeep => True

/-- What is kept by reading a token or a mark. -/
structure Steady (P : Cursor → Prop) (Q : Nat → Prop) : Prop where
  position : ∀ c, P c → Q c.position
  advance : ∀ c (x : Lexical) (n : Nat), P c → x.isUsed = true →
    x.length? c.skipBlank.rest = some n → P (c.skipBlank.advance n)

/-- A reading goes side by side with itself. -/
lemma Steady.lockstep (h : Steady P Q) :
    Lockstep (fun c c' => c = c' ∧ P c) (fun p p' => p = p' ∧ Q p) := by
  refine ⟨?_, ?_, ?_, ?_⟩
  · rintro p _ q _ ⟨rfl, hp⟩ ⟨rfl, hq⟩
    refine ⟨rfl, ?_⟩
    rcases Nat.le_total p q with hle | hle
    · rwa [Nat.max_eq_right hle]
    · rwa [Nat.max_eq_left hle]
  · rintro c _ ⟨rfl, hc⟩
    exact ⟨rfl, h.position c hc⟩
  · rintro c _ x ⟨rfl, -⟩ -
    rfl
  · rintro c _ x n ⟨rfl, hc⟩ hx hlength
    exact ⟨rfl, h.advance c x n hc hx hlength⟩

/-- An outcome that is parallel to itself keeps what both cursors have in common. -/
lemma Outcome.keeps_of_parallel {o : Outcome}
    (h : o.Parallel (fun c c' => c = c' ∧ P c) (fun p p' => p = p' ∧ Q p) o) : o.Keeps P Q := by
  cases o with
  | done its next stuck =>
    cases h with
    | done hnext hstuck =>
      refine ⟨hnext.2, ?_⟩
      rintro s hs
      obtain rfl := Option.mem_def.1 hs
      cases hstuck with
      | some hs => exact hs.2
  | failed stuck =>
    cases h with
    | failed hstuck => exact hstuck.2
  | tooDeep => trivial

/-- Reading by a rule keeps what reading tokens and marks keeps. -/
theorem Rule.keeps_read (h : Steady P Q) (depth : Nat) (r : Rule) {c : Cursor} (hc : P c) :
    (Rule.read depth r c).Keeps P Q :=
  Outcome.keeps_of_parallel (Rule.parallel_read h.lockstep depth r ⟨rfl, hc⟩)

/-- Reading a query keeps what reading tokens and marks keeps. -/
theorem Steady.query (h : Steady P Q) (depth : Nat) {c : Cursor} (hc : P c) :
    ((Form.optional (.rule .expression)).read (Rule.read depth) c).Keeps P Q :=
  Outcome.keeps_of_parallel (h.lockstep.query depth ⟨rfl, hc⟩)

end PromqlGuide
