import Mathlib.Data.List.Forall2

/-!
# Computations that may fail

A computation in steps yields a value if each step does, and fails for the reason of one of them.
-/
namespace PromqlGuide

variable {ε α β : Type} {x : Except ε α} {g : α → Except ε β} {b : β} {f : α → Except ε β}
  {as : List α} {bs : List β} {cause : ε} {P : Prop}

/-! ### Values -/

/-- Going through a list succeeds if each step does. -/
lemma mapM_eq_pure {F : Type → Type} [Monad F] [LawfulMonad F] {f : α → F β} {g : α → β}
    (h : ∀ a ∈ as, f a = pure (g a)) : as.mapM f = pure (as.map g) := by
  induction as with
  | nil => simp
  | cons a as ih =>
    rw [List.forall_mem_cons] at h
    simp [h.1, ih h.2]

/-- If one step yields nothing, going through the list yields nothing. -/
lemma mapM_eq_none {f : α → Option β} {a : α} (ha : a ∈ as) (h : f a = none) :
    as.mapM f = none := by
  induction as with
  | nil => cases ha
  | cons c as ih =>
    rw [List.mapM_cons]
    rcases List.mem_cons.1 ha with rfl | ha
    · rw [h]
      rfl
    · rw [ih ha]
      cases f c <;> rfl

/-- If one step and what is made of its value succeed together, both do. -/
lemma exists_of_bind_eq_ok (h : x >>= g = .ok b) : ∃ a, x = .ok a ∧ g a = .ok b := by
  cases x with
  | error e => cases h
  | ok a => exact ⟨a, rfl, h⟩

/-- If going through a list succeeds, each step yields its value. -/
lemma forall₂_of_mapM_eq_ok (h : as.mapM f = .ok bs) :
    List.Forall₂ (fun a b => f a = .ok b) as bs := by
  induction as generalizing bs with
  | nil =>
    cases h
    exact .nil
  | cons a as ih =>
    rw [List.mapM_cons] at h
    obtain ⟨b, hb, h⟩ := exists_of_bind_eq_ok h
    obtain ⟨more, hmore, h⟩ := exists_of_bind_eq_ok h
    cases h
    exact .cons hb (ih hmore)

/-- What succeeds yields its value. -/
lemma eq_ok_toOption (h : ∃ a, x = .ok a) (d : α) : x = .ok (x.toOption.getD d) := by
  obtain ⟨a, rfl⟩ := h
  rfl

/-- Another reason to fail leaves the value as it is. -/
lemma eq_ok_of_mapError {ε' : Type} {r : ε → ε'} {a : α} (h : x.mapError r = .ok a) :
    x = .ok a := by
  cases x with
  | error e => cases h
  | ok b => exact congrArg _ (Except.ok.inj h)

/-! ### Reasons to fail -/

/-- Going through a list succeeds for every use of the values, or fails for the same reason for
all. -/
lemma mapM_map_cases (f : α → Except ε β) (as : List α) : (∀ a ∈ as, ∃ b, f a = .ok b) ∨
    ∃ a ∈ as, ∃ cause, f a = .error cause ∧
      ∀ {γ : Type} (g : α → β → γ), as.mapM (fun a => (f a).map (g a)) = .error cause := by
  induction as with
  | nil => exact Or.inl (List.forall_mem_nil _)
  | cons a as ih =>
    cases ha : f a with
    | error cause =>
      refine Or.inr ⟨a, List.mem_cons_self, cause, ha, fun g => ?_⟩
      rw [List.mapM_cons, ha]
      rfl
    | ok b =>
      refine ih.imp (fun h => List.forall_mem_cons.2 ⟨⟨b, ha⟩, h⟩) ?_
      rintro ⟨a', ha', cause, herror, hmap⟩
      refine ⟨a', List.mem_cons_of_mem a ha', cause, herror, fun g => ?_⟩
      rw [List.mapM_cons, ha, hmap]
      rfl

/-! ### Conditions -/

/-- Whether a computation yields a value if a condition holds, and otherwise fails for the given
reason. -/
def YieldsIff (x : Except ε α) (P : Prop) (cause : ε) : Prop :=
  (P ∧ ∃ v, x = .ok v) ∨ (¬P ∧ x = .error cause)

/-- There is a value if the condition holds. -/
lemma YieldsIff.exists_ok (h : YieldsIff x P cause) (hP : P) : ∃ v, x = .ok v := by
  rcases h with ⟨-, hv⟩ | ⟨hnot, -⟩
  · exact hv
  · exact absurd hP hnot

/-- The given reason is the only one to fail. -/
lemma YieldsIff.error_eq {e : ε} (h : YieldsIff x P cause) (he : x = .error e) : e = cause := by
  rcases h with ⟨-, v, hv⟩ | ⟨-, herror⟩
  · cases he.symm.trans hv
  · cases he.symm.trans herror
    rfl

/-- What is made of the value does not change when there is one. -/
lemma YieldsIff.map {c : α → β} (h : YieldsIff x P cause) : YieldsIff (x.map c) P cause := by
  rcases h with ⟨hP, v, rfl⟩ | ⟨hnot, rfl⟩
  · exact Or.inl ⟨hP, c v, rfl⟩
  · exact Or.inr ⟨hnot, rfl⟩

/-- Two steps yield a value if both conditions hold. -/
lemma YieldsIff.bind {Q : Prop} (h : YieldsIff x P cause) (hg : ∀ a, YieldsIff (g a) Q cause) :
    YieldsIff (x >>= g) (P ∧ Q) cause := by
  rcases h with ⟨hP, v, rfl⟩ | ⟨hnot, rfl⟩
  · rcases hg v with ⟨hQ, w, hw⟩ | ⟨hnot, herror⟩
    · exact Or.inl ⟨⟨hP, hQ⟩, w, hw⟩
    · exact Or.inr ⟨fun h => hnot h.2, herror⟩
  · exact Or.inr ⟨fun h => hnot h.1, rfl⟩

/-! ### Two conditions -/

section Both

variable {Q P' Q' : Prop} {cause' : ε}

/-- Whether a computation yields a value if two conditions hold, and otherwise fails for the reason
that goes with one that does not. -/
def YieldsIffBoth (x : Except ε α) (P : Prop) (cause : ε) (Q : Prop) (cause' : ε) : Prop :=
  (P ∧ Q ∧ ∃ v, x = .ok v) ∨ (¬P ∧ x = .error cause) ∨ (¬Q ∧ x = .error cause')

namespace YieldsIffBoth

/-- There is a value if both conditions hold. -/
lemma exists_ok (h : YieldsIffBoth x P cause Q cause') (hP : P) (hQ : Q) : ∃ v, x = .ok v := by
  rcases h with ⟨-, -, hv⟩ | ⟨hnot, -⟩ | ⟨hnot, -⟩
  · exact hv
  · exact absurd hP hnot
  · exact absurd hQ hnot

/-- Where there is a value both conditions hold. -/
lemma of_ok {v : α} (h : YieldsIffBoth x P cause Q cause') (hv : x = .ok v) : P ∧ Q := by
  rcases h with ⟨hP, hQ, -⟩ | ⟨-, herror⟩ | ⟨-, herror⟩
  · exact ⟨hP, hQ⟩
  · cases hv.symm.trans herror
  · cases hv.symm.trans herror

/-- The reason of a failure goes with a condition that does not hold. -/
lemma of_error {e : ε} (h : YieldsIffBoth x P cause Q cause') (he : x = .error e) :
    (¬P ∧ e = cause) ∨ (¬Q ∧ e = cause') := by
  rcases h with ⟨-, -, v, hv⟩ | ⟨hnot, herror⟩ | ⟨hnot, herror⟩
  · cases he.symm.trans hv
  · exact Or.inl ⟨hnot, Except.error.inj (he.symm.trans herror)⟩
  · exact Or.inr ⟨hnot, Except.error.inj (he.symm.trans herror)⟩

/-- If only the first condition fails, its reason is the reason of the failure. -/
lemma eq_error_left (h : YieldsIffBoth x P cause Q cause') (hP : ¬P) (hQ : Q) :
    x = .error cause := by
  rcases h with ⟨hP', -⟩ | ⟨-, herror⟩ | ⟨hnot, -⟩
  · exact absurd hP' hP
  · exact herror
  · exact absurd hQ hnot

/-- If only the second condition fails, its reason is the reason of the failure. -/
lemma eq_error_right (h : YieldsIffBoth x P cause Q cause') (hP : P) (hQ : ¬Q) :
    x = .error cause' := by
  rcases h with ⟨-, hQ', -⟩ | ⟨hnot, -⟩ | ⟨-, herror⟩
  · exact absurd hQ' hQ
  · exact absurd hP hnot
  · exact herror

/-- The conditions may be put in other words. -/
lemma congr (h : YieldsIffBoth x P cause Q cause') (hP : P ↔ P') (hQ : Q ↔ Q') :
    YieldsIffBoth x P' cause Q' cause' := by
  rwa [← propext hP, ← propext hQ]

/-- What is made of the value does not change when there is one. -/
lemma map {c : α → β} (h : YieldsIffBoth x P cause Q cause') :
    YieldsIffBoth (x.map c) P cause Q cause' := by
  rcases h with ⟨hP, hQ, v, rfl⟩ | ⟨hnot, rfl⟩ | ⟨hnot, rfl⟩
  · exact Or.inl ⟨hP, hQ, c v, rfl⟩
  · exact Or.inr (Or.inl ⟨hnot, rfl⟩)
  · exact Or.inr (Or.inr ⟨hnot, rfl⟩)

/-- Other words for the reasons do not change when there is a value. -/
lemma mapError {ε' : Type} {r : ε → ε'} (h : YieldsIffBoth x P cause Q cause') :
    YieldsIffBoth (x.mapError r) P (r cause) Q (r cause') := by
  rcases h with ⟨hP, hQ, v, rfl⟩ | ⟨hnot, rfl⟩ | ⟨hnot, rfl⟩
  · exact Or.inl ⟨hP, hQ, v, rfl⟩
  · exact Or.inr (Or.inl ⟨hnot, rfl⟩)
  · exact Or.inr (Or.inr ⟨hnot, rfl⟩)

/-- Two steps yield a value if the conditions of both hold. -/
lemma bind (h : YieldsIffBoth x P cause Q cause')
    (hg : ∀ a, YieldsIffBoth (g a) P' cause Q' cause') :
    YieldsIffBoth (x >>= g) (P ∧ P') cause (Q ∧ Q') cause' := by
  rcases h with ⟨hP, hQ, v, rfl⟩ | ⟨hnot, rfl⟩ | ⟨hnot, rfl⟩
  · rcases hg v with ⟨hP', hQ', w, hw⟩ | ⟨hnot, herror⟩ | ⟨hnot, herror⟩
    · exact Or.inl ⟨⟨hP, hP'⟩, ⟨hQ, hQ'⟩, w, hw⟩
    · exact Or.inr (Or.inl ⟨fun h => hnot h.2, herror⟩)
    · exact Or.inr (Or.inr ⟨fun h => hnot h.2, herror⟩)
  · exact Or.inr (Or.inl ⟨fun h => hnot h.1, rfl⟩)
  · exact Or.inr (Or.inr ⟨fun h => hnot h.1, rfl⟩)

/-- Going through a list yields values if the conditions of all steps hold. -/
lemma mapM {p q : α → Prop} (h : ∀ a ∈ as, YieldsIffBoth (f a) (p a) cause (q a) cause') :
    YieldsIffBoth (as.mapM f) (∀ a ∈ as, p a) cause (∀ a ∈ as, q a) cause' := by
  induction as with
  | nil => exact Or.inl ⟨List.forall_mem_nil _, List.forall_mem_nil _, [], rfl⟩
  | cons a as ih =>
    rw [List.forall_mem_cons] at h
    rw [List.mapM_cons, List.forall_mem_cons, List.forall_mem_cons]
    exact h.1.bind fun _ => (ih h.2).map

end YieldsIffBoth

end Both

end PromqlGuide
