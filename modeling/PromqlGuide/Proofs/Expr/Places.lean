import PromqlGuide.Proofs.Expr.WellFormed

/-!
# Places inside an expression

A part of an expression is reached by a *place*, the numbers of the children on the way to it.  In
pre-order the places of all parts are in ascending lexicographic order, and the depth of a part is
the length of its place.

Main statement: the pre-order goes through all places, in ascending order
(`Expr.preorder_goesThrough`).
-/
namespace PromqlGuide

/-- Numbered elements are in the order of their numbers. -/
lemma pairwise_zipIdx {α : Type} (as : List α) (i : Nat) :
    (as.zipIdx i).Pairwise fun a b => a.2 < b.2 := by
  induction as generalizing i with
  | nil => exact .nil
  | cons a as ih =>
    exact List.pairwise_cons.2 ⟨fun _ hb => List.le_snd_of_mem_zipIdx hb, ih (i + 1)⟩

namespace Expr

/-- The part of an expression at a place. -/
def subexpr? : Expr → List Nat → Option Expr
  | e, [] => some e
  | e, i :: place => e.children[i]?.bind fun c => subexpr? c place

/-- The places of all parts, each part before those inside it. -/
def places : Expr → List (List Nat) :=
  fold fun _ below => [] :: below.zipIdx.flatMap fun (inner, i) => inner.map (i :: ·)

/-- The places below an expression are those of its children, behind the number of the child. -/
lemma places_eq (e : Expr) :
    e.places = [] :: e.children.zipIdx.flatMap fun (c, i) => c.places.map (i :: ·) := by
  unfold places
  rw [fold_eq, List.zipIdx_map, List.flatMap_map]
  rfl

/-- The places are those of the parts. -/
lemma mem_places_iff {e : Expr} {place : List Nat} :
    place ∈ e.places ↔ (e.subexpr? place).isSome := by
  induction e using Expr.inductionOn generalizing place with
  | step e ih =>
    rw [places_eq, List.mem_cons, List.mem_flatMap]
    cases place with
    | nil => simp [subexpr?]
    | cons i place =>
      simp only [subexpr?, reduceCtorEq, false_or]
      constructor
      · rintro ⟨⟨c, j⟩, hc, hplace⟩
        obtain ⟨place', hplace', heq⟩ := List.mem_map.1 hplace
        obtain ⟨rfl, rfl⟩ := List.cons.inj heq
        rw [List.mem_zipIdx_iff_getElem?] at hc
        rw [hc, Option.bind_some]
        exact (ih c (List.mem_of_getElem? hc)).1 hplace'
      · intro h
        obtain ⟨c, hc⟩ := Option.isSome_iff_exists.1 (Option.isSome_of_isSome_bind h)
        rw [hc, Option.bind_some] at h
        have hplace := (ih c (List.mem_of_getElem? hc)).2 h
        exact ⟨(c, i), List.mem_zipIdx_iff_getElem?.2 hc, List.mem_map.2 ⟨place, hplace, rfl⟩⟩

/-- The places ascend. -/
lemma pairwise_places (e : Expr) : e.places.Pairwise (· < ·) := by
  induction e using Expr.inductionOn with
  | step e ih =>
    rw [places_eq, List.pairwise_cons, List.pairwise_flatMap]
    refine ⟨?_, ?_, (pairwise_zipIdx e.children 0).imp ?_⟩
    · intro place hplace
      obtain ⟨_, _, hplace⟩ := List.mem_flatMap.1 hplace
      obtain ⟨place, -, rfl⟩ := List.mem_map.1 hplace
      exact List.nil_lt_cons _ _
    · rintro ⟨c, i⟩ hc
      rw [List.pairwise_map]
      refine (ih c ?_).imp fun h => List.cons_lt_cons_self.2 h
      exact List.mem_of_getElem? (List.mem_zipIdx_iff_getElem?.1 hc)
    · rintro ⟨c, i⟩ ⟨d, j⟩ hij place hplace place' hplace'
      obtain ⟨place, -, rfl⟩ := List.mem_map.1 hplace
      obtain ⟨place', -, rfl⟩ := List.mem_map.1 hplace'
      exact List.cons_lt_cons_iff.2 (.inl hij)

/-- The pre-order lists the part at each place, as deep as the place is long. -/
lemma preorder_places (e : Expr) (depth : Nat) :
    List.Forall₂ (fun place x => e.subexpr? place = some x.2 ∧ x.1 = depth + place.length)
      e.places (e.preorder depth) := by
  induction e using Expr.inductionOn generalizing depth with
  | step e ih =>
    have hnumbered : e.children.flatMap (preorder · (depth + 1)) =
        e.children.zipIdx.flatMap fun (c, _) => c.preorder (depth + 1) := by
      conv_lhs => rw [← List.zipIdx_map_fst 0 e.children, List.flatMap_map]
    rw [places_eq, preorder_eq, hnumbered]
    refine .cons ⟨rfl, rfl⟩ (forall₂_flatMap ?_)
    rintro ⟨c, i⟩ hc
    rw [List.mem_zipIdx_iff_getElem?] at hc
    rw [List.forall₂_map_left_iff]
    refine (ih c (List.mem_of_getElem? hc) (depth + 1)).imp fun place x h => ?_
    refine ⟨?_, ?_⟩
    · rw [subexpr?, hc]
      exact h.1
    · rw [h.2, List.length_cons]
      omega

/-- One level further down all parts are one deeper. -/
lemma preorder_succ (e : Expr) (depth : Nat) :
    e.preorder (depth + 1) = (e.preorder depth).map fun (k, m) => (k + 1, m) := by
  induction e using Expr.inductionOn generalizing depth with
  | step e ih =>
    rw [preorder_eq e (depth + 1), preorder_eq e depth, List.map_cons, List.map_flatMap]
    exact congrArg _ (List.flatMap_congr fun c hc => ih c hc (depth + 1))

/-- What the pre-order lists, from whatever depth, is what stands at some place. -/
lemma exists_mem_preorder_iff {e m : Expr} (depth : Nat) :
    (∃ k, (k, m) ∈ e.preorder depth) ↔ ∃ place, e.subexpr? place = some m := by
  constructor
  · rintro ⟨k, hm⟩
    obtain ⟨place, -, hplace⟩ := exists_mem_of_forall₂ (e.preorder_places depth).flip hm
    exact ⟨place, hplace.1⟩
  · rintro ⟨place, hplace⟩
    have hmem : place ∈ e.places := mem_places_iff.2 (hplace ▸ rfl)
    obtain ⟨⟨k, m'⟩, hm, hpart⟩ := exists_mem_of_forall₂ (e.preorder_places depth) hmem
    obtain rfl : m = m' := Option.some.inj (hplace.symm.trans hpart.1)
    exact ⟨k, hm⟩

/-- A property holds throughout an expression if it holds at every place. -/
lemma throughout_iff {P : Expr → Prop} {e : Expr} :
    Throughout P e ↔ ∀ place m, e.subexpr? place = some m → P m := by
  constructor
  · intro h place m hm
    obtain ⟨k, hk⟩ := (exists_mem_preorder_iff 0).2 ⟨place, hm⟩
    exact h 0 k m hk
  · intro h depth k m hm
    obtain ⟨place, hplace⟩ := (exists_mem_preorder_iff depth).1 ⟨k, hm⟩
    exact h place m hplace

/-- A property holds throughout an expression if it holds of all that the pre-order lists. -/
lemma throughout_iff_preorder {P : Expr → Prop} {e : Expr} :
    Throughout P e ↔ ∀ part ∈ e.preorder 0, P part.2 := by
  constructor
  · exact fun h part hpart => h 0 part.1 part.2 hpart
  · intro h depth k m hm
    obtain ⟨k', hk'⟩ := (exists_mem_preorder_iff 0).2 ((exists_mem_preorder_iff depth).1 ⟨k, hm⟩)
    exact h (k', m) hk'

/-- What holds throughout an expression holds throughout its children. -/
lemma Throughout.child {P : Expr → Prop} {e c : Expr} (h : Throughout P e) (hc : c ∈ e.children) :
    Throughout P c := by
  obtain ⟨i, hi⟩ := List.getElem?_of_mem hc
  refine throughout_iff.2 fun place m hm => throughout_iff.1 h (i :: place) m ?_
  rw [subexpr?, hi, Option.bind_some, hm]

/-- Whether a list names the parts of an expression in pre-order: the part at each place once, in
the ascending order of the places, with the length of its place as its depth. -/
def GoesThrough (e : Expr) (parts : List (Nat × Expr)) : Prop :=
  ∃ places : List (List Nat),
    places.Pairwise (· < ·) ∧ (∀ place, place ∈ places ↔ (e.subexpr? place).isSome) ∧
      List.Forall₂ (fun place part => e.subexpr? place = some part.2 ∧ part.1 = place.length) places
        parts

/-- The pre-order goes through all parts. -/
theorem preorder_goesThrough (e : Expr) : e.GoesThrough (e.preorder 0) := by
  refine ⟨e.places, e.pairwise_places, fun place => mem_places_iff, ?_⟩
  refine (e.preorder_places 0).imp fun place part h => ⟨h.1, ?_⟩
  rw [h.2, Nat.zero_add]

end Expr

end PromqlGuide
