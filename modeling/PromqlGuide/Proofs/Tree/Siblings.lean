import Mathlib.Logic.Function.Iterate
import PromqlGuide.Proofs.Tree.Walk

/-!
# Stepping along siblings

The node that follows a node is looked for among the children of its parent, and there by number.
In a grown grove no node is a child twice, and a child's parent is the node that it is a child of,
so stepping from the first child along the siblings meets the children of a node one by one
(`Grove.siblings_of_grown`), however much they look alike.
-/
namespace PromqlGuide.Grove

/-- Whether a step leads from a node to another one. -/
inductive Moves (g : Grove) (i j : Nat) : Prop where
  | firstChild : g.firstChild? i = some j → Moves g i j
  | nextSibling : g.nextSibling? i = some j → Moves g i j
  | parent : g.parent? i = some j → Moves g i j
  | children : j ∈ g.children i → Moves g i j
  | child (kinds : List Kind) : g.child? kinds i = some j → Moves g i j
  | childrenOf (kind : Kind) : j ∈ g.childrenOf kind i → Moves g i j
  | walk : j ∈ g.walk i → Moves g i j
  | findError : g.findError? i = some j → Moves g i j

variable {g : Grove} {i j k c root n : Nat}

/-! ### Siblings -/

/-- Behind an entry of a list without repetition is the next one. -/
lemma behind_of_getElem? {siblings : List Nat} (hnodup : siblings.Nodup)
    (hk : siblings[k]? = some c) : behind c siblings = siblings[k + 1]? := by
  induction siblings generalizing k with
  | nil => cases hk
  | cons s siblings ih =>
    rw [List.getElem?_cons_succ]
    obtain ⟨hs, hnodup⟩ := List.nodup_cons.1 hnodup
    cases k with
    | zero =>
      obtain rfl : s = c := by simpa using hk
      rw [behind, if_pos rfl, List.head?_eq_getElem?]
    | succ k =>
      rw [List.getElem?_cons_succ] at hk
      -- Only here it matters that no node is a child twice: the search does not stop too early.
      have hne : s ≠ c := by
        rintro rfl
        exact hs (List.mem_of_getElem? hk)
      rw [behind, if_neg hne, ih hnodup hk]

/-- The next sibling of a child is the next child of its parent. -/
lemma IsLinked.nextSibling? (hg : g.IsLinked) (hk : (g.children n)[k]? = some c) :
    g.nextSibling? c = (g.children n)[k + 1]? := by
  have hparent : g.parent? c = some n := hg.mem_children_iff.1 (List.mem_of_getElem? hk)
  unfold Grove.nextSibling?
  rw [hparent]
  exact behind_of_getElem? (hg.nodup n) hk

/-- After `k` steps along the siblings, the child with index `k` is reached. -/
lemma IsLinked.iterate_nextSibling? (hg : g.IsLinked) (n k : Nat) :
    (fun next => next.bind g.nextSibling?)^[k] (g.firstChild? n) = (g.children n)[k]? := by
  induction k with
  | zero => exact List.head?_eq_getElem?
  | succ k ih =>
    rw [Function.iterate_succ_apply', ih]
    cases hk : (g.children n)[k]? with
    | none =>
      have hlength : (g.children n).length ≤ k := List.getElem?_eq_none_iff.1 hk
      exact (List.getElem?_eq_none (Nat.le_succ_of_le hlength)).symm
    | some c => exact hg.nextSibling? hk

/-! ### Steps in a tree -/

/-- A root has no parent. -/
lemma IsRoot.parent? (hroot : g.IsRoot root) (hg : g.IsLinked) : g.parent? root = none := by
  cases hparent : g.parent? root with
  | none => rfl
  | some p => exact absurd (hg.mem_children_iff.2 hparent) (hroot.2 p)

/-- What stands behind a sibling is a sibling. -/
lemma mem_of_behind {siblings : List Nat} (h : behind i siblings = some j) : j ∈ siblings := by
  induction siblings with
  | nil => cases h
  | cons s siblings ih =>
    unfold behind at h
    split_ifs at h
    · exact List.mem_cons_of_mem _ (List.mem_of_head? h)
    · exact List.mem_cons_of_mem _ (ih h)

/-- A node below a root that has a parent has it below the root. -/
lemma IsBelow.parent? (h : g.IsBelow root i) (hg : g.IsLinked) (hroot : g.IsRoot root)
    (hparent : g.parent? i = some j) : g.IsBelow root j := by
  rcases h.cases_parent with rfl | ⟨p, hp, hbelow⟩
  · rw [hroot.parent? hg] at hparent
    cases hparent
  · obtain rfl := hg.parent_unique hp (hg.mem_children_iff.2 hparent)
    exact hbelow

/-- No step leads out of a tree. -/
lemma IsBelow.moves (h : g.IsBelow root i) (hg : g.IsLinked) (hroot : g.IsRoot root)
    (hmoves : g.Moves i j) : g.IsBelow root j := by
  have hchild : ∀ c ∈ g.children i, g.IsBelow root c := fun c hc => .tail h hc
  have hbelow : ∀ c ∈ g.walk i, g.IsBelow root c := by
    intro c hc
    rw [walk_eq_preorder, mem_preorder_iff] at hc
    exact .trans h hc
  cases hmoves with
  | firstChild hj => exact hchild j (List.mem_of_head? hj)
  | nextSibling hj =>
    unfold Grove.nextSibling? at hj
    cases hparent : g.parent? i with
    | none =>
      rw [hparent] at hj
      cases hj
    | some p =>
      rw [hparent] at hj
      exact .tail (h.parent? hg hroot hparent) (mem_of_behind hj)
  | parent hj => exact h.parent? hg hroot hj
  | children hj => exact hchild j hj
  | child kinds hj => exact hchild j (List.mem_of_find?_eq_some hj)
  | childrenOf kind hj => exact hchild j (List.mem_filter.1 hj).1
  | walk hj => exact hbelow j hj
  | findError hj => exact hbelow j (List.mem_of_find?_eq_some hj)

/-- No step leads out of the tree of a root. -/
lemma isBelow_of_moves (hg : g.IsLinked) (hroot : g.IsRoot root)
    (h : Relation.ReflTransGen g.Moves root n) : g.IsBelow root n := by
  induction h with
  | refl => exact .refl g root
  | tail _ hmoves ih => exact ih.moves hg hroot hmoves

/-- Steps from the root of a tree in a grown grove, in any number and order, lead to nodes of the
tree.  From the first child of such a node, stepping along the siblings meets its children, the one
with index `k` after `k` steps, and nothing behind the last of them; the children are different
nodes, and each has the node as its parent.  The root has no parent and no sibling behind it. -/
theorem siblings_of_grown (hg : g.Grown) (hroot : g.IsRoot root)
    (hn : Relation.ReflTransGen g.Moves root n) :
    g.IsBelow root n ∧
      (∀ k, (fun next => next.bind g.nextSibling?)^[k] (g.firstChild? n) = (g.children n)[k]?) ∧
      (g.children n).Nodup ∧ (∀ c ∈ g.children n, g.parent? c = some n) ∧
      g.parent? root = none ∧ g.nextSibling? root = none := by
  have hlinked := hg.isLinked
  have hparent := hroot.parent? hlinked
  refine ⟨isBelow_of_moves hlinked hroot hn, hlinked.iterate_nextSibling? n, hlinked.nodup n,
    fun c hc => hlinked.mem_children_iff.1 hc, hparent, ?_⟩
  unfold Grove.nextSibling?
  rw [hparent]

/-- The children of the root of a tree with nodes that look alike are met one by one, also when they
are reached over one of them. -/
theorem siblings_of_grown_alikeErrors :
    (ofNode alikeErrors).Grown ∧ (ofNode alikeErrors).IsRoot 4 ∧
      Relation.ReflTransGen (ofNode alikeErrors).Moves 4 4 ∧
      (∀ k, (fun next => next.bind (ofNode alikeErrors).nextSibling?)^[k] (some 1) =
        [1, 2, 3][k]?) ∧
      (∀ c ∈ [1, 2, 3], (ofNode alikeErrors).parent? c = some 4) ∧
      (ofNode alikeErrors).nextSibling? 4 = none := by
  obtain ⟨hgrown, -, hroot⟩ := grown_ofNode alikeErrors
  have hmoves : Relation.ReflTransGen (ofNode alikeErrors).Moves 4 4 :=
    .tail (.tail (.tail .refl (.firstChild rfl)) (.nextSibling (j := 2) rfl)) (.parent rfl)
  obtain ⟨-, hsteps, -, hparents, -, hnext⟩ := siblings_of_grown hgrown hroot hmoves
  exact ⟨hgrown, hroot, hmoves, hsteps, hparents, hnext⟩

end PromqlGuide.Grove
