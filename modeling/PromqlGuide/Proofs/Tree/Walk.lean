import Mathlib.Data.List.Nodup
import PromqlGuide.Proofs.Tree.Planted

/-!
# Walks

A walk with a stack meets the nodes of a tree in pre-order (`Grove.walk_eq_preorder`): what it still
has to meet are the pre-orders of the trees on its stack, one after the other.  In a grown grove it
meets every node of the tree exactly once, and the error node that it finds is the first in
pre-order (`Grove.walk_of_grown`).
-/
namespace PromqlGuide.Grove

/-- A node, and then the pre-orders of its children from left to right. -/
def preorder (g : Grove) (i : Nat) : List Nat :=
  i :: (g.children i).attach.flatMap fun c => g.preorder c.1
termination_by i
decreasing_by exact lt_of_mem_children c.2

variable {g : Grove} {i j c d : Nat}

/-- The pre-order of a node is the node and the pre-orders of its children. -/
lemma preorder_eq (g : Grove) (i : Nat) :
    g.preorder i = i :: (g.children i).flatMap g.preorder := by
  rw [preorder]
  simp [List.flatMap_def]

/-! ### The loop -/

/-- The pre-orders of the trees on the stack are what the walk has still to meet. -/
lemma walkFrom_eq (g : Grove) (stack : List Nat) : g.walkFrom stack = stack.flatMap g.preorder := by
  fun_induction walkFrom g stack with
  | case1 => rfl
  | case2 i stack ih =>
    rw [ih, push_reverse, List.flatMap_append, List.flatMap_cons, preorder_eq g i, List.cons_append]

/-- The walk goes through the pre-order. -/
lemma walk_eq_preorder (g : Grove) (i : Nat) : g.walk i = g.preorder i := by
  rw [walk, walkFrom_eq, List.flatMap_singleton]

/-- Every round of a walk meets one node, so it has as many rounds as the trees have nodes. -/
lemma length_walkFrom (g : Grove) (stack : List Nat) :
    (g.walkFrom stack).length = g.sizeAll stack := by
  fun_induction walkFrom g stack with
  | case1 => rfl
  | case2 i stack ih =>
    rw [List.length_cons, ih, push_reverse, sizeAll_append, sizeAll, treeSize_eq]
    omega

/-! ### Pre-order -/

/-- The pre-order has exactly what lies below the node. -/
lemma mem_preorder_iff : j ∈ g.preorder i ↔ g.IsBelow i j := by
  induction i using Nat.strongRecOn with
  | ind i ih =>
    rw [preorder_eq, List.mem_cons, List.mem_flatMap]
    constructor
    · rintro (rfl | ⟨c, hc, hj⟩)
      · exact .refl g j
      · exact .of_child hc ((ih c (lt_of_mem_children hc)).1 hj)
    · intro h
      rcases h.cases_child with rfl | ⟨c, hc, hj⟩
      · exact Or.inl rfl
      · exact Or.inr ⟨c, hc, (ih c (lt_of_mem_children hc)).2 hj⟩

/-- A child does not lie below a sibling. -/
lemma IsLinked.eq_of_isBelow (hg : g.IsLinked) (hc : c ∈ g.children i) (hd : d ∈ g.children i)
    (h : g.IsBelow c d) : d = c := by
  rcases h.cases_parent with heq | ⟨p, hp, hbelow⟩
  · exact heq
  · obtain rfl := hg.parent_unique hp hd
    exact absurd (lt_of_mem_children hc) (Nat.not_lt_of_le hbelow.le)

/-- The trees of different children have no node in common. -/
lemma IsLinked.disjoint_preorder (hg : g.IsLinked) (hc : c ∈ g.children i) (hd : d ∈ g.children i)
    (hne : c ≠ d) : (g.preorder c).Disjoint (g.preorder d) := by
  intro j hjc hjd
  rcases hg.isBelow_or (mem_preorder_iff.1 hjc) (mem_preorder_iff.1 hjd) with h | h
  · exact hne (hg.eq_of_isBelow hc hd h).symm
  · exact hne (hg.eq_of_isBelow hd hc h)

/-- The pre-order has no node twice. -/
lemma IsLinked.nodup_preorder (hg : g.IsLinked) (i : Nat) : (g.preorder i).Nodup := by
  induction i using Nat.strongRecOn with
  | ind i ih =>
    rw [preorder_eq, List.nodup_cons, List.nodup_flatMap]
    refine ⟨?_, fun c hc => ih c (lt_of_mem_children hc), ?_⟩
    -- What lies below a child has a smaller number than the node.
    · rw [List.mem_flatMap]
      rintro ⟨c, hc, hi⟩
      exact absurd (mem_preorder_iff.1 hi).le (Nat.not_le_of_lt (lt_of_mem_children hc))
    · exact (hg.nodup i).pairwise_of_forall_ne fun c hc d hd hne => hg.disjoint_preorder hc hd hne

/-- The pre-order of a tree that the grove holds is that of the tree. -/
lemma Holds.preorder {n : Node} (h : g.Holds n i) :
    List.Forall₂ g.Holds n.preorder (g.preorder i) := by
  induction n using Node.inductionOn generalizing i with
  | step n ih =>
    have hbelow : List.Forall₂ (fun m c => List.Forall₂ g.Holds m.preorder (g.preorder c))
        n.children (g.children i) :=
      forall₂_of_mem h.children fun m hm _ hmc => ih m hm hmc
    rw [Node.preorder_eq, preorder_eq, ← List.flatMap_def]
    exact .cons h (List.rel_flatMap hbelow fun _ _ hmc => hmc)

/-- The error node that is found holds the first error node of the tree. -/
lemma Holds.findError? {n : Node} (h : g.Holds n i) :
    Option.Rel g.Holds (n.preorder.find? Node.isError) (g.findError? i) := by
  unfold Grove.findError?
  rw [walk_eq_preorder]
  exact rel_find h.preorder fun _ _ hj => hj.isError.symm

/-! ### Walks -/

/-- In a grown grove, a walk from a node ends after as many rounds as the node's tree has nodes.  It
meets the nodes in pre-order: every node of the tree, none of them twice, and in the order of the
tree that the node holds.  The error node that it finds is the first one in pre-order, and it finds
none exactly if the tree has none. -/
theorem walk_of_grown (hg : g.Grown) (i : Nat) :
    (g.walk i).length = g.treeSize i ∧ g.walk i = g.preorder i ∧
      (g.walk i).Nodup ∧ (∀ j, j ∈ g.walk i ↔ g.IsBelow i j) ∧
      (∀ n, g.Holds n i → List.Forall₂ g.Holds n.preorder (g.walk i)) ∧
      (∀ j, g.findError? i = some j ↔ ∃ before behind, g.preorder i = before ++ j :: behind ∧
        g.isError j = true ∧ ∀ k ∈ before, g.isError k = false) ∧
      (g.findError? i = none ↔ ∀ j, g.IsBelow i j → g.isError j = false) := by
  have hlength : (g.walk i).length = g.treeSize i := by
    rw [walk, length_walkFrom, sizeAll, sizeAll, Nat.add_zero]
  unfold findError?
  rw [hlength, walk_eq_preorder]
  refine ⟨rfl, rfl, hg.isLinked.nodup_preorder i, fun j => mem_preorder_iff, fun n h => h.preorder,
    fun j => ?_, ?_⟩
  · rw [List.find?_eq_some_iff_append]
    constructor
    · rintro ⟨herror, before, behind, hsplit, hbefore⟩
      exact ⟨before, behind, hsplit, herror, fun k hk => by simpa using hbefore k hk⟩
    · rintro ⟨before, behind, hsplit, herror, hbefore⟩
      exact ⟨herror, before, behind, hsplit, fun k hk => by simp [hbefore k hk]⟩
  · simp only [List.find?_eq_none, mem_preorder_iff, Bool.not_eq_true]

/-- A tree with an error node below another node, and behind it two that look alike. -/
def alikeErrors : Node :=
  ⟨.root, 0, 3,
    [⟨.phrase .paren, 0, 1, [⟨.error, 0, 1, []⟩]⟩, ⟨.error, 1, 3, []⟩, ⟨.error, 1, 3, []⟩]⟩

/-- The two nodes that look alike are met one after the other, and the error node that is found is
the one that lies deeper. -/
theorem walk_of_grown_alikeErrors :
    (ofNode alikeErrors).Grown ∧ (ofNode alikeErrors).Holds alikeErrors 4 ∧
      (ofNode alikeErrors).walk 4 = [4, 1, 0, 2, 3] ∧ [4, 1, 0, 2, 3].Nodup ∧
      List.Forall₂ (ofNode alikeErrors).Holds alikeErrors.preorder [4, 1, 0, 2, 3] ∧
      (ofNode alikeErrors).findError? 4 = some 0 := by
  obtain ⟨hgrown, hholds, -⟩ := grown_ofNode alikeErrors
  obtain ⟨-, hwalk, hnodup, -, halike, hfirst, -⟩ := walk_of_grown hgrown 4
  have hleaf : ∀ i ∈ [0, 2, 3], (ofNode alikeErrors).children i = [] := by decide
  have hpreorder : (ofNode alikeErrors).preorder 4 = [4, 1, 0, 2, 3] := by
    have hroot : (ofNode alikeErrors).children 4 = [1, 2, 3] := rfl
    have hparen : (ofNode alikeErrors).children 1 = [0] := rfl
    simp [preorder_eq, hroot, hparen, hleaf]
  have hfound : (ofNode alikeErrors).findError? 4 = some 0 :=
    (hfirst 0).2 ⟨[4, 1], [2, 3], hpreorder, by decide, by decide⟩
  have hordered := hwalk.trans hpreorder
  exact ⟨hgrown, hholds, hordered, hordered ▸ hnodup, hordered ▸ halike _ hholds, hfound⟩

end PromqlGuide.Grove
