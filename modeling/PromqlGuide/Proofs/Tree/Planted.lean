import PromqlGuide.Proofs.Lists
import PromqlGuide.Proofs.Tree.Grown

/-!
# Planted trees

A node of a grove *holds* a tree if the nodes at and below it are those of the tree, in the same
order.  What is looked up at the node is what is looked up in the tree (`Grove.Holds.child?`).

A tree that is planted in a grown grove is held by its root, no node is made a child twice on the
way, and the nodes that were there before stay as they were (`Grove.isPlanted_plant`).  So every
tree is found in a grown grove (`Grove.grown_ofNode`).
-/
namespace PromqlGuide.Grove

/-- Whether a node of the grove, with the nodes below it, is like a tree. -/
def Holds (g : Grove) : Node → Nat → Prop :=
  Node.fold fun n children i => ∃ linked, g.nodes[i]? = some linked ∧ linked.kind = n.kind ∧
    linked.start = n.start ∧ linked.stop = n.stop ∧
    List.Forall₂ (fun holds c => holds c) children linked.children

/-- Whether a grove has the nodes of another one, up to their parents. -/
def Keeps (g g' : Grove) : Prop := ∀ (i : Nat) (linked : LinkedNode), g.nodes[i]? = some linked →
  ∃ parent?, g'.nodes[i]? = some { linked with parent? := parent? }

/-- What comes of planting trees: the grove is still grown, and the roots hold the trees and are not
yet children.  New nodes are only made over new ones. -/
structure IsPlanted (g : Grove) (ns : List Node) (p : Planted g.size) : Prop where
  grown : p.grove.Grown
  keeps : g.Keeps p.grove
  size_le_of_mem : ∀ i, g.size ≤ i → ∀ c ∈ p.grove.children i, g.size ≤ c
  size_le_root : ∀ root ∈ p.roots, g.size ≤ root
  free : ∀ root ∈ p.roots, ∀ i, root ∉ p.grove.children i
  nodup : p.roots.Nodup
  holds : List.Forall₂ p.grove.Holds ns p.roots

variable {g g' : Grove} {n : Node} {i : Nat}

/-- A node of the grove is like a tree if it is like its root, and its children are like those of
the root in order. -/
lemma holds_iff : g.Holds n i ↔ ∃ linked, g.nodes[i]? = some linked ∧ linked.kind = n.kind ∧
    linked.start = n.start ∧ linked.stop = n.stop ∧
    List.Forall₂ g.Holds n.children linked.children := by
  unfold Holds
  rw [Node.fold_eq]
  simp only [List.forall₂_map_left_iff]

/-! ### Reading a tree that is held -/

namespace Holds

/-- A node is of the kinds that its tree is of. -/
lemma isOf (h : g.Holds n i) (kinds : List Kind) : g.isOf kinds i = decide (n.kind ∈ kinds) := by
  obtain ⟨linked, hi, hkind, -⟩ := holds_iff.1 h
  rw [Grove.isOf, hi, Option.any_some, hkind]

/-- A node is an error node if its tree is. -/
lemma isError (h : g.Holds n i) : g.isError i = n.isError := by
  simp [Grove.isError, h.isOf, Node.isError]

/-- The children of a node are like those of its tree. -/
lemma children (h : g.Holds n i) : List.Forall₂ g.Holds n.children (g.children i) := by
  obtain ⟨linked, hi, -, -, -, hchildren⟩ := holds_iff.1 h
  rwa [children_of_getElem? hi]

/-- The first child of a node is like that of its tree. -/
lemma firstChild? (h : g.Holds n i) :
    Option.Rel g.Holds n.children.head? (g.firstChild? i) :=
  rel_head h.children

/-- The first child of certain kinds is like that of the tree. -/
lemma child? (h : g.Holds n i) (kinds : List Kind) :
    Option.Rel g.Holds (n.child? kinds) (g.child? kinds i) :=
  rel_find h.children fun _ _ hc => (hc.isOf kinds).symm

/-- The children of a kind are like those of the tree. -/
lemma childrenOf (h : g.Holds n i) (kind : Kind) :
    List.Forall₂ g.Holds (n.childrenOf kind) (g.childrenOf kind i) :=
  rel_filter h.children fun m c hc => by simp [hc.isOf]

end Holds

/-! ### What stays as it was -/

namespace Keeps

/-- A grove has its own nodes. -/
lemma refl (g : Grove) : g.Keeps g := fun _ linked hi => ⟨linked.parent?, hi⟩

/-- A grove has the nodes of the groves that it comes from. -/
lemma trans {g'' : Grove} (h : g.Keeps g') (h' : g'.Keeps g'') : g.Keeps g'' := by
  intro i linked hi
  obtain ⟨_, hi'⟩ := h i linked hi
  obtain ⟨parent?, hi''⟩ := h' i _ hi'
  exact ⟨parent?, hi''⟩

/-- A new node leaves the others as they are. -/
lemma create (g : Grove) {kind : Kind} {start stop : Nat} {children : List Nat}
    (h : ∀ c ∈ children, c < g.size) : g.Keeps (g.create kind start stop children h) := by
  intro i linked hi
  have hne : i ≠ g.size := by
    rintro rfl
    have hnone : g.nodes[g.size]? = none := Array.getElem?_size
    cases hnone.symm.trans hi
  rw [getElem?_create, if_neg hne, hi]
  by_cases hmem : i ∈ children
  · exact ⟨some g.size, by simp [hmem]⟩
  · exact ⟨linked.parent?, by simp [hmem]⟩

/-- Nodes that are kept keep their children. -/
lemma children_eq (h : g.Keeps g') (hi : i < g.size) : g'.children i = g.children i := by
  have hold := Array.getElem?_eq_getElem hi
  obtain ⟨_, hnew⟩ := h i _ hold
  rw [children_of_getElem? hnew, children_of_getElem? hold]

/-- Nodes that are kept are like the same trees. -/
lemma holds (h : g.Keeps g') (hn : g.Holds n i) : g'.Holds n i := by
  induction n using Node.inductionOn generalizing i with
  | step n ih =>
    obtain ⟨linked, hi, hkind, hstart, hstop, hchildren⟩ := holds_iff.1 hn
    obtain ⟨_, hi'⟩ := h i linked hi
    exact holds_iff.2 ⟨_, hi', hkind, hstart, hstop,
      forall₂_of_mem hchildren fun c hc _ hold => ih c hc hold⟩

end Keeps

/-! ### Planting -/

namespace IsPlanted

variable {ns ms : List Node} {p : Planted g.size} {next : (g : Grove) → Planted g.size}

/-- Planting nothing leaves the grove as it is. -/
lemma nothing (hg : g.Grown) (hroots : ∀ root ∈ ([] : List Nat), root < g.size) :
    IsPlanted g [] ⟨g, [], Nat.le_refl _, hroots⟩ where
  grown := hg
  keeps := .refl g
  size_le_of_mem := by
    intro i hi c hc
    rw [children_of_size_le hi] at hc
    cases hc
  size_le_root := fun root hroot => nomatch hroot
  free := fun root hroot => nomatch hroot
  nodup := List.nodup_nil
  holds := .nil

/-- Trees are planted one after the other. -/
lemma andThen (hp : IsPlanted g ns p) (hmore : IsPlanted p.grove ms (next p.grove)) :
    IsPlanted g (ns ++ ms) (p.andThen next) where
  grown := hmore.grown
  keeps := hp.keeps.trans hmore.keeps
  -- A node from the first planting keeps its children; one from the second has only nodes from the
  -- second.
  size_le_of_mem := by
    intro i hi c hc
    by_cases hold : i < p.grove.size
    · exact hp.size_le_of_mem i hi c (hmore.keeps.children_eq hold ▸ hc)
    · exact Nat.le_trans p.size_le (hmore.size_le_of_mem i (Nat.le_of_not_lt hold) c hc)
  size_le_root := by
    intro root hroot
    rcases List.mem_append.1 hroot with hroot | hroot
    · exact hp.size_le_root root hroot
    · exact Nat.le_trans p.size_le (hmore.size_le_root root hroot)
  free := by
    intro root hroot i hmem
    rcases List.mem_append.1 hroot with hroot | hroot
    · by_cases hold : i < p.grove.size
      · exact hp.free root hroot i (hmore.keeps.children_eq hold ▸ hmem)
      · exact absurd (hmore.size_le_of_mem i (Nat.le_of_not_lt hold) root hmem)
          (Nat.not_le_of_lt (p.roots_lt root hroot))
    · exact hmore.free root hroot i hmem
  -- The roots of the second planting come behind all nodes of the first.
  nodup := by
    refine List.nodup_append.2 ⟨hp.nodup, hmore.nodup, fun root hroot root' hroot' heq => ?_⟩
    exact absurd (hmore.size_le_root root' hroot') (Nat.not_le_of_lt (heq ▸ p.roots_lt root hroot))
  holds := List.rel_append (hp.holds.imp fun _ _ => hmore.keeps.holds) hmore.holds

/-- A tree is planted by planting its children and making a node over them. -/
lemma under (hp : IsPlanted g n.children p) :
    IsPlanted g [n] (p.under n.kind n.start n.stop) where
  grown := .create p.roots_lt hp.grown hp.nodup hp.free
  keeps := hp.keeps.trans (.create p.grove p.roots_lt)
  size_le_of_mem := by
    intro i hi c hc
    rw [Planted.children_under] at hc
    split_ifs at hc
    · exact hp.size_le_root c hc
    · exact hp.size_le_of_mem i hi c hc
  size_le_root := by
    intro root hroot
    rw [List.mem_singleton.1 hroot]
    exact p.size_le
  free := by
    intro root hroot i hmem
    rw [List.mem_singleton.1 hroot, Planted.children_under] at hmem
    split_ifs at hmem
    · exact Nat.lt_irrefl _ (p.roots_lt _ hmem)
    -- A node that had the new one as a child would have a larger number than any node that was
    -- there.
    · have hlt := lt_of_mem_children hmem
      rw [children_of_size_le (Nat.le_of_lt hlt)] at hmem
      cases hmem
  nodup := List.pairwise_singleton _ _
  holds := by
    have hkeeps : p.grove.Keeps (p.under n.kind n.start n.stop).grove := .create p.grove p.roots_lt
    refine .cons (holds_iff.2 ⟨⟨n.kind, n.start, n.stop, p.roots, none⟩, ?_, rfl, rfl, rfl, ?_⟩)
      .nil
    · exact (getElem?_create p.roots_lt _).trans (if_pos rfl)
    · exact hp.holds.imp fun _ _ => hkeeps.holds

/-- A list of trees is planted tree by tree. -/
lemma foldl (hms : ∀ m ∈ ms, ∀ g : Grove, g.Grown → IsPlanted g [m] (plant m g))
    (hp : IsPlanted g ns p) : IsPlanted g (ns ++ ms) ((ms.map plant).foldl Planted.andThen p) := by
  induction ms generalizing ns p with
  | nil =>
    rw [List.append_nil]
    exact hp
  | cons m ms ih =>
    have hfirst := hp.andThen (hms m List.mem_cons_self p.grove hp.grown)
    have hrest := ih (fun k hk => hms k (List.mem_cons_of_mem _ hk)) hfirst
    rwa [List.append_assoc] at hrest

end IsPlanted

/-- A planted tree is held by its root. -/
lemma isPlanted_plant (n : Node) : ∀ g : Grove, g.Grown → IsPlanted g [n] (plant n g) := by
  induction n using Node.inductionOn with
  | step n ih =>
    intro g hg
    unfold plant
    rw [Node.fold_eq]
    exact (IsPlanted.foldl ih (.nothing hg _)).under

/-- The root of a planted tree is made last. -/
lemma roots_plant (n : Node) (g : Grove) : (plant n g).roots = [(plant n g).grove.last] := by
  unfold plant last
  rw [Node.fold_eq]
  simp only [Planted.under, size_create, Nat.add_sub_cancel]

/-- A tree on its own is a grown grove, and its root is the node that was made last. -/
lemma grown_ofNode (n : Node) :
    (ofNode n).Grown ∧ (ofNode n).Holds n (ofNode n).last ∧ (ofNode n).IsRoot (ofNode n).last := by
  have hplanted := isPlanted_plant n empty .empty
  have hroots : (plant n empty).roots = [(ofNode n).last] := roots_plant n empty
  have hlast : (ofNode n).last ∈ (plant n empty).roots := by
    rw [hroots]
    exact List.mem_singleton_self _
  have hholds := hplanted.holds
  rw [hroots] at hholds
  exact ⟨hplanted.grown, (List.forall₂_cons.1 hholds).1, (plant n empty).roots_lt _ hlast,
    hplanted.free _ hlast⟩

end PromqlGuide.Grove
