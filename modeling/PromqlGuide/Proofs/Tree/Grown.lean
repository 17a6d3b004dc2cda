import Mathlib.Logic.Relation
import Mathlib.Tactic.Common
import PromqlGuide.Tree.Grove

/-!
# Groves in which no node is made a child twice

A grove is *grown* if its nodes were made one after the other, each over different nodes that are
not yet children.  What making a node does to the links keeps them in order: the parent of a node is
the node that has it among its children, and no node has a child twice (`Grove.Grown.isLinked`).
-/
namespace PromqlGuide.Grove

/-- Whether the grove was made node by node, and no node was made a child twice. -/
inductive Grown : Grove → Prop where
  | empty : Grown empty
  | create {g : Grove} {kind : Kind} {start stop : Nat} {children : List Nat}
      (h : ∀ c ∈ children, c < g.size) : Grown g → children.Nodup →
      (∀ c ∈ children, ∀ i, c ∉ g.children i) → Grown (g.create kind start stop children h)

/-- Whether the links of a grove are in order. -/
structure IsLinked (g : Grove) : Prop where
  nodup : ∀ i, (g.children i).Nodup
  mem_children_iff : ∀ {i c}, c ∈ g.children i ↔ g.parent? c = some i

/-- Whether a node is the root of a tree. -/
def IsRoot (g : Grove) (i : Nat) : Prop := i < g.size ∧ ∀ parent, i ∉ g.children parent

/-- Whether a node is the node `i` itself or lies below it. -/
def IsBelow (g : Grove) (i j : Nat) : Prop :=
  Relation.ReflTransGen (fun i c => c ∈ g.children i) i j

variable {g : Grove} {i j c d : Nat}

/-- The children of a node are those that it was made with. -/
lemma children_of_getElem? {linked : LinkedNode} (h : g.nodes[i]? = some linked) :
    g.children i = linked.children := by
  unfold children
  rw [h]

/-- A number that no node has yet has no children. -/
lemma children_of_size_le (h : g.size ≤ i) : g.children i = [] := by
  unfold children
  rw [Array.getElem?_eq_none h]

/-- The links of the empty grove are in order. -/
lemma isLinked_empty : IsLinked empty := by
  constructor
  · intro i
    simp [children, empty]
  · intro i c
    simp [children, parent?, empty]

/-- Making a node over nodes that are not yet children keeps the links in order. -/
lemma IsLinked.create {kind : Kind} {start stop : Nat} {children : List Nat} (hg : g.IsLinked)
    (h : ∀ c ∈ children, c < g.size) (hnodup : children.Nodup)
    (hfree : ∀ c ∈ children, ∀ i, c ∉ g.children i) :
    (g.create kind start stop children h).IsLinked := by
  constructor
  · intro i
    rw [children_create]
    split_ifs
    · exact hnodup
    · exact hg.nodup i
  · intro i c
    rw [children_create, parent?_create]
    have hsize : c ∉ g.children g.size := by simp [children_of_size_le (Nat.le_refl _)]
    by_cases hi : i = g.size <;> by_cases hc : c ∈ children
    · simp [hi, hc]
    · simpa [hi, hc, hg.mem_children_iff] using hsize
    · simpa [hi, hc, eq_comm] using hfree c hc i
    · simp [hi, hc, hg.mem_children_iff]

/-- The links of a grown grove are in order. -/
lemma Grown.isLinked (h : Grown g) : g.IsLinked := by
  induction h with
  | empty => exact isLinked_empty
  | create h _ hnodup hfree ih => exact ih.create h hnodup hfree

/-- A node is the child of one node only. -/
lemma IsLinked.parent_unique (hg : g.IsLinked) (hi : c ∈ g.children i) (hj : c ∈ g.children j) :
    i = j :=
  Option.some.inj ((hg.mem_children_iff.1 hi).symm.trans (hg.mem_children_iff.1 hj))

namespace IsBelow

/-- A node lies in its own tree. -/
lemma refl (g : Grove) (i : Nat) : g.IsBelow i i := Relation.ReflTransGen.refl

/-- What lies below a child lies below its parent. -/
lemma of_child (hc : c ∈ g.children i) (h : g.IsBelow c j) : g.IsBelow i j := .head hc h

/-- A node that lies below another one was made before it. -/
lemma le (h : g.IsBelow i j) : j ≤ i := by
  induction h with
  | refl => exact Nat.le_refl _
  | tail _ hc ih => exact Nat.le_trans (Nat.le_of_lt (lt_of_mem_children hc)) ih

/-- What lies below a node is the node or lies below one of its children. -/
lemma cases_child (h : g.IsBelow i j) : j = i ∨ ∃ c ∈ g.children i, g.IsBelow c j := by
  rcases Relation.ReflTransGen.cases_head h with rfl | ⟨c, hc, hj⟩
  · exact Or.inl rfl
  · exact Or.inr ⟨c, hc, hj⟩

/-- What lies below a node is the node or has a parent that lies below it. -/
lemma cases_parent (h : g.IsBelow i j) : j = i ∨ ∃ p, j ∈ g.children p ∧ g.IsBelow i p := by
  rcases Relation.ReflTransGen.cases_tail h with rfl | ⟨p, hp, hj⟩
  · exact Or.inl rfl
  · exact Or.inr ⟨p, hj, hp⟩

end IsBelow

/-- Of two nodes above a third one, one lies below the other. -/
lemma IsLinked.isBelow_or (hg : g.IsLinked) (hc : g.IsBelow c j) (hd : g.IsBelow d j) :
    g.IsBelow c d ∨ g.IsBelow d c := by
  induction hc with
  | refl => exact Or.inr hd
  | @tail p j hp hj ih =>
    rcases hd.cases_parent with rfl | ⟨q, hq, hd⟩
    · exact Or.inl (.tail hp hj)
    · obtain rfl := hg.parent_unique hj hq
      exact ih hd

end PromqlGuide.Grove
