import PromqlGuide.Tree.Node

/-!
Nodes that know their parents. Syntax trees are made from the leaves up in a grove: every new node
gets the next number, and children and parents are referred to by number. A node is made over its
children, and then each of them is told that the new node is its parent. Siblings that look alike
still have different numbers.

A walk with a stack meets a node and all nodes below it; it ends because every round takes one node
off the trees on the stack.

Main statements: a node keeps its children when others are made (`Grove.children_create`), and its
parent is the node that was last made over it (`Grove.parent?_create`).
-/
namespace PromqlGuide

/-- A node whose children and parent are given by number. -/
structure LinkedNode where
  kind : Kind
  start : Nat
  stop : Nat
  children : List Nat
  parent? : Option Nat
  deriving Repr

/-- The part of the query that the node covers. -/
def LinkedNode.text (n : LinkedNode) (query : List Char) : List Char :=
  Text.slice query n.start n.stop

/-- The nodes of trees in the order in which they were made, children before their parents. -/
structure Grove where
  nodes : Array LinkedNode
  children_lt : ∀ (i : Nat) (n : LinkedNode), nodes[i]? = some n → ∀ c ∈ n.children, c < i

namespace Grove

/-- A grove without nodes. -/
def empty : Grove := ⟨#[], by simp⟩

/-- How many nodes there are; it is the number that the next node gets. -/
def size (g : Grove) : Nat := g.nodes.size

/-- The children of a node, in order. -/
def children (g : Grove) (i : Nat) : List Nat :=
  match g.nodes[i]? with
  | some n => n.children
  | none => []

/-- The parent of a node. -/
def parent? (g : Grove) (i : Nat) : Option Nat := g.nodes[i]?.bind LinkedNode.parent?

/-- Whether a node is there and of one of the kinds. -/
def isOf (g : Grove) (kinds : List Kind) (i : Nat) : Bool :=
  g.nodes[i]?.any fun n => decide (n.kind ∈ kinds)

/-- Whether a node marks an error in the query. -/
def isError (g : Grove) (i : Nat) : Bool := g.isOf [.error] i

/-- Children are created before their parent. -/
theorem lt_of_mem_children {g : Grove} {i c : Nat} (h : c ∈ g.children i) : c < i := by
  unfold children at h
  split at h
  · exact g.children_lt i _ ‹_› c h
  · cases h

/-! ### Making nodes -/

/-- Tells a node who its parent is. -/
def adopt (parent : Nat) (nodes : Array LinkedNode) (child : Nat) : Array LinkedNode :=
  nodes.modify child fun n => { n with parent? := some parent }

/-- Adoption sets the parent of the children and leaves all other nodes as they are. -/
theorem getElem?_adopt (parent : Nat) (children : List Nat) (nodes : Array LinkedNode) (i : Nat) :
    (children.foldl (adopt parent) nodes)[i]? = nodes[i]?.map fun n =>
      if i ∈ children then { n with parent? := some parent } else n := by
  induction children generalizing nodes with
  | nil => simp
  | cons c children ih =>
    rw [List.foldl_cons, ih, adopt, Array.getElem?_modify]
    by_cases hc : c = i
    · subst hc
      cases nodes[c]? with
      | none => simp
      | some n => by_cases hmem : c ∈ children <;> simp [hmem]
    · have hiff : i ∈ c :: children ↔ i ∈ children := by simp [Ne.symm hc]
      simp only [if_neg hc, hiff]

/-- Makes a node over nodes that are there, and tells them that it is their parent. -/
def create (g : Grove) (kind : Kind) (start stop : Nat) (children : List Nat)
    (h : ∀ c ∈ children, c < g.size) : Grove where
  nodes := children.foldl (adopt g.size) (g.nodes.push ⟨kind, start, stop, children, none⟩)
  children_lt := by
    intro i n hn c hc
    rw [getElem?_adopt, Array.getElem?_push] at hn
    -- Adoption changes no children.
    obtain ⟨m, hm, rfl⟩ := Option.map_eq_some_iff.1 hn
    have hc : c ∈ m.children := by
      split at hc <;> exact hc
    split at hm
    · next heq =>
      cases hm
      exact heq ▸ h c hc
    · exact g.children_lt i m hm c hc

/-- A new node is added; of the others, those that it was made over have a new parent. -/
theorem getElem?_create {g : Grove} {kind : Kind} {start stop : Nat} {children : List Nat}
    (h : ∀ c ∈ children, c < g.size) (i : Nat) : (g.create kind start stop children h).nodes[i]? =
      if i = g.size then some ⟨kind, start, stop, children, none⟩
      else g.nodes[i]?.map fun n =>
        if i ∈ children then { n with parent? := some g.size } else n := by
  show (children.foldl (adopt g.size) (g.nodes.push ⟨kind, start, stop, children, none⟩))[i]? = _
  rw [getElem?_adopt, Array.getElem?_push]
  by_cases hi : i = g.size
  · have hnot : g.size ∉ children := fun hmem => Nat.lt_irrefl _ (h _ hmem)
    have hsize : g.size = g.nodes.size := rfl
    rw [if_pos hi, if_pos (hi.trans hsize), Option.map_some, if_neg (hi ▸ hnot)]
  · have hsize : ¬ i = g.nodes.size := hi
    rw [if_neg hi, if_neg hsize]

section

variable {g : Grove} {kind : Kind} {start stop : Nat} {children : List Nat}
  (h : ∀ c ∈ children, c < g.size)

/-- A node that is created is one node more. -/
theorem size_create : (g.create kind start stop children h).size = g.size + 1 := by
  have hsize : ∀ nodes : Array LinkedNode,
      (children.foldl (adopt g.size) nodes).size = nodes.size := by
    induction children with
    | nil => exact fun nodes => rfl
    | cons c children ih =>
      intro nodes
      rw [List.foldl_cons, ih fun c hc => h c (List.mem_cons_of_mem _ hc), adopt, Array.size_modify]
  exact (hsize _).trans (Array.size_push _)

/-- The new node has the given children, and all other nodes have theirs. -/
theorem children_create (i : Nat) : (g.create kind start stop children h).children i =
    if i = g.size then children else g.children i := by
  unfold Grove.children
  rw [getElem?_create]
  by_cases hi : i = g.size
  · simp [hi]
  · rw [if_neg hi, if_neg hi]
    cases g.nodes[i]? with
    | none => rfl
    | some n => by_cases hmem : i ∈ children <;> simp [hmem]

/-- The given children have the new node as their parent, and all other nodes have theirs. -/
theorem parent?_create (i : Nat) : (g.create kind start stop children h).parent? i =
    if i ∈ children then some g.size else g.parent? i := by
  unfold parent?
  rw [getElem?_create]
  by_cases hi : i = g.size
  · have hnot : g.size ∉ children := fun hmem => Nat.lt_irrefl _ (h _ hmem)
    have hnone : g.nodes[g.size]? = none := Array.getElem?_size
    simp [hi, hnot, hnone]
  · rw [if_neg hi]
    by_cases hmem : i ∈ children
    · have hlt : i < g.nodes.size := h i hmem
      simp [hmem, Array.getElem?_eq_getElem hlt]
    · simp [hmem]

end

/-! ### Stepping from node to node -/

/-- The first child. -/
def firstChild? (g : Grove) (i : Nat) : Option Nat := (g.children i).head?

/-- What stands behind a node among its siblings. -/
def behind (i : Nat) : List Nat → Option Nat
  | [] => none
  | sibling :: siblings => if sibling = i then siblings.head? else behind i siblings

/-- The node that follows under the same parent. -/
def nextSibling? (g : Grove) (i : Nat) : Option Nat :=
  match g.parent? i with
  | none => none
  | some parent => behind i (g.children parent)

/-- The first child of one of the given kinds. -/
def child? (g : Grove) (kinds : List Kind) (i : Nat) : Option Nat :=
  (g.children i).find? (g.isOf kinds)

/-- The children of one kind, in order. -/
def childrenOf (g : Grove) (kind : Kind) (i : Nat) : List Nat :=
  (g.children i).filter (g.isOf [kind])

/-! ### Walks -/

/-- How many nodes the tree of a node has. -/
def treeSize (g : Grove) (i : Nat) : Nat :=
  ((g.children i).attach.map fun c => g.treeSize c.1).foldr Nat.add 1
termination_by i
decreasing_by exact lt_of_mem_children c.2

/-- How many nodes the trees of nodes have together. -/
def sizeAll (g : Grove) : List Nat → Nat
  | [] => 0
  | i :: stack => g.treeSize i + g.sizeAll stack

/-- The sizes of two lists of trees add up. -/
theorem sizeAll_append (g : Grove) (is js : List Nat) :
    g.sizeAll (is ++ js) = g.sizeAll is + g.sizeAll js := by
  induction is with
  | nil => simp [sizeAll]
  | cons i is ih => simp [sizeAll, ih, Nat.add_assoc]

/-- A tree has one node more than the trees of its children have together. -/
theorem treeSize_eq (g : Grove) (i : Nat) : g.treeSize i = g.sizeAll (g.children i) + 1 := by
  have hall : ∀ is : List Nat, (is.map g.treeSize).foldr Nat.add 1 = g.sizeAll is + 1 := by
    intro is
    induction is with
    | nil => rfl
    | cons i is ih => simp [sizeAll, ih, Nat.add_assoc]
  rw [treeSize, ← hall]
  simp

/-- Puts nodes onto a stack one after the other. The top of a stack comes first. -/
def push (is stack : List Nat) : List Nat := is.foldl (fun stack i => i :: stack) stack

/-- What is pushed last to first lies on the stack first to last. -/
theorem push_reverse (is stack : List Nat) : push is.reverse stack = is ++ stack := by
  unfold push
  induction is generalizing stack with
  | nil => rfl
  | cons i is ih => simp [List.foldl_append, ih]

/-- The nodes of the trees on a stack. In every round the top of the stack is taken off and met, and
then its children are put onto the stack, the last one first. -/
def walkFrom (g : Grove) : List Nat → List Nat
  | [] => []
  | i :: stack => i :: g.walkFrom (push (g.children i).reverse stack)
termination_by stack => g.sizeAll stack
decreasing_by
  simp only [push_reverse, sizeAll_append, sizeAll, treeSize_eq g i]
  omega

/-- A node and all nodes below it, in the order in which a walk with a stack meets them. -/
def walk (g : Grove) (i : Nat) : List Nat := g.walkFrom [i]

/-- The first error node that a walk meets. -/
def findError? (g : Grove) (i : Nat) : Option Nat := (g.walk i).find? g.isError

/-! ### Planting trees -/

/-- What comes of planting trees where there are nodes already: the grove, and the roots of the
trees. -/
structure Planted (size : Nat) where
  grove : Grove
  roots : List Nat
  size_le : size ≤ grove.size
  roots_lt : ∀ root ∈ roots, root < grove.size

namespace Planted

/-- Plants something more behind what was planted. -/
def andThen {size : Nat} (p : Planted size) (next : (g : Grove) → Planted g.size) :
    Planted size :=
  let more := next p.grove
  { grove := more.grove
    roots := p.roots ++ more.roots
    size_le := Nat.le_trans p.size_le more.size_le
    roots_lt := fun root hroot => (List.mem_append.1 hroot).elim
      (fun hold => Nat.lt_of_lt_of_le (p.roots_lt root hold) more.size_le) (more.roots_lt root) }

/-- Makes a node over what was planted. -/
def under {size : Nat} (p : Planted size) (kind : Kind) (start stop : Nat) : Planted size where
  grove := p.grove.create kind start stop p.roots p.roots_lt
  roots := [p.grove.size]
  size_le := by
    rw [size_create]
    exact Nat.le_succ_of_le p.size_le
  roots_lt := by
    intro root hroot
    rw [size_create, List.mem_singleton.1 hroot]
    exact Nat.lt_succ_self _

/-- A root that is put over the planted trees has their roots as children. -/
theorem children_under {size : Nat} (p : Planted size) (kind : Kind) (start stop i : Nat) :
    (p.under kind start stop).grove.children i =
      if i = p.grove.size then p.roots else p.grove.children i :=
  children_create p.roots_lt i

end Planted

/-- Plants a tree: first the trees of its children from left to right, then the node over them. -/
def plant : Node → (g : Grove) → Planted g.size :=
  Node.fold fun n children g =>
    (children.foldl Planted.andThen ⟨g, [], Nat.le_refl _, fun _ h => nomatch h⟩).under
      n.kind n.start n.stop

/-- A tree on its own, and its root. -/
def ofNode (n : Node) : Grove := (plant n empty).grove

/-- The node that was made last. -/
def last (g : Grove) : Nat := g.size - 1

end Grove

end PromqlGuide
