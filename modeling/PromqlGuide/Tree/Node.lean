import PromqlGuide.Tree.Kind
import PromqlGuide.Text.Slice

/-!
Syntax trees. A node has a kind, the range of the query that it covers, and children in source
order. The range is half open and counts characters.

Main statements: folding a tree folds its children first (`Node.fold_eq`), and the pre-order is the
node followed by the pre-orders of its children (`Node.preorder_eq`).
-/
namespace PromqlGuide

/-- A node of a syntax tree, covering the characters from `start` up to but not including `stop`. -/
structure Node where
  kind : Kind
  start : Nat
  stop : Nat
  children : List Node
  deriving Repr, BEq

namespace Node

open Text

/-- Whether the node marks an error in the query. -/
def isError (n : Node) : Bool := decide (n.kind = .error)

/-- The part of the query that the node covers. -/
def text (n : Node) (query : List Char) : List Char := slice query n.start n.stop

/-- The first child of one of the given kinds. -/
def child? (n : Node) (kinds : List Kind) : Option Node :=
  n.children.find? fun c => decide (c.kind ∈ kinds)

/-- The children of one kind, in order. -/
def childrenOf (n : Node) (kind : Kind) : List Node :=
  n.children.filter fun c => decide (c.kind = kind)

/-- A property that passes from the children to a node holds of every node. -/
theorem inductionOn {P : Node → Prop} (step : ∀ n, (∀ c ∈ n.children, P c) → P n) : ∀ n, P n
  | ⟨kind, start, stop, children⟩ => step ⟨kind, start, stop, children⟩ fun c _ =>
    inductionOn step c

mutual

/-- Combines a tree from the leaves up: `f` receives a node and the results of its children. -/
def fold {α : Type} (f : Node → List α → α) : Node → α
  | ⟨kind, start, stop, children⟩ => f ⟨kind, start, stop, children⟩ (foldList f children)

/-- The results of a list of trees. -/
def foldList {α : Type} (f : Node → List α → α) : List Node → List α
  | [] => []
  | n :: ns => fold f n :: foldList f ns

end

/-- The children are folded one by one. -/
theorem foldList_eq {α : Type} (f : Node → List α → α) (ns : List Node) :
    foldList f ns = ns.map (fold f) := by
  induction ns with
  | nil => rfl
  | cons n ns ih => simp [foldList, ih]

/-- The result of a node is made from the results of its children. -/
theorem fold_eq {α : Type} (f : Node → List α → α) (n : Node) :
    fold f n = f n (n.children.map (fold f)) := by
  cases n
  simp [fold, foldList_eq]

/-- The length of the longest way from the node down to a leaf, where each node counts for as many
steps as its kind. -/
def depth (steps : Kind → Nat) : Node → Nat :=
  fold fun n depths => depths.foldl max 0 + steps n.kind

/-- A node adds its own steps to those of its deepest child. -/
theorem depth_eq (steps : Kind → Nat) (n : Node) :
    n.depth steps = (n.children.map (depth steps)).foldl max 0 + steps n.kind := by
  rw [depth, fold_eq]

/-- The nodes of the tree, each before its children and these from left to right. -/
def preorder : Node → List Node := fold fun n below => n :: below.flatten

/-- The node comes first, then its children's nodes in order. -/
theorem preorder_eq (n : Node) : n.preorder = n :: (n.children.map preorder).flatten := by
  unfold preorder
  rw [fold_eq]

end Node

end PromqlGuide
