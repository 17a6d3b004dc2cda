import PromqlGuide.Tree.Node
import PromqlGuide.Text.Blank

/-!
What reading a piece of a query yields: the items read and the place where reading stopped, or a
failure. Every attempt also leaves the furthest point at which something expected was missing,
together with everything that was expected there; a message about a rejected query names that point.

Main statement: merging keeps the further of two points (`Stuck.merge_position`).
-/
namespace PromqlGuide

/-- A position in a query and the text from there on. -/
structure Cursor where
  position : Nat
  rest : List Char
  deriving Repr, DecidableEq

namespace Cursor

/-- The cursor a number of characters further on. -/
def advance (c : Cursor) (n : Nat) : Cursor := ⟨c.position + n, c.rest.drop n⟩

/-- The cursor behind the blank text at it. -/
def skipBlank (c : Cursor) : Cursor := c.advance (Text.blankLength c.rest)

/-- The cursor at the start of a query. -/
def start (query : List Char) : Cursor := ⟨0, query⟩

end Cursor

/-- What can be expected at a point of a query. -/
inductive Expectation where
  | terminal (t : Terminal)
  | mark (c : Char)
  | endOfQuery
  deriving Repr, DecidableEq

/-- What a message calls the thing expected. -/
def Expectation.description : Expectation → String
  | terminal t => t.description
  | mark c => String.ofList ['\'', c, '\'']
  | endOfQuery => "EOF"

/-- A point that reading did not get past, and what was expected there. -/
structure Stuck where
  position : Nat
  expected : List Expectation
  deriving Repr, DecidableEq

/-- The further of two points; at the same point, everything that was expected. -/
def Stuck.merge (a b : Stuck) : Stuck :=
  if b.position < a.position then a
  else if a.position < b.position then b
  else ⟨a.position, a.expected ++ b.expected.filter (· ∉ a.expected)⟩

/-- Of two places at which reading got stuck the later one is kept. -/
theorem Stuck.merge_position (a b : Stuck) :
    (a.merge b).position = max a.position b.position := by
  unfold Stuck.merge
  split
  · omega
  · split
    · omega
    · simp only; omega

/-- Merges a point with one that may be missing. -/
def Stuck.mergeOption (a : Option Stuck) (b : Stuck) : Stuck :=
  match a with
  | none => b
  | some a => a.merge b

/-- Merges two points that may be missing. -/
def Stuck.mergeOptions (a b : Option Stuck) : Option Stuck :=
  match b with
  | none => a
  | some b => some (Stuck.mergeOption a b)

/-- What reading leaves behind: nodes, and marks that only count for the extent of the node around
them. -/
inductive Item where
  | node (n : Node)
  | mark (c : Char) (start stop : Nat)
  deriving Repr

namespace Item

/-- Where the item starts. -/
def start : Item → Nat
  | node n => n.start
  | mark _ s _ => s

/-- Where the item stops. -/
def stop : Item → Nat
  | node n => n.stop
  | mark _ _ e => e

/-- The node, unless the item is a mark. -/
def node? : Item → Option Node
  | node n => some n
  | mark .. => none

/-- A node over all the items: it reaches from the start of the first to the end of the last, and
its children are the nodes among them. Without items it is empty and lies at `position`. -/
def span (kind : Kind) (position : Nat) (items : List Item) : Node :=
  ⟨kind, (items.head?.map start).getD position, (items.getLast?.map stop).getD position,
    items.filterMap node?⟩

/-- The node `n` extended to the left over the node `left`, which becomes its first child. -/
def adopt (left n : Node) : Node := ⟨n.kind, left.start, n.stop, left :: n.children⟩

/-- Folds what was read after a node into it: each later node adopts everything before it. -/
def graft (base later : List Item) : List Item :=
  later.foldl
    (fun acc item =>
      match acc, item with
      | [.node left], .node n => [.node (adopt left n)]
      | _, _ => acc ++ [item])
    base

end Item

/-- The result of reading a form at a cursor. -/
inductive Outcome where
  | done (items : List Item) (next : Cursor) (stuck : Option Stuck)
  | failed (stuck : Stuck)
  | tooDeep
  deriving Repr

namespace Outcome

/-- The outcome of a reading that came after `items` were read and left `stuck` behind. -/
def after (items : List Item) (stuck : Option Stuck) : Outcome → Outcome
  | done more next further => done (items ++ more) next (Stuck.mergeOptions stuck further)
  | failed further => failed (Stuck.mergeOption stuck further)
  | tooDeep => tooDeep

/-- The outcome of a reading that was tried because another one failed with `stuck`. -/
def afterFailure (stuck : Stuck) : Outcome → Outcome
  | done items next further => done items next (Stuck.mergeOptions (some stuck) further)
  | failed further => failed (stuck.merge further)
  | tooDeep => tooDeep

/-- Changes the items that were read. -/
def mapItems (f : List Item → List Item) : Outcome → Outcome
  | done items next stuck => done (f items) next stuck
  | failed stuck => failed stuck
  | tooDeep => tooDeep

end Outcome

end PromqlGuide
