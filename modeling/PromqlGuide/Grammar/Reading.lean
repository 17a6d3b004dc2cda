import PromqlGuide.Grammar.Rules
import PromqlGuide.Limits
import PromqlGuide.Text.Quoted

/-!
Reading a whole query: an expression or nothing, blank text, and the end. A query that reads to its
end is accepted; any other is rejected at the furthest point at which something was missing.

Main statement: the root of a tree covers the whole query (`Node.ofReading_range`).
-/
namespace PromqlGuide

/-- The result of reading a query. -/
inductive Reading where
  | accepted (expression? : Option Node)
  | rejected (stuck : Stuck)
  | tooDeep
  deriving Repr

/-- The reading of a query from its outcome: blank text may follow, and then the query must be
over. -/
def Reading.ofOutcome : Outcome → Reading
  | .failed stuck => .rejected stuck
  | .tooDeep => .tooDeep
  | .done items next stuck =>
    let here := next.skipBlank
    match here.rest with
    | [] => .accepted (items.findSome? Item.node?)
    | _ :: _ => .rejected (Stuck.mergeOption stuck ⟨here.position, [.endOfQuery]⟩)

/-- Reads a query with a bound on the nesting. -/
def Reading.within (depth : Nat) (query : List Char) : Reading :=
  .ofOutcome ((Form.optional (.rule .expression)).read (Rule.read depth) (.start query))

/-- Reads a query. -/
def Reading.ofQuery (limits : Limits) (query : List Char) : Reading := .within limits.rules query

/-! ### Messages about rejected queries -/

/-- What was expected, and the line and column where it was missing, both counted from zero. -/
def Stuck.message (stuck : Stuck) (query : List Char) : String :=
  let expected := (stuck.expected.map fun e => Text.quoted e.description).eraseDups
  let sorted := expected.mergeSort fun a b => decide (a ≤ b)
  let line := Text.lineNumber query stuck.position
  let column := Text.column query stuck.position
  match sorted with
  | [one] => s!"expected {one} at {line}:{column}"
  | many =>
    let listed := String.intercalate ", " many
    s!"expected one of {listed} at {line}:{column}"

/-- The record of a rejected query: where and what was expected, and an excerpt with a caret. -/
def Stuck.record (stuck : Stuck) (query : List Char) : String :=
  let position := stuck.position
  let message := stuck.message query
  let excerpt := String.ofList (Text.caretExcerpt query position)
  s!"Syntax error at {position}: {message}\n{excerpt}"

/-! ### Trees -/

/-- The syntax tree of a query: a root over the whole query, with the expression, if there is one,
or an error node from the point where reading got stuck. Queries nested too deep have none. -/
def Node.ofReading (length : Nat) : Reading → Option Node
  | .accepted expression? => some ⟨.root, 0, length, expression?.toList⟩
  | .rejected stuck => some ⟨.root, 0, length, [⟨.error, stuck.position, length, []⟩]⟩
  | .tooDeep => none

/-- The syntax tree of a query, unless it is nested too deep. -/
def Node.ofQuery? (limits : Limits) (query : List Char) : Option Node :=
  Node.ofReading query.length (Reading.ofQuery limits query)

/-- The tree of a reading is a root that covers the whole query. -/
theorem Node.ofReading_range {length : Nat} {r : Reading} {root : Node}
    (h : Node.ofReading length r = some root) :
    root.kind = .root ∧ root.start = 0 ∧ root.stop = length := by
  cases r <;> simp [Node.ofReading] at h <;> subst h <;> simp

end PromqlGuide
