import PromqlGuide.Expr.Basic
import PromqlGuide.Grammar.Reading
import PromqlGuide.Text.Lowercase

/-!
The expression that a syntax tree stands for. Trees that the grammar did not make are read as far as
possible: unknown nodes with one expression inside stand for that expression, and parts that are
missing are left out. What had to be left out is noted.

Main statement: the expression of a node is made from those of its children (`Expr.ofTree_eq`).
-/
namespace PromqlGuide

/-- What was noted while an expression was made. -/
inductive Note where
  | incompleteMatcher (text : List Char)
  | operandCount (count : Nat) (text : List Char)
  | unrecognized (kind : Kind) (count : Nat)
  deriving Repr, DecidableEq

/-- The sentence for a note. -/
def Note.message : Note → String
  | incompleteMatcher text =>
    "Skipping incomplete label matcher: " ++ String.ofList (Text.quotedChars text)
  | operandCount count text =>
    s!"Binary expression with {count} operands: " ++ String.ofList (Text.quotedChars text)
  | unrecognized kind count =>
    let name := kind.name
    s!"Unrecognized node {name} with {count} expression children"

/-- A value with the notes made on the way to it. A refused numeral ends the way. -/
structure Noted (α : Type) where
  notes : List Note
  result : Except Text.NumeralTooLong α

namespace Noted

instance : Monad Noted where
  pure a := ⟨[], .ok a⟩
  bind m f :=
    match m.result with
    | .error e => ⟨m.notes, .error e⟩
    | .ok a => ⟨m.notes ++ (f a).notes, (f a).result⟩

/-- Makes a note. -/
def note (n : Note) : Noted Unit := ⟨[n], .ok ()⟩

/-- Goes on with a result that needs no notes. -/
def of {α : Type} (result : Except Text.NumeralTooLong α) : Noted α := ⟨[], result⟩

/-- Goes through a list in order. -/
def all {α : Type} : List (Noted α) → Noted (List α)
  | [] => pure []
  | m :: ms => do
    let a ← m
    let as ← all ms
    pure (a :: as)

end Noted

/-! ### Kinds by their part in an expression -/

/-- Whether nodes of the kind stand for expressions. -/
def Kind.isExpression : Kind → Bool
  | .wrapper | .durationNumber | .leaf .number | .leaf .string => true
  | .phrase p =>
    match p with
    | .aggregation | .call | .binary | .vectorSelector | .matrixSelector | .subquery | .paren
    | .unary | .pinned | .offset => true
    | _ => false
  | _ => false

/-- Whether the letters `Op` occur in a name. -/
def mentionsOp : List Char → Bool
  | 'O' :: 'p' :: _ => true
  | _ :: rest => mentionsOp rest
  | [] => false

/-- Whether nodes of the kind stand for operators. -/
def Kind.isOperator : Kind → Bool
  | .leaf t =>
    match t with
    | .matchOperator | .aggregationOperator => true
    | .symbol s => s != .atSign
    | .keyword k => k == .and || k == .or || k == .unlessWord || k == .atan2
    | _ => false
  | .foreign name => mentionsOp name.toList
  | _ => false

/-! ### Labels -/

/-- The label name that a matcher is about. -/
def Node.matcherName? (n : Node) (query : List Char) : Option (List Char) :=
  match n.child? [.leaf .labelName] with
  | some label => some (label.text query)
  | none => (n.child? [.phrase .quotedName]).map fun quoted => Text.inner (quoted.text query)

/-- The label matcher of a node, if it has a name and a value. -/
def Node.matcher? (n : Node) (query : List Char) : Option Matcher := do
  let name ← n.matcherName? query
  let value ← n.child? [.leaf .string]
  let operator :=
    match n.child? [.leaf .matchOperator] with
    | none => .equal
    | some o => .ofWritten (o.text query)
  some ⟨String.ofList name, operator, String.ofList (Text.inner (value.text query))⟩

/-- Whether nodes of the kind stand for label matchers. -/
def Kind.isMatcher : Kind → Bool
  | .labelMatcher | .phrase .unquotedMatcher | .phrase .quotedMatcher => true
  | _ => false

/-- The label matchers among the children of a node, in order; incomplete ones are noted. -/
def Node.matchers (n : Node) (query : List Char) : Noted (List Matcher) :=
  let candidates := n.children.filter fun c => c.kind.isMatcher
  ⟨(candidates.filter fun c => (c.matcher? query).isNone).map fun c =>
      .incompleteMatcher (c.text query),
    .ok (candidates.filterMap fun c => c.matcher? query)⟩

/-- The label names among the children of a node, in order. -/
def Node.labels (n : Node) (query : List Char) : List String :=
  (n.childrenOf (.leaf .labelName)).map fun c => String.ofList (c.text query)

/-! ### Expressions -/

/-- A node and its expression. -/
structure Part where
  node : Node
  expr : Noted Expr

/-- A child of a node with its expression, and its own children with theirs. -/
structure Branch extends Part where
  parts : List Part

namespace Expr

/-- The expressions of all parts that stand for one, in order. -/
def operands (parts : List Part) : Noted (List Expr) :=
  .all ((parts.filter fun p => p.node.kind.isExpression).map Part.expr)

/-- A list of the expression of a part, if there is one. -/
def atMostOne : Option Part → Noted (List Expr)
  | none => pure []
  | some p => do
    let e ← p.expr
    pure [e]

/-- The first part that stands for an expression. -/
def firstOperand? (parts : List Part) : Option Part :=
  parts.find? fun p => p.node.kind.isExpression

/-- The milliseconds of the duration that a node covers. -/
def duration (query : List Char) (n : Node) : Noted Nat := .of (Duration.read (n.text query))

/-- The milliseconds of the duration that a node covers, if there is a node. -/
def duration? (query : List Char) : Option Node → Noted (Option Int)
  | none => pure none
  | some n => do
    let ms ← duration query n
    pure (some ms)

variable (query : List Char) (n : Node) (branches : List Branch)

/-- The text of a node. -/
def textOf : String := String.ofList (n.text query)

/-- The first branch of one of the given kinds. -/
def branch? (kinds : List Kind) : Option Branch :=
  branches.find? fun b => decide (b.node.kind ∈ kinds)

/-- A node that only wraps its first child. -/
def ofWrapper : Noted Expr :=
  match branches with
  | [] => pure (.unknown (textOf query n) [])
  | b :: _ => b.expr

/-- An aggregation; of its arguments only the first counts. -/
def ofAggregation : Noted Expr := do
  let modifier := n.child? [.phrase .modifier]
  let labels := modifier.bind fun m => m.child? [.phrase .groupingLabels]
  let without := modifier.bind fun m => m.child? [.leaf (.keyword .without)]
  let first := (branch? branches [.phrase .callBody]).bind fun body => body.parts.head?
  let children ← atMostOne (first.filter fun p => p.node.kind.isExpression)
  let operator :=
    match n.child? [.leaf .aggregationOperator] with
    | some o => Text.lowercase (textOf query o)
    | none => "unknown"
  pure (.aggregation (textOf query n) operator ((labels.map fun l => l.labels query).getD [])
    without.isSome children)

/-- A function call. -/
def ofCall : Noted Expr := do
  let arguments ←
    match branch? branches [.phrase .callBody] with
    | none => pure []
    | some body => operands body.parts
  let function :=
    match n.child? [.leaf .functionName] with
    | some f => textOf query f
    | none => "unknown"
  pure (.call (textOf query n) function arguments)

/-- A binary operation; the last operator counts. -/
def ofBinary : Noted Expr := do
  let operands ← operands (branches.map Branch.toPart)
  let operators := n.children.filter fun c => !c.kind.isExpression && c.kind.isOperator
  if operands.length ≠ 2 then
    Noted.note (.operandCount operands.length (n.text query))
  pure (.binary (textOf query n) ((operators.getLast?.map (textOf query)).getD "") operands)

/-- The name that a selector starts with. -/
def selectorName : String :=
  ((n.child? [.leaf .metricName, .metricIdentifier]).map (textOf query)).getD ""

/-- The label matchers of a selector. -/
def selectorMatchers : Noted (List Matcher) :=
  match n.child? [.phrase .labelMatchers] with
  | none => pure []
  | some block => block.matchers query

/-- A selector of current values. -/
def ofVector : Noted Expr := do
  let matchers ← selectorMatchers query n
  pure (.vector (textOf query n) (selectorName query n) matchers none)

/-- A selector of values over a range. Applied to a call, the range is passed over. -/
def ofMatrix : Noted Expr := do
  let range ←
    match n.child? [.leaf .duration, .durationOperand] with
    | none => pure Duration.fallback
    | some d => duration query d
  match n.child? [.phrase .vectorSelector] with
  | some v =>
    let matchers ← selectorMatchers query v
    pure (.matrix (textOf query n) (selectorName query v) matchers range none)
  | none =>
    match branch? branches [.phrase .call] with
    | some inner => inner.expr
    | none => pure (.matrix (textOf query n) "" [] range none)

/-- A subquery. -/
def ofSubquery : Noted Expr := do
  let children ← atMostOne (firstOperand? (branches.map Branch.toPart))
  let durations := n.childrenOf (.leaf .duration)
  let range ← duration? query durations[0]?
  let step ← duration? query durations[1]?
  pure (.subquery (textOf query n) children range step)

/-- A selector shifted in time, under a new text; `none` for other expressions. -/
def shifted? (text : String) (offset : Int) : Expr → Option Expr
  | vector _ name matchers _ => some (vector text name matchers (some offset))
  | matrix _ name matchers range _ => some (matrix text name matchers range (some offset))
  | _ => none

/-- A shift in time. Only selectors keep it. -/
def ofOffset : Noted Expr :=
  match firstOperand? (branches.map Branch.toPart) with
  | none => pure (.unknown (textOf query n) [])
  | some part => do
    let inner ← part.expr
    match n.child? [.leaf .duration], shifted? (textOf query n) 0 inner with
    | some d, some _ =>
      let ms ← duration query d
      let offset : Int := if (n.child? [.leaf (.symbol .sub)]).isSome then -(ms : Int) else ms
      pure ((shifted? (textOf query n) offset inner).getD inner)
    | _, _ => pure inner

/-- An expression between parentheses. -/
def ofParen : Noted Expr := do
  let children ← atMostOne (firstOperand? (branches.map Branch.toPart))
  pure (.paren (textOf query n) children)

/-- A signed expression; the last sign counts. -/
def ofUnary : Noted Expr := do
  let signs := n.children.filter fun c =>
    c.kind = .leaf (.symbol .add) || c.kind = .leaf (.symbol .sub)
  let children ← operands (branches.map Branch.toPart)
  pure (.unary (textOf query n) ((signs.getLast?.map (textOf query)).getD "") children)

/-- Any other node: the one expression inside, or an unknown fragment. -/
def ofOther : Noted Expr := do
  let children ← operands (branches.map Branch.toPart)
  match children with
  | [e] => pure e
  | _ => do
    Noted.note (.unrecognized n.kind children.length)
    pure (.unknown (textOf query n) children)

/-- The expression of a node, given its branches. -/
def ofBranches : Noted Expr :=
  match n.kind with
  | .root | .wrapper => ofWrapper query n branches
  | .leaf .number | .durationNumber => pure (.number (textOf query n) (textOf query n))
  | .leaf .string =>
    pure (.string (textOf query n) (String.ofList (Text.inner (n.text query))))
  | .phrase p =>
    match p with
    | .aggregation => ofAggregation query n branches
    | .call => ofCall query n branches
    | .binary => ofBinary query n branches
    | .vectorSelector => ofVector query n
    | .matrixSelector => ofMatrix query n branches
    | .subquery => ofSubquery query n branches
    | .offset => ofOffset query n branches
    | .paren => ofParen query n branches
    | .unary => ofUnary query n branches
    | _ => ofOther query n branches
  | _ => ofOther query n branches

/-- The branch of a node, given the branches of its children. -/
def branch : Branch := ⟨⟨n, ofBranches query n branches⟩, branches.map Branch.toPart⟩

/-- The expression that a syntax tree stands for. -/
def ofTree : Noted Expr := (n.fold (branch query)).expr

/-- A branch is labelled with the node that it was made from. -/
theorem fold_branch_node : (n.fold (branch query)).node = n := by
  rw [Node.fold_eq]
  rfl

/-- The expression of a node is made from its children, their children, and their expressions. -/
theorem ofTree_eq :
    ofTree query n =
      ofBranches query n
        (n.children.map fun c =>
          ⟨⟨c, ofTree query c⟩, c.children.map fun g => ⟨g, ofTree query g⟩⟩) := by
  -- What a branch keeps of a node is the node and its expression.
  have part : ∀ c : Node, (c.fold (branch query)).toPart = ⟨c, ofTree query c⟩ := by
    intro c
    have h := fold_branch_node query c
    unfold ofTree
    generalize c.fold (branch query) = b at h ⊢
    obtain ⟨⟨node, expr⟩, parts⟩ := b
    cases h
    rfl
  have whole : ∀ c : Node, c.fold (branch query) =
      ⟨⟨c, ofTree query c⟩, c.children.map fun g => ⟨g, ofTree query g⟩⟩ := by
    intro c
    have h := part c
    have hp : (c.fold (branch query)).parts =
        c.children.map fun g => ⟨g, ofTree query g⟩ := by
      rw [Node.fold_eq]
      simp [branch, List.map_map, Function.comp_def, part]
    generalize c.fold (branch query) = b at h hp ⊢
    obtain ⟨p, parts⟩ := b
    simp only at h hp
    rw [h, hp]
  conv => lhs; unfold ofTree; rw [Node.fold_eq]
  rw [show Node.fold (branch query) = _ from funext whole]
  rfl

end Expr

end PromqlGuide
