import PromqlGuide.Token.Terminal

/-!
The kinds of node in a syntax tree. A tree read from a query holds its root, error nodes, tokens and
phrases; trees from other sources may hold further kinds.

Main statement: the kind found under a name has that name (`Kind.name_ofName`).
-/
namespace PromqlGuide

/-- The kinds of composite node that the grammar builds. -/
inductive Phrase where
  | aggregation | modifier | groupingLabels | callBody | call | binary | unary | paren
  | vectorSelector | labelMatchers | unquotedMatcher | quotedMatcher | quotedName
  | matrixSelector | subquery | offset | pinned | matching
  deriving Repr, DecidableEq

/-- The name of the phrase in a syntax tree. -/
def Phrase.name : Phrase → String
  | aggregation => "AggregateExpr"
  | modifier => "AggregateModifier"
  | groupingLabels => "GroupingLabels"
  | callBody => "FunctionCallBody"
  | call => "FunctionCall"
  | binary => "BinaryExpr"
  | unary => "UnaryExpr"
  | paren => "ParenExpr"
  | vectorSelector => "VectorSelector"
  | labelMatchers => "LabelMatchers"
  | unquotedMatcher => "UnquotedLabelMatcher"
  | quotedMatcher => "QuotedLabelMatcher"
  | quotedName => "QuotedLabelName"
  | matrixSelector => "MatrixSelector"
  | subquery => "SubqueryExpr"
  | offset => "OffsetExpr"
  | pinned => "StepInvariantExpr"
  | matching => "MatchingModifierClause"

/-- All phrases. -/
def Phrase.all : List Phrase :=
  [aggregation, modifier, groupingLabels, callBody, call, binary, unary, paren, vectorSelector,
    labelMatchers, unquotedMatcher, quotedMatcher, quotedName, matrixSelector, subquery, offset,
    pinned, matching]

/-- The kinds of node. The last six never come from the grammar: a wrapper around an expression, a
duration that stands for a number, another spelling of a metric name, a matcher of either form, a
duration written as a number, and anything else. -/
inductive Kind where
  | root
  | error
  | leaf (t : Terminal)
  | phrase (p : Phrase)
  | wrapper
  | durationNumber
  | metricIdentifier
  | labelMatcher
  | durationOperand
  | foreign (name : String)
  deriving Repr, DecidableEq

namespace Kind

/-- The name of the kind. -/
def name : Kind → String
  | root => "PromQL"
  | error => "⚠"
  | leaf t => t.name
  | phrase p => p.name
  | wrapper => "Expr"
  | durationNumber => "NumberDurationLiteral"
  | metricIdentifier => "MetricIdentifier"
  | labelMatcher => "LabelMatcher"
  | durationOperand => "NumberDurationLiteralInDurationContext"
  | foreign name => name

/-- All kinds that have a name of their own. -/
def named : List Kind :=
  [root, error, wrapper, durationNumber, metricIdentifier, labelMatcher, durationOperand] ++
    Terminal.all.map leaf ++ Phrase.all.map phrase

/-- The kind with the given name. -/
def ofName (name : String) : Kind :=
  (named.find? fun k => k.name == name).getD (foreign name)

/-- A kind is found under a name that it has. -/
theorem name_ofName (s : String) : (ofName s).name = s := by
  unfold ofName
  cases h : named.find? fun k => k.name == s with
  | none => rfl
  | some k => simpa using List.find?_some h

end Kind

end PromqlGuide
