import PromqlGuide.Text.Slice

/-!
Expressions: what a query means, apart from how it is written down. Every expression keeps the text
it was made from.

Main statement: folding an expression folds its children first (`Expr.fold_eq`).
-/
namespace PromqlGuide

/-- How a label matcher compares a label with its value. `other` holds an operator that the query
language does not have. -/
inductive MatchOperator where
  | equal
  | notEqual
  | matching
  | notMatching
  | other (symbol : String)
  deriving Repr, DecidableEq

namespace MatchOperator

/-- How the operator is written. -/
def symbol : MatchOperator → String
  | equal => "="
  | notEqual => "!="
  | matching => "=~"
  | notMatching => "!~"
  | other symbol => symbol

/-- The operator written as the given symbol. -/
def ofSymbol (symbol : String) : MatchOperator :=
  if symbol = "=" then equal
  else if symbol = "!=" then notEqual
  else if symbol = "=~" then matching
  else if symbol = "!~" then notMatching
  else other symbol

/-- The operator for what is written between a label and its value: equality, unless it is one of
the other three. -/
def ofWritten (symbol : List Char) : MatchOperator :=
  if symbol = ['!', '='] then notEqual
  else if symbol = ['=', '~'] then matching
  else if symbol = ['!', '~'] then notMatching
  else equal

/-- An operator is found under its symbol. -/
theorem symbol_ofSymbol (s : String) : (ofSymbol s).symbol = s := by
  unfold ofSymbol
  split
  · simp_all [symbol]
  · split
    · simp_all [symbol]
    · split
      · simp_all [symbol]
      · split <;> simp_all [symbol]

end MatchOperator

/-- A condition on one label of a series. -/
structure Matcher where
  name : String
  operator : MatchOperator
  value : String
  deriving Repr, DecidableEq

/-- An expression. Ranges, steps and offsets are in milliseconds. `unknown` is a fragment that could
not be classified, with the expressions found in it; `bare` is text about which nothing is known. -/
inductive Expr where
  | aggregation (text operator : String) (grouping : List String) (without : Bool)
      (children : List Expr)
  | call (text function : String) (arguments : List Expr)
  | binary (text operator : String) (operands : List Expr)
  | vector (text name : String) (matchers : List Matcher) (offset : Option Int)
  | matrix (text name : String) (matchers : List Matcher) (range : Int) (offset : Option Int)
  | subquery (text : String) (children : List Expr) (range step : Option Int)
  | number (text value : String)
  | string (text value : String)
  | paren (text : String) (children : List Expr)
  | unary (text operator : String) (children : List Expr)
  | unknown (text : String) (children : List Expr)
  | bare (text : String)
  deriving Repr

namespace Expr

/-- The text that the expression was made from. -/
def text : Expr → String
  | aggregation text .. | call text .. | binary text .. | vector text .. | matrix text ..
  | subquery text .. | number text .. | string text .. | paren text .. | unary text ..
  | unknown text .. | bare text => text

/-- The expressions directly inside, in source order. -/
def children : Expr → List Expr
  | aggregation _ _ _ _ children => children
  | call _ _ arguments => arguments
  | binary _ _ operands => operands
  | subquery _ children _ _ => children
  | paren _ children => children
  | unary _ _ children => children
  | unknown _ children => children
  | vector .. | matrix .. | number .. | string .. | bare .. => []

/-- The name of the kind of expression. -/
def kindName : Expr → String
  | aggregation .. => "Aggregation"
  | call .. => "FunctionCall"
  | binary .. => "BinaryExpr"
  | vector .. => "VectorSelector"
  | matrix .. => "MatrixSelector"
  | subquery .. => "Subquery"
  | number .. => "NumberLiteral"
  | string .. => "StringLiteral"
  | paren .. => "ParenExpr"
  | unary .. => "UnaryExpr"
  | unknown .. => "ErrorNode"
  | bare .. => "ParsedNode"

mutual

/-- Combines an expression from the leaves up: `f` receives an expression and the results of its
children. -/
def fold {α : Type} (f : Expr → List α → α) : Expr → α
  | aggregation t o g w cs => f (aggregation t o g w cs) (foldList f cs)
  | call t n cs => f (call t n cs) (foldList f cs)
  | binary t o cs => f (binary t o cs) (foldList f cs)
  | subquery t cs r s => f (subquery t cs r s) (foldList f cs)
  | paren t cs => f (paren t cs) (foldList f cs)
  | unary t o cs => f (unary t o cs) (foldList f cs)
  | unknown t cs => f (unknown t cs) (foldList f cs)
  | vector t n m o => f (vector t n m o) []
  | matrix t n m r o => f (matrix t n m r o) []
  | number t v => f (number t v) []
  | string t v => f (string t v) []
  | bare t => f (bare t) []

/-- The results of a list of expressions. -/
def foldList {α : Type} (f : Expr → List α → α) : List Expr → List α
  | [] => []
  | e :: es => fold f e :: foldList f es

end

/-- The children are folded one by one. -/
theorem foldList_eq {α : Type} (f : Expr → List α → α) (es : List Expr) :
    foldList f es = es.map (fold f) := by
  induction es with
  | nil => rfl
  | cons e es ih => simp [foldList, ih]

/-- The result of an expression is made from the results of its children. -/
theorem fold_eq {α : Type} (f : Expr → List α → α) (e : Expr) :
    fold f e = f e (e.children.map (fold f)) := by
  cases e <;> simp [fold, foldList_eq, children]

/-- The expression and all inside it, each before its children, with their depths below the given
one. -/
def preorder : Expr → Nat → List (Nat × Expr) :=
  fold fun e below depth => (depth, e) :: below.flatMap fun inner => inner (depth + 1)

/-- The expression comes first, then its children's expressions, one level deeper. -/
theorem preorder_eq (e : Expr) (depth : Nat) :
    e.preorder depth = (depth, e) :: e.children.flatMap fun c => c.preorder (depth + 1) := by
  unfold preorder
  rw [fold_eq]
  simp [List.flatMap_map]

end Expr

end PromqlGuide
