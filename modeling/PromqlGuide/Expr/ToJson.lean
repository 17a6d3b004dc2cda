import PromqlGuide.Expr.Basic
import PromqlGuide.Json.Basic

/-!
Expressions as JSON objects. Every object starts with the type of the expression and its text. An
expression that is nested too deep has none.

Main statement: the object of an expression is made from the objects of its children
(`Expr.toJson_eq`).
-/
namespace PromqlGuide

/-- A matcher as an object. -/
def Matcher.toJson (m : Matcher) : Json :=
  .obj [("type", .str m.operator.symbol), ("name", .str m.name), ("value", .str m.value)]

namespace Expr

/-- A whole number, or nothing. -/
def intOrNull : Option Int → Json
  | none => .null
  | some n => .int n

/-- The object of an expression, given the objects of its children. -/
def object (e : Expr) (children : List Json) : Json :=
  match e with
  | aggregation text operator grouping without _ =>
    .obj
      [("type", .str "aggregation"), ("text", .str text), ("op", .str operator),
        ("grouping", .arr (grouping.map .str)), ("without", .bool without),
        ("children", .arr children)]
  | call text function _ =>
    .obj
      [("type", .str "call"), ("text", .str text), ("funcName", .str function),
        ("args", .arr children)]
  | binary text operator _ =>
    .obj
      [("type", .str "binaryExpr"), ("text", .str text), ("op", .str operator),
        ("children", .arr children)]
  | vector text name matchers offset =>
    .obj
      [("type", .str "vectorSelector"), ("text", .str text), ("name", .str name),
        ("matchers", .arr (matchers.map Matcher.toJson)), ("offset", intOrNull offset)]
  | matrix text name matchers range offset =>
    .obj
      [("type", .str "matrixSelector"), ("text", .str text), ("name", .str name),
        ("matchers", .arr (matchers.map Matcher.toJson)), ("range", .int range),
        ("offset", intOrNull offset)]
  | subquery text _ range step =>
    .obj
      [("type", .str "subquery"), ("text", .str text), ("range", intOrNull range),
        ("step", intOrNull step), ("children", .arr children)]
  | number text value =>
    .obj [("type", .str "numberLiteral"), ("text", .str text), ("value", .str value)]
  | string text value =>
    .obj [("type", .str "stringLiteral"), ("text", .str text), ("value", .str value)]
  | paren text _ =>
    .obj [("type", .str "parenExpr"), ("text", .str text), ("children", .arr children)]
  | unary text operator _ =>
    .obj
      [("type", .str "unaryExpr"), ("text", .str text), ("op", .str operator),
        ("children", .arr children)]
  | unknown text _ | bare text =>
    .obj [("type", .str "error"), ("text", .str text), ("children", .arr children)]

/-- The expression as a JSON object, however deep it is nested. -/
def toJson : Expr → Json := fold object

/-- The object of an expression holds the objects of its children. -/
theorem toJson_eq (e : Expr) : e.toJson = e.object (e.children.map toJson) := by
  unfold toJson
  rw [fold_eq]

/-- The JSON object of an expression, if it has no more than the given number of levels. -/
def toJsonWithin : Nat → Expr → Option Json
  | 0, _ => none
  | levels + 1, e => (e.children.mapM (toJsonWithin levels)).map e.object

end Expr

end PromqlGuide
