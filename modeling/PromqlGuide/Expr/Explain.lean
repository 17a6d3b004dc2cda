import PromqlGuide.Expr.Basic
import PromqlGuide.Duration.Basic
import PromqlGuide.Limits
import PromqlGuide.Text.Lowercase
import PromqlGuide.Text.Quoted

/-!
What an expression computes, in one sentence, and the walk through an expression that explains
every part of it.

An explanation is missing only for a matcher operator that the language does not have or for a
number too long to be written (`Unexplained`). The explanations of all parts come in pre-order, as
far down as there is room for the walk (`Expr.steps`).
-/
namespace PromqlGuide

/-- Why an expression cannot be explained. -/
inductive Unexplained where
  | unknownOperator (symbol : String)
  | numeral (cause : Text.NumeralTooLong)
  deriving Repr, DecidableEq

/-- The message about an expression that cannot be explained; an unknown operator is quoted. -/
def Unexplained.message : Unexplained → String
  | unknownOperator symbol => Text.quoted symbol
  | numeral cause => cause.message

/-- Why there is no view of an expression: a part has no explanation, the parts are nested too deep,
or the markup of a label cannot be read. -/
inductive ViewFault where
  | unexplained (cause : Unexplained)
  | tooDeep
  | unreadable
  deriving Repr, DecidableEq

/-- What is wrong, in words. -/
def ViewFault.message : ViewFault → String
  | unexplained cause => cause.message
  | tooDeep => "maximum recursion depth exceeded"
  | unreadable => "Unreadable markup"

/-- The explanation of a phrase table, if it has one for the word. -/
def phraseFor? (table : List (String × String)) (word : String) : Option String :=
  table.lookup word

/-- What the aggregation operators do. -/
def aggregationPhrases : List (String × String) :=
  [("sum", "sums"),
    ("avg", "calculates the average of"),
    ("min", "finds the minimum of"),
    ("max", "finds the maximum of"),
    ("count", "counts"),
    ("stddev", "calculates the standard deviation of"),
    ("stdvar", "calculates the variance of"),
    ("topk", "returns the top K values of"),
    ("bottomk", "returns the bottom K values of"),
    ("quantile", "calculates a quantile of"),
    ("group", "groups")]

/-- What the functions do. -/
def functionPhrases : List (String × String) :=
  [("rate", "calculates the per-second rate of increase"),
    ("irate", "calculates the instant rate of increase"),
    ("increase", "calculates the total increase"),
    ("delta", "calculates the difference between first and last value"),
    ("histogram_quantile", "calculates a percentile from histogram buckets"),
    ("label_replace", "replaces label values using regex"),
    ("label_join", "joins label values"),
    ("abs", "returns absolute values"),
    ("ceil", "rounds up to nearest integer"),
    ("floor", "rounds down to nearest integer"),
    ("round", "rounds to nearest integer"),
    ("sqrt", "calculates square root"),
    ("exp", "calculates exponential"),
    ("ln", "calculates natural logarithm"),
    ("log2", "calculates base-2 logarithm"),
    ("log10", "calculates base-10 logarithm"),
    ("time", "returns the current Unix timestamp"),
    ("timestamp", "returns the timestamp of each sample"),
    ("absent", "returns 1 if the series is absent"),
    ("absent_over_time", "returns 1 if the series has no values in the range"),
    ("changes", "counts value changes"),
    ("resets", "counts counter resets"),
    ("deriv", "calculates the derivative using linear regression"),
    ("predict_linear", "predicts future values using linear regression"),
    ("holt_winters", "applies Holt-Winters smoothing"),
    ("clamp", "clamps values between min and max"),
    ("clamp_min", "clamps values to a minimum"),
    ("clamp_max", "clamps values to a maximum"),
    ("sort", "sorts values ascending"),
    ("sort_desc", "sorts values descending"),
    ("avg_over_time", "calculates average over time range"),
    ("min_over_time", "finds minimum over time range"),
    ("max_over_time", "finds maximum over time range"),
    ("sum_over_time", "sums values over time range"),
    ("count_over_time", "counts samples over time range"),
    ("stddev_over_time", "calculates standard deviation over time range"),
    ("stdvar_over_time", "calculates variance over time range"),
    ("last_over_time", "returns last value in time range"),
    ("present_over_time", "returns 1 if any sample exists in range"),
    ("quantile_over_time", "calculates quantile over time range")]

/-- What the binary operators do. -/
def binaryPhrases : List (String × String) :=
  [("+", "adds"),
    ("-", "subtracts"),
    ("*", "multiplies"),
    ("/", "divides"),
    ("%", "calculates modulo of"),
    ("^", "raises to the power of"),
    ("==", "checks equality of"),
    ("!=", "checks inequality of"),
    (">", "compares (greater than)"),
    ("<", "compares (less than)"),
    (">=", "compares (greater or equal)"),
    ("<=", "compares (less or equal)"),
    ("and", "performs logical AND on"),
    ("or", "performs logical OR on"),
    ("unless", "excludes matching series from")]

/-- How a matcher operator relates a label to a value. -/
def MatchOperator.relation : MatchOperator → Except Unexplained String
  | equal => .ok "equals"
  | notEqual => .ok "does not equal"
  | matching => .ok "matches regex"
  | notMatching => .ok "does not match regex"
  | other symbol => .error (.unknownOperator symbol)

/-- A condition on a label in words. -/
def Matcher.explain (m : Matcher) : Except Unexplained String := do
  let relation ← m.operator.relation
  .ok (m.name ++ " " ++ relation ++ " \"" ++ m.value ++ "\"")

namespace Expr

/-- A duration in words. -/
def durationWords (ms : Int) : Except Unexplained String :=
  (Duration.display ms).mapError .numeral

/-- A shift in time in words. -/
def offsetWords : Option Int → Except Unexplained String
  | none => .ok ""
  | some ms =>
    if ms < 0 then (durationWords (-ms)).map (", offset forward by " ++ ·)
    else (durationWords ms).map (", offset by " ++ ·)

/-- The name of a metric; a selector without one takes any. -/
def metricWords (name : String) : String := if name.isEmpty then "(any)" else name

/-- What an aggregation does. -/
def aggregationWords (operator : String) (grouping : List String) (without : Bool) : String :=
  let phrase := (phraseFor? aggregationPhrases operator).getD ("applies " ++ operator ++ " to")
  let labels := String.intercalate ", " grouping
  let rest :=
    if grouping.isEmpty then ""
    else if without then ", excluding labels: " ++ labels
    else ", grouped by: " ++ labels
  "This expression " ++ phrase ++ " the values" ++ rest

/-- What a selector of current values takes. -/
def vectorWords (name : String) (matchers : List Matcher) (offset : Option Int) :
    Except Unexplained String := do
  let conditions ← matchers.mapM Matcher.explain
  let suffix :=
    if conditions.isEmpty then "" else " where " ++ String.intercalate " AND " conditions
  let shift ← offsetWords offset
  .ok ("Selects the metric \"" ++ metricWords name ++ "\"" ++ suffix ++ shift)

/-- What a selector of values over a range takes. -/
def matrixWords (name : String) (matchers : List Matcher) (range : Int) (offset : Option Int) :
    Except Unexplained String := do
  let window ← durationWords range
  let suffix := if matchers.isEmpty then "" else " with label filters"
  let shift ← offsetWords offset
  .ok ("Selects " ++ window ++ " of data for \"" ++ metricWords name ++ "\"" ++ suffix ++ shift)

/-- What the expression computes, in one sentence. -/
def explain : Expr → Except Unexplained String
  | aggregation _ operator grouping without _ => .ok (aggregationWords operator grouping without)
  | call _ function _ =>
    let phrase := (phraseFor? functionPhrases function).getD ("applies " ++ function ++ "()")
    .ok ("The " ++ function ++ "() function " ++ phrase)
  | vector _ name matchers offset => vectorWords name matchers offset
  | matrix _ name matchers range offset => matrixWords name matchers range offset
  | binary _ operator _ =>
    let phrase := (phraseFor? binaryPhrases (Text.lowercase operator)).getD operator
    .ok ("Binary operation that " ++ phrase ++ " two expressions")
  | number _ value => .ok ("A scalar number with value " ++ value)
  | string _ value => .ok ("A string value: \"" ++ value ++ "\"")
  | paren .. => .ok "Parentheses grouping a sub-expression"
  | unary _ operator _ =>
    .ok ("Unary " ++ (if operator = "-" then "negation" else "plus") ++ " operator")
  | subquery .. => .ok "A subquery that evaluates an expression over a time range"
  | unknown .. | bare .. => .ok "PromQL expression"

/-- The explanation of one expression within a larger one. -/
structure Step where
  depth : Nat
  kind : String
  text : String
  explanation : String
  deriving Repr, DecidableEq

/-- The step for an expression at a depth, where there is room for the given number of levels. -/
def step (levels depth : Nat) (e : Expr) : Except ViewFault Step :=
  if depth < levels then
    (e.explain.mapError .unexplained).map fun explanation =>
      ⟨depth, e.kindName, e.text, explanation⟩
  else .error .tooDeep

/-- The explanations of an expression and of all inside it, in pre-order. -/
def steps (limits : Limits) (e : Expr) : Except ViewFault (List Step) :=
  (e.preorder 0).mapM fun (depth, inner) => step limits.explaining depth inner

end Expr

end PromqlGuide
