import PromqlGuide.Grammar.Form

/-!
The grammar of queries. From loosest to tightest binding the binary operators are `or`; `and` and
`unless`; comparisons; sums; products and `atan2`; a sign; and `^`, which groups to the right. All
others group to the left.
-/
namespace PromqlGuide.Grammar

open Form

/-- The token of a keyword. -/
def keyword (k : Keyword) : Form := token (.keyword k)

/-- The token of a symbol. -/
def symbol (s : Symbol) : Form := token (.symbol s)

/-! ### Selectors -/

/-- A label name written as a string. -/
def quotedName : Form := phrase .quotedName (token .string)

/-- One label matcher, or a quoted name alone. -/
def matcher : Form :=
  oneOf
    (phrase .unquotedMatcher
      (sequence [token .labelName, token .matchOperator, token .string]))
    [phrase .quotedMatcher (sequence [quotedName, token .matchOperator, token .string]),
      quotedName]

/-- The label matchers between braces. -/
def labelMatchers : Form :=
  phrase .labelMatchers
    (sequence [mark '\x7b', commaSeparated matcher, optional (mark ','), mark '\x7d'])

/-- A metric name, label matchers, or both. -/
def vectorSelector : Form :=
  phrase .vectorSelector
    (choice (seq (token .metricName) (optional labelMatchers)) labelMatchers)

/-! ### Calls and aggregations -/

/-- Label names between parentheses. -/
def groupingLabels : Form :=
  phrase .groupingLabels
    (sequence [mark '(', commaSeparated (token .labelName), optional (mark ','), mark ')'])

/-- The arguments of a call. -/
def callBody : Form :=
  phrase .callBody (sequence [mark '(', commaSeparated (rule .expression), mark ')'])

/-- A function call. -/
def call : Form := phrase .call (seq (token .functionName) callBody)

/-- Which labels an aggregation keeps or drops. -/
def modifier : Form :=
  phrase .modifier (seq (choice (keyword .byWord) (keyword .without)) groupingLabels)

/-- An aggregation, with its modifier before or after the arguments. -/
def aggregation : Form :=
  phrase .aggregation
    (seq (token .aggregationOperator)
      (choice (seq modifier callBody) (seq callBody (optional modifier))))

/-- An expression between parentheses. -/
def paren : Form := phrase .paren (sequence [mark '(', rule .expression, mark ')'])

/-- An expression without operators. -/
def primary : Form :=
  oneOf paren [aggregation, call, token .number, token .string, vectorSelector]

/-! ### Postfixes -/

/-- A range of time. -/
def range : Form := phrase .matrixSelector (sequence [mark '[', token .duration, mark ']'])

/-- A range of time with the step at which to evaluate. -/
def subquery : Form :=
  phrase .subquery
    (sequence [mark '[', token .duration, mark ':', optional (token .duration), mark ']'])

/-- A shift in time. -/
def offset : Form :=
  phrase .offset (sequence [keyword .offset, optional (symbol .sub), token .duration])

/-- A fixed time of evaluation. -/
def pin : Form :=
  phrase .pinned (seq (symbol .atSign) (choice (token .timestamp) (token .startOrEnd)))

/-- A primary expression and its postfixes, each around all before it. -/
def postfixed : Form := graft primary (many (oneOf range [subquery, offset, pin]))

/-! ### Operators -/

/-- How the series of two operands are matched. -/
def matching : Form :=
  phrase .matching
    (sequence
      [choice (keyword .on) (keyword .ignoring), groupingLabels,
        optional
          (seq (choice (keyword .groupLeft) (keyword .groupRight)) (optional groupingLabels))])

/-- The modifiers of a binary operator. -/
def modifiers : Form := seq (optional (keyword .bool)) (optional matching)

/-- An operator with its modifiers and its right operand. -/
def operation (operator right : Form) : Form :=
  phrase .binary (sequence [operator, modifiers, right])

/-- A power; the exponent may have a sign and be a power itself. -/
def power : Form := graft postfixed (optional (operation (symbol .pow) (rule .signed)))

/-- An expression with any number of signs in front. -/
def signed : Form :=
  choice (phrase .unary (seq (choice (symbol .sub) (symbol .add)) (rule .signed))) power

/-- Operands with operators of one level between them, grouped to the left. -/
def chain (operand operator : Form) : Form := graft operand (many (operation operator operand))

/-- Products. -/
def product : Form :=
  chain (rule .signed)
    (oneOf (symbol .mul) [symbol .div, symbol .mod, keyword .atan2])

/-- Sums. -/
def sum : Form := chain product (choice (symbol .add) (symbol .sub))

/-- Comparisons. -/
def comparison : Form :=
  chain sum
    (oneOf (symbol .eql)
      [symbol .neq, symbol .lte, symbol .lss, symbol .gte, symbol .gtr])

/-- Intersections and differences. -/
def conjunction : Form := chain comparison (choice (keyword .and) (keyword .unlessWord))

/-- Unions. -/
def disjunction : Form := chain conjunction (keyword .or)

end PromqlGuide.Grammar

namespace PromqlGuide

/-- The form that a rule stands for. -/
def Rule.form : Rule → Form
  | expression => Grammar.disjunction
  | signed => Grammar.signed

/-- Reads by a rule, following rules down to the given depth. -/
def Rule.read : Nat → Rule → Cursor → Outcome
  | 0, _, _ => .tooDeep
  | depth + 1, r, c => r.form.read (Rule.read depth) c

end PromqlGuide
