import PromqlGuide.Duration.Basic
import PromqlGuide.Token.Number
import PromqlGuide.Token.Quoted
import PromqlGuide.Token.Name

/-!
The terminals of the query language: the kinds of token that appear in a syntax tree, each with its
name, the words that describe it where it was expected, and the reader that finds it in a text.
-/
namespace PromqlGuide

/-- Words with a fixed meaning, read in any letter case. -/
inductive Keyword where
  | byWord | without | offset | on | ignoring | groupLeft | groupRight | bool | atan2 | and
  | unlessWord | or
  deriving Repr, DecidableEq

namespace Keyword

/-- The letters of the word, written small. -/
def letters : Keyword → List Char
  | byWord => ['b', 'y']
  | without => ['w', 'i', 't', 'h', 'o', 'u', 't']
  | offset => ['o', 'f', 'f', 's', 'e', 't']
  | on => ['o', 'n']
  | ignoring => ['i', 'g', 'n', 'o', 'r', 'i', 'n', 'g']
  | groupLeft => ['g', 'r', 'o', 'u', 'p', '_', 'l', 'e', 'f', 't']
  | groupRight => ['g', 'r', 'o', 'u', 'p', '_', 'r', 'i', 'g', 'h', 't']
  | bool => ['b', 'o', 'o', 'l']
  | atan2 => ['a', 't', 'a', 'n', '2']
  | and => ['a', 'n', 'd']
  | unlessWord => ['u', 'n', 'l', 'e', 's', 's']
  | or => ['o', 'r']

/-- The name of the keyword's token. -/
def name : Keyword → String
  | byWord => "By"
  | without => "Without"
  | offset => "Offset"
  | on => "On"
  | ignoring => "Ignoring"
  | groupLeft => "GroupLeft"
  | groupRight => "GroupRight"
  | bool => "BoolModifier"
  | atan2 => "Atan2"
  | and => "And"
  | unlessWord => "Unless"
  | or => "Or"

/-- The keywords that no metric may be named after. -/
def reserved : List Keyword := [and, or, unlessWord, atan2, offset, bool]

/-- All keywords. -/
def all : List Keyword :=
  [byWord, without, offset, on, ignoring, groupLeft, groupRight, bool, atan2, and, unlessWord, or]

end Keyword

/-- Operators and marks that are written in symbols and appear in a syntax tree. -/
inductive Symbol where
  | add | sub | mul | div | mod | pow | eql | neq | lte | lss | gte | gtr | atSign
  deriving Repr, DecidableEq

namespace Symbol

/-- How the symbol is written. -/
def letters : Symbol → List Char
  | add => ['+']
  | sub => ['-']
  | mul => ['*']
  | div => ['/']
  | mod => ['%']
  | pow => ['^']
  | eql => ['=', '=']
  | neq => ['!', '=']
  | lte => ['<', '=']
  | lss => ['<']
  | gte => ['>', '=']
  | gtr => ['>']
  | atSign => ['@']

/-- The name of the symbol's token. -/
def name : Symbol → String
  | add => "Add"
  | sub => "Sub"
  | mul => "Mul"
  | div => "Div"
  | mod => "Mod"
  | pow => "Pow"
  | eql => "Eql"
  | neq => "Neq"
  | lte => "Lte"
  | lss => "Lss"
  | gte => "Gte"
  | gtr => "Gtr"
  | atSign => "At"

/-- All symbols. -/
def all : List Symbol := [add, sub, mul, div, mod, pow, eql, neq, lte, lss, gte, gtr, atSign]

end Symbol

/-- The aggregation operators. -/
def aggregationOperators : List (List Char) :=
  [['s', 'u', 'm'],
    ['a', 'v', 'g'],
    ['c', 'o', 'u', 'n', 't'],
    ['c', 'o', 'u', 'n', 't', '_', 'v', 'a', 'l', 'u', 'e', 's'],
    ['m', 'i', 'n'],
    ['m', 'a', 'x'],
    ['g', 'r', 'o', 'u', 'p'],
    ['s', 't', 'd', 'd', 'e', 'v'],
    ['s', 't', 'd', 'v', 'a', 'r'],
    ['t', 'o', 'p', 'k'],
    ['b', 'o', 't', 't', 'o', 'm', 'k'],
    ['q', 'u', 'a', 'n', 't', 'i', 'l', 'e'],
    ['l', 'i', 'm', 'i', 't', 'k'],
    ['l', 'i', 'm', 'i', 't', '_', 'r', 'a', 't', 'i', 'o']]

/-- The operators of label matchers, in the order in which they are tried. -/
def matchOperators : List (List Char) := [['=', '~'], ['!', '~'], ['!', '='], ['=']]

/-- The kinds of token that appear in a syntax tree. -/
inductive Terminal where
  | number | timestamp | string | duration | labelName | metricName | functionName
  | matchOperator | aggregationOperator | startOrEnd
  | keyword (k : Keyword)
  | symbol (s : Symbol)
  deriving Repr, DecidableEq

namespace Terminal

/-- The name of the token. -/
def name : Terminal → String
  | number => "NumberLiteral"
  | timestamp => "Timestamp"
  | string => "StringLiteral"
  | duration => "Duration"
  | labelName => "LabelName"
  | metricName => "Identifier"
  | functionName => "FunctionIdentifier"
  | matchOperator => "MatchOp"
  | aggregationOperator => "AggregateOp"
  | startOrEnd => "AtModifierPreprocessors"
  | keyword k => k.name
  | symbol s => s.name

/-- What a message about a missing token calls it. -/
def description : Terminal → String
  | number => "number"
  | timestamp => "timestamp"
  | string => "string"
  | duration => "duration"
  | labelName => "label name"
  | metricName => "metric name"
  | functionName => "function name"
  | matchOperator => "match operator"
  | aggregationOperator => "aggregation operator"
  | startOrEnd => "start() or end()"
  | keyword k => String.ofList k.letters
  | symbol s => s.name

/-- Length of the literal text at the start of a text, if it is there. -/
def literalLength? (literal : List Char) (cs : List Char) : Option Nat :=
  if literal.isPrefixOf cs then some literal.length else none

/-- Length of the token at the start of a text. -/
def length? : Terminal → List Char → Option Nat
  | number => Number.tokenLength?
  | timestamp => Number.tokenLength?
  | string => Quoted.tokenLength?
  | duration => Duration.tokenLength?
  | labelName => Name.labelLength?
  | metricName => Name.metricLength? (Keyword.reserved.map Keyword.letters)
  | functionName => Name.functionLength? aggregationOperators
  | matchOperator => fun cs => matchOperators.findSome? (literalLength? · cs)
  | aggregationOperator => Name.anyWordLength? aggregationOperators
  | startOrEnd => fun cs =>
    Name.emptyCallLength? ['s', 't', 'a', 'r', 't'] cs <|>
      Name.emptyCallLength? ['e', 'n', 'd'] cs
  | keyword k => Name.wordLength? k.letters
  | symbol s => literalLength? s.letters

/-- All terminals. -/
def all : List Terminal :=
  [number, timestamp, string, duration, labelName, metricName, functionName, matchOperator,
    aggregationOperator, startOrEnd] ++ Keyword.all.map keyword ++ Symbol.all.map symbol

end Terminal

end PromqlGuide
