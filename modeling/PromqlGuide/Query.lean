import PromqlGuide.Expr.OfTree

/-!
Parsing a query: the expression that it stands for, or why there is none, and the records logged on
the way.

Main statement: a failure has a position exactly if the text of the query was rejected there
(`Failure.position?_eq_some_iff`).
-/
namespace PromqlGuide.Query

/-- How many steps lead from a node to the expressions inside it. Calls and nodes that only hand on
what is inside them list their children first, which takes two steps more. -/
def stepsInto : Kind → Nat
  | .phrase .call => 4
  | .phrase .pinned => 4
  | _ => 2

/-- Why a query has no expression. -/
inductive Failure where
  | rejected (position : Nat)
  | empty
  | tooDeep
  | numeral (cause : Text.NumeralTooLong)
  deriving Repr, DecidableEq

namespace Failure

/-- The message about queries that are nested too deep. -/
def nestingMessage : String := "Query is nested too deeply"

/-- What went wrong, in words. -/
def message : Failure → String
  | rejected _ => "Parse error in query"
  | empty => "Empty query"
  | tooDeep => nestingMessage
  | numeral cause => cause.message

/-- Where the query went wrong, if it is an error in its text. -/
def position? : Failure → Option Nat
  | rejected position => some position
  | _ => none

/-- Only a rejected query has a position, which is that of the error. -/
theorem position?_eq_some_iff {f : Failure} {position : Nat} :
    f.position? = some position ↔ f = .rejected position := by
  cases f <;> simp [position?]

/-- The message about a query without expression, with an excerpt if there is a position. -/
def report (f : Failure) (query : List Char) : String :=
  let message := "Invalid query: " ++ f.message
  match f.position? with
  | none => message
  | some position => message ++ "\n" ++ String.ofList (Text.caretExcerpt query position)

end Failure

/-- What parsing a query yields: the expression or the failure, and the records logged. -/
structure Result where
  outcome : Except Failure Expr
  records : List String
  deriving Repr

/-- What a query is answered with: whether it has an expression, the expression, and otherwise what
went wrong and where. -/
structure Answer where
  success : Bool
  expr? : Option Expr
  error? : Option String
  position? : Option Nat
  deriving Repr

/-- The answer that a result comes to. -/
def Result.answer (r : Result) : Answer :=
  match r.outcome with
  | .ok e => ⟨true, some e, none, none⟩
  | .error f => ⟨false, none, some f.message, f.position?⟩

/-- The expression of a syntax tree that was read from a query. -/
def ofExpression (limits : Limits) (query : List Char) (n : Node) : Result :=
  let shown := String.ofList (Text.quotedChars query)
  if limits.building < n.depth stepsInto then
    ⟨.error .tooDeep, ["AST for " ++ shown ++ " exceeds the recursion limit"]⟩
  else
    let noted := Expr.ofTree query n
    let records := noted.notes.map Note.message
    match noted.result with
    | .ok e => ⟨.ok e, records ++ ["Parsed " ++ shown ++ " as " ++ e.kindName]⟩
    | .error cause =>
      ⟨.error (.numeral cause), records ++ ["Unexpected failure parsing " ++ shown]⟩

/-- Parses a query, given as characters. -/
def parseChars (limits : Limits) (query : List Char) : Result :=
  match Reading.ofQuery limits query with
  | .tooDeep => ⟨.error .tooDeep, []⟩
  | .rejected stuck => ⟨.error (.rejected stuck.position), [stuck.record query]⟩
  | .accepted none => ⟨.error .empty, []⟩
  | .accepted (some n) => ofExpression limits query n

/-- Parses a query. -/
def parse (limits : Limits) (query : String) : Result := parseChars limits query.toList

end PromqlGuide.Query
