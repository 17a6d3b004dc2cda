import PromqlGuide.Proofs.Expr.Refusal
import PromqlGuide.Proofs.Query.Expression
import PromqlGuide.Proofs.Text.Blank
import PromqlGuide.Proofs.Tree.Nested

/-!
# Answers

Every query is answered in one of four ways: with an expression, with the position of an error in
its text, as an empty query, or as one that is refused, because it is nested too deep or has a
numeral of too many digits (`Query.parse_answer`).  The way is told by what is in the answer, and
for empty and rejected queries it can be told from the text and from the syntax tree.
-/
namespace PromqlGuide

open Text Written

namespace Query

/-- The ways in which a query is answered. -/
inductive Ending where
  | parsed
  | rejected
  | empty
  | refused
  deriving Repr, DecidableEq

/-- The messages about queries that are refused whatever their syntax. -/
def IsRefusal (message : String) : Prop :=
  message = "Query is nested too deeply" ∨
    ∃ digits, numeralLimit < digits ∧ message = (NumeralTooLong.reading digits).message

/-- Whether an answer to a query is of one of the four ways. -/
def Answer.EndsAs (query : List Char) (a : Answer) : Ending → Prop
  | .parsed => a.success = true ∧ a.expr?.isSome = true ∧ a.error? = none ∧ a.position? = none
  | .rejected => a.success = false ∧ a.expr? = none ∧ a.error? = some "Parse error in query" ∧
      ∃ position ≤ query.length, a.position? = some position
  | .empty => a.success = false ∧ a.expr? = none ∧ a.error? = some "Empty query" ∧
      a.position? = none
  | .refused => a.success = false ∧ a.expr? = none ∧ a.position? = none ∧
      ∃ message, a.error? = some message ∧ message ≠ "" ∧ IsRefusal message

variable {limits : Limits} {query : List Char} {k k' : Ending} {message : String}

/-! ### The four ways exclude one another -/

/-- The message about a number with too many digits starts with the limit. -/
lemma exists_message_reading (digits : Nat) : ∃ rest : String,
    (NumeralTooLong.reading digits).message = "Exceeds the limit (" ++ rest := by
  unfold NumeralTooLong.message
  dsimp only
  generalize toString numeralLimit = limit
  rw [String.append_assoc, String.append_assoc]
  exact ⟨_, rfl⟩

/-- A refusal is neither without a message nor the one of empty queries. -/
lemma IsRefusal.ne (h : IsRefusal message) : message ≠ "" ∧ message ≠ "Empty query" := by
  rcases h with rfl | ⟨digits, -, rfl⟩
  · decide
  · obtain ⟨rest, hrest⟩ := exists_message_reading digits
    have hlist : (NumeralTooLong.reading digits).message.toList =
        "Exceeds the limit (".toList ++ rest.toList := by
      rw [hrest, String.toList_append]
    constructor <;> intro heq <;> rw [heq] at hlist <;> cases hlist

namespace Answer.EndsAs

variable {a : Answer}

/-- An answer is that of a parsed query exactly if it is a success. -/
lemma parsed_iff (h : a.EndsAs query k) : k = .parsed ↔ a.success = true := by
  cases k <;> simp [h.1]

/-- An answer is that of a rejected query exactly if it has a position. -/
lemma rejected_iff (h : a.EndsAs query k) : k = .rejected ↔ a.position?.isSome = true := by
  cases k with
  | parsed => simp [h.2.2.2]
  | rejected =>
    obtain ⟨position, -, hposition⟩ := h.2.2.2
    simp [hposition]
  | empty => simp [h.2.2.2]
  | refused => simp [h.2.2.1]

/-- An answer is that of an empty query exactly if its message says so. -/
lemma empty_iff (h : a.EndsAs query k) : k = .empty ↔ a.error? = some "Empty query" := by
  cases k with
  | parsed => simp [h.2.2.1]
  | rejected => simp [h.2.2.1]
  | empty => simp [h.2.2.1]
  | refused =>
    obtain ⟨message, hmessage, -, hrefusal⟩ := h.2.2.2
    simp [hmessage, hrefusal.ne.2]

/-- The four ways exclude one another. -/
lemma unique (h : a.EndsAs query k) (h' : a.EndsAs query k') : k = k' := by
  have hparsed := h.parsed_iff.trans h'.parsed_iff.symm
  have hrejected := h.rejected_iff.trans h'.rejected_iff.symm
  have hempty := h.empty_iff.trans h'.empty_iff.symm
  cases k <;> cases k' <;> simp_all

end Answer.EndsAs

/-! ### Outcomes -/

/-- The way in which an outcome is answered. -/
def ending : Except Failure Expr → Ending
  | .ok _ => .parsed
  | .error (.rejected _) => .rejected
  | .error .empty => .empty
  | .error .tooDeep => .refused
  | .error (.numeral _) => .refused

/-- Which outcome a reading can lead to. -/
inductive LeadsTo (query : List Char) : Reading → Except Failure Expr → Prop where
  | tooDeep : LeadsTo query .tooDeep (.error .tooDeep)
  | rejected {stuck : Stuck} : stuck.position ≤ query.length →
      LeadsTo query (.rejected stuck) (.error (.rejected stuck.position))
  | empty : LeadsTo query (.accepted none) (.error .empty)
  | parsed {n : Node} {e : Expr} : LeadsTo query (.accepted (some n)) (.ok e)
  | nested {n : Node} : LeadsTo query (.accepted (some n)) (.error .tooDeep)
  | numeral {n : Node} {digits : Nat} : numeralLimit < digits →
      LeadsTo query (.accepted (some n)) (.error (.numeral (.reading digits)))

/-- The outcome of a query is one that its reading can lead to. -/
lemma leadsTo_outcome (query : List Char) :
    LeadsTo query (Reading.ofQuery limits query) (parseChars limits query).outcome := by
  unfold parseChars
  cases hread : Reading.ofQuery limits query with
  | tooDeep => exact .tooDeep
  | rejected stuck => exact .rejected (Reading.position_le_of_rejected hread)
  | accepted expression? =>
    cases expression? with
    | none => exact .empty
    | some n =>
      show LeadsTo query _ (ofExpression limits query n).outcome
      unfold ofExpression
      dsimp only
      split
      · exact .nested
      · cases hresult : (Expr.ofTree query n).result with
        | ok e => exact .parsed
        | error cause =>
          obtain ⟨digits, hdigits, rfl⟩ := Expr.exists_digits_of_error hresult
          exact .numeral hdigits

namespace LeadsTo

variable {r : Reading} {o : Except Failure Expr} {records : List String}

/-- The answer is of the way that its outcome tells. -/
lemma endsAs (h : LeadsTo query r o) : (Result.answer ⟨o, records⟩).EndsAs query (ending o) := by
  have refused : ∀ message, IsRefusal message →
      (Answer.mk false none (some message) none).EndsAs query .refused := by
    intro message hmessage
    exact ⟨rfl, rfl, rfl, message, rfl, hmessage.ne.1, hmessage⟩
  cases h with
  | tooDeep | nested => exact refused _ (Or.inl rfl)
  | rejected hposition => exact ⟨rfl, rfl, rfl, _, hposition, rfl⟩
  | empty | parsed => exact ⟨rfl, rfl, rfl, rfl⟩
  | numeral hdigits => exact refused _ (Or.inr ⟨_, hdigits, rfl⟩)

/-- A query is answered as empty exactly if it is read without an expression. -/
lemma ending_eq_empty_iff (h : LeadsTo query r o) : ending o = .empty ↔ r = .accepted none := by
  cases h <;> simp [ending]

/-- A query that is rejected is rejected where its reading got stuck. -/
lemma exists_rejected {position : Nat} (h : LeadsTo query r (.error (.rejected position))) :
    ∃ stuck, r = .rejected stuck ∧ stuck.position = position := by
  cases h with
  | rejected => exact ⟨_, rfl, rfl⟩

/-- A query is answered as rejected exactly if its reading got stuck. -/
lemma ending_eq_rejected_iff (h : LeadsTo query r o) :
    ending o = .rejected ↔ ∃ stuck, r = .rejected stuck := by
  cases h <;> simp [ending]

end LeadsTo

/-- A query is answered as empty exactly if it is all blank text. -/
lemma ending_eq_empty_iff : ending (parseChars limits query).outcome = .empty ↔
    isTail query = true :=
  (leadsTo_outcome query).ending_eq_empty_iff.trans
    (Reading.within_eq_accepted_none_iff (limits.lt_rules (by decide)))

/-- The outcome of a query is that it is empty exactly if it is all blank text. -/
lemma outcome_eq_empty_iff :
    (parseChars limits query).outcome = .error .empty ↔ isTail query = true := by
  rw [← ending_eq_empty_iff]
  cases (parseChars limits query).outcome with
  | ok e => simp [ending]
  | error f => cases f <;> simp [ending]

/-- The outcome of a query is that it is rejected exactly if its reading got stuck there. -/
lemma outcome_eq_rejected_iff {position : Nat} :
    (parseChars limits query).outcome = .error (.rejected position) ↔
      ∃ stuck, Reading.ofQuery limits query = .rejected stuck ∧ stuck.position = position := by
  constructor
  · intro h
    have hleads : LeadsTo query (Reading.ofQuery limits query) _ := leadsTo_outcome query
    rw [h] at hleads
    exact hleads.exists_rejected
  · rintro ⟨stuck, hread, rfl⟩
    unfold parseChars
    rw [hread]

/-- An answer is of the way that its outcome tells, and of no other. -/
lemma endsAs_iff : (parseChars limits query).answer.EndsAs query k ↔
    k = ending (parseChars limits query).outcome := by
  have hends : (parseChars limits query).answer.EndsAs query
    (ending (parseChars limits query).outcome) :=
    (leadsTo_outcome query).endsAs
  constructor
  · exact fun h => h.unique hends
  · rintro rfl
    exact hends

/-- The tree of a query holds an error node exactly if the query is rejected. -/
lemma exists_isError_iff :
    (∃ root, Node.ofQuery? limits query = some root ∧ ∃ n ∈ root.preorder, n.isError = true) ↔
      ∃ stuck, Reading.ofQuery limits query = .rejected stuck := by
  unfold Node.ofQuery?
  cases hread : Reading.ofQuery limits query with
  | tooDeep => simp [Node.ofReading]
  | rejected stuck =>
    refine iff_of_true ⟨_, rfl, ⟨.error, stuck.position, query.length, []⟩, ?_, rfl⟩ ⟨stuck, rfl⟩
    exact Node.mem_preorder_iff.2 (Or.inr ⟨_, List.mem_singleton_self _, Node.mem_preorder_self _⟩)
  | accepted expression? =>
    refine iff_of_false ?_ (by simp)
    rintro ⟨root, hroot, n, hn, herror⟩
    cases hroot
    rcases Node.mem_preorder_iff.1 hn with rfl | ⟨c, hc, hbelow⟩
    · cases herror
    · obtain rfl := Option.mem_toList.1 hc
      obtain ⟨e, he, hitem⟩ := Reading.within_eq_accepted_iff.1 hread
      rw [isError_of_mem_preorder (stands_of_writes he) hitem hbelow] at herror
      cases herror

/-- Every query is answered in exactly one of the four ways.  It is answered as empty exactly if
there is nothing in it but whitespace and comments, and as rejected exactly if its syntax tree holds
an error node. -/
theorem parse_answer (query : List Char) :
    (∃! k, (parseChars limits query).answer.EndsAs query k) ∧
      ((parseChars limits query).answer.EndsAs query .empty ↔ IsBlank true query) ∧
      ((parseChars limits query).answer.EndsAs query .rejected ↔
        ∃ root, Node.ofQuery? limits query = some root ∧
        ∃ n ∈ root.preorder, n.isError = true) := by
  refine ⟨⟨ending (parseChars limits query).outcome, endsAs_iff.2 rfl, fun k hk => endsAs_iff.1 hk⟩,
    ?_, ?_⟩
  · rw [endsAs_iff, eq_comm, ending_eq_empty_iff, isTail_iff_isBlank]
  · rw [endsAs_iff, eq_comm, (leadsTo_outcome query).ending_eq_rejected_iff, exists_isError_iff]

end Query

end PromqlGuide
