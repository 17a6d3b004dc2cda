import PromqlGuide.Proofs.Expr.WellFormed
import PromqlGuide.Proofs.Query.Expression

/-!
# Expressions of queries are well formed

Whatever query has an expression, the expression is well formed all the way down, and parsing it
leaves one record, which says that it was parsed (`Query.parse_wellFormed`).  Nothing is ever left
out or noted on the way: that happens only to trees from elsewhere.
-/
namespace PromqlGuide.Query

open Written

variable {limits : Limits} {query : List Char} {a : Expr}

/-- The record of a query that was parsed. -/
def parsedRecord (query : List Char) (a : Expr) : String :=
  "Parsed " ++ String.ofList (Text.quotedChars query) ++ " as " ++ a.kindName

/-- Every node of a query that is written as a tree is as the reader leaves it. -/
lemma isRead_of_writes {depth : Nat} {e : Written} {n : Node} (he : e.Writes depth query)
    (hn : e.item 0 = .node n) : ∀ s ∈ n.preorder, s.IsRead query := by
  intro s hs
  obtain ⟨w, place, hwithin, hstands, hitem⟩ :=
    exists_within_of_mem_preorder (stands_of_writes he) hn hs
  exact isRead_of_within he.grammatical hwithin hstands hitem

/-- The node of a query that is written as a tree stands for an expression. -/
lemma isExpression_of_writes {depth : Nat} {e : Written} {n : Node} (he : e.Writes depth query)
    (hn : e.item 0 = .node n) : n.kind.isExpression = true := by
  obtain ⟨k, hk, hexpr⟩ := isExpression_of_grammatical he.grammatical
  rw [kind_of_item hn] at hk
  exact Option.some.inj hk ▸ hexpr

/-- No node of a query that is written as a tree is a wrapper. -/
lemma ne_wrapper_of_writes {depth : Nat} {e : Written} {n : Node} (he : e.Writes depth query)
    (hn : e.item 0 = .node n) : ∀ s ∈ n.preorder, s.kind ≠ .wrapper := by
  intro s hs heq
  rcases leaf_or_phrase_of_mem_preorder (stands_of_writes he) hn hs with ⟨t, hkind⟩ | ⟨p, hkind⟩
  · cases heq.symm.trans hkind
  · cases heq.symm.trans hkind

/-- If nothing is noted, the only record is that of the parsed query. -/
lemma records_ofExpression {n : Node} (h : (ofExpression limits query n).outcome = .ok a)
    (hnotes : (Expr.ofTree query n).notes = []) :
    (ofExpression limits query n).records = [parsedRecord query a] := by
  obtain ⟨hdepth, hresult⟩ := ofExpression_eq_ok_iff.1 h
  unfold ofExpression
  rw [if_neg (Nat.not_lt.2 hdepth)]
  simp only [hresult, hnotes, List.map_nil, List.nil_append, parsedRecord]

/-- The expression of a query is well formed all the way down: only an aggregation with nothing
between its parentheses is without an argument.  The only record says that the query was parsed. -/
theorem parse_wellFormed (h : (parseChars limits query).outcome = .ok a) :
    ∃ n, Node.ofQuery? limits query = some ⟨.root, 0, query.length, [n]⟩ ∧
      (∀ place m, (place, m) ∈ a.preorder 0 → m.IsWellFormed (Expr.IsEmptied query n)) ∧
      (parseChars limits query).records = [parsedRecord query a] := by
  obtain ⟨e, n, hmeans⟩ := outcome_eq_ok_iff.1 h
  have hread : Reading.ofQuery limits query = .accepted (some n) :=
    Reading.within_eq_accepted_iff.2 ⟨e, hmeans.writes, hmeans.item⟩
  have hquiet := Expr.quiet_ofTree (isRead_of_writes hmeans.writes hmeans.item)
    (isExpression_of_writes hmeans.writes hmeans.item)
  have hparse : parseChars limits query = ofExpression limits query n := by
    unfold parseChars
    rw [hread]
  refine ⟨n, ?_, hquiet.value a hmeans.result 0, ?_⟩
  · rw [Node.ofQuery?, hread]
    rfl
  · rw [hparse] at h ⊢
    exact records_ofExpression h hquiet.notes

/-- The expression of `+sum()`. -/
def signedSum : Expr := .unary "+sum()" "+" [.aggregation "sum()" "sum" [] false []]

/-- The aggregation in `+sum()` is without an argument, as it has none in the query. -/
theorem parse_signedSum :
    (parseChars .usual ['+', 's', 'u', 'm', '(', ')']).outcome = .ok signedSum ∧
      ∃ n, Node.ofQuery? .usual ['+', 's', 'u', 'm', '(', ')'] = some ⟨.root, 0, 6, [n]⟩ ∧
        (∀ place m, (place, m) ∈ signedSum.preorder 0 →
          m.IsWellFormed (Expr.IsEmptied ['+', 's', 'u', 'm', '(', ')'] n)) ∧
        (parseChars .usual ['+', 's', 'u', 'm', '(', ')']).records =
          [parsedRecord ['+', 's', 'u', 'm', '(', ')'] signedSum] := by
  have h : (parseChars .usual ['+', 's', 'u', 'm', '(', ')']).outcome = .ok signedSum := rfl
  exact ⟨h, parse_wellFormed h⟩

end PromqlGuide.Query
