import PromqlGuide.Proofs.Expr.Written
import PromqlGuide.Proofs.Grammar.Accepted
import PromqlGuide.Query

/-!
# Queries with an expression

A query has an expression exactly if it is written as a grammatical tree whose node is not too deep
and stands for that expression (`Query.outcome_eq_ok_iff`).
-/
namespace PromqlGuide.Query

variable {limits : Limits}

open Written

/-- Whether a tree is written as a query and stands for an expression there. -/
structure Means (limits : Limits) (query : List Char) (e : Written) (n : Node) (a : Expr) :
    Prop where
  writes : e.Writes limits.rules query
  item : e.item 0 = .node n
  depth_le : n.depth stepsInto ≤ limits.building
  result : (Expr.ofTree query n).result = .ok a

/-- A tree has an expression exactly if there is room for the tree and all its numbers are read. -/
lemma ofExpression_eq_ok_iff {query : List Char} {n : Node} {a : Expr} :
    (ofExpression limits query n).outcome = .ok a ↔
      n.depth stepsInto ≤ limits.building ∧ (Expr.ofTree query n).result = .ok a := by
  unfold ofExpression
  split
  · next hdeep => exact iff_of_false nofun fun h => Nat.not_lt.2 h.1 hdeep
  · next hdeep =>
    refine Iff.trans ?_ (and_iff_right (Nat.not_lt.1 hdeep)).symm
    dsimp only
    split
    · next heq => simp only [heq, Except.ok.injEq]
    · next heq => simp only [heq, reduceCtorEq]

/-- A query that is written as a tree is parsed by making an expression of its node. -/
lemma parse_of_writes {query : List Char} {e : Written} {n : Node}
    (he : e.Writes limits.rules query) (hn : e.item 0 = .node n) :
    Node.ofQuery? limits query = some ⟨.root, 0, query.length, [n]⟩ ∧
      parseChars limits query = ofExpression limits query n := by
  have hread : Reading.ofQuery limits query = .accepted (some n) :=
    Reading.within_eq_accepted_iff.2 ⟨e, he, hn⟩
  refine ⟨by simp [Node.ofQuery?, hread, Node.ofReading], ?_⟩
  unfold parseChars
  rw [hread]

/-- A query has an expression exactly if it is written as a tree that stands for it. -/
theorem outcome_eq_ok_iff {query : List Char} {a : Expr} :
    (parseChars limits query).outcome = .ok a ↔ ∃ e n, Means limits query e n a := by
  constructor
  · intro h
    unfold parseChars at h
    split at h
    · cases h
    · cases h
    · cases h
    · next n hread =>
      obtain ⟨e, he, hitem⟩ := Reading.within_eq_accepted_iff.1 hread
      obtain ⟨hdepth, hresult⟩ := ofExpression_eq_ok_iff.1 h
      exact ⟨e, n, he, hitem, hdepth, hresult⟩
  · rintro ⟨e, n, he, hitem, hdepth, hresult⟩
    rw [(parse_of_writes he hitem).2]
    exact ofExpression_eq_ok_iff.2 ⟨hdepth, hresult⟩

/-- A tree that is written as a query stands at its start. -/
lemma stands_of_writes {depth : Nat} {e : Written} {query : List Char} (h : e.Writes depth query) :
    Stands query 0 [e] := by
  obtain ⟨tail, -, hlaid, rfl⟩ := h.laidOut
  exact ⟨[], tail, by simp, rfl, hlaid⟩

/-- Of two queries that are written as trees for twins, the second has the expression of the first,
but for the texts. -/
lemma exists_same_of_twin {query query' : List Char} {e' : Written} {n n' : Node} {a : Expr}
    {f : String → String} (hresult : (Expr.ofTree query n).result = .ok a)
    (hdepth : n.depth stepsInto ≤ limits.building) (htwin : Node.Twin f query query' n n')
    (he' : e'.Writes limits.rules query') (hn' : e'.item 0 = .node n') :
    ∃ a', (parseChars limits query').outcome = .ok a' ∧ Expr.Same f a a' := by
  rcases Expr.agree_ofTree htwin with ⟨err, herr, -⟩ | ⟨b, a', hb, ha', hsame⟩
  · rw [hresult] at herr
    cases herr
  · rw [hresult] at hb
    cases hb
    exact ⟨a', outcome_eq_ok_iff.2 ⟨e', n', he', hn', htwin.depth _ ▸ hdepth, ha'⟩, hsame⟩

end PromqlGuide.Query
