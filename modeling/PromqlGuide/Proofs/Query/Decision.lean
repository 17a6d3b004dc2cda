import PromqlGuide.Proofs.Query.Answers
import PromqlGuide.Proofs.Tree.Walk

/-!
# Decided by the tree

What parsing a query comes to can be read off its syntax tree, planted in a grove: the first error
node tells where the query is rejected, a tree without error nodes and without an expression is that
of an empty query, and otherwise the expression is made of the root's first child
(`Query.decides_of_ofQuery`).
-/
namespace PromqlGuide.Query

/-- Which outcome the tree of a node decides on. -/
inductive Decides (limits : Limits) (query : List Char) (g : Grove) (root : Nat) :
    Except Failure Expr → Prop where
  | rejected {j : Nat} {n : Node} : g.findError? root = some j → g.Holds n j →
      Decides limits query g root (.error (.rejected n.start))
  | empty : g.findError? root = none → g.firstChild? root = none →
      Decides limits query g root (.error .empty)
  | expression {c : Nat} {n : Node} : g.findError? root = none → g.firstChild? root = some c →
      g.Holds n c → Decides limits query g root (ofExpression limits query n).outcome

variable {limits : Limits} {query : List Char} {root : Node}

/-- The first error node of a syntax tree is where the query was rejected; a tree of an accepted
query has none. -/
lemma find?_isError_of_ofQuery (h : Node.ofQuery? limits query = some root) :
    root.preorder.find? Node.isError = match Reading.ofQuery limits query with
      | .rejected stuck => some ⟨.error, stuck.position, query.length, []⟩
      | _ => none := by
  cases hread : Reading.ofQuery limits query with
  | rejected stuck =>
    simp only [Node.ofQuery?, hread, Node.ofReading, Option.some.injEq] at h
    subst h
    rfl
  | _ =>
    refine List.find?_eq_none.2 fun n hn herror => ?_
    obtain ⟨stuck, hstuck⟩ := exists_isError_iff.1 ⟨root, h, n, hn, herror⟩
    cases hread.symm.trans hstuck

/-- The syntax tree of a query decides on what parsing the query comes to. -/
theorem decides_of_ofQuery (h : Node.ofQuery? limits query = some root) :
    Decides limits query (.ofNode root) (Grove.ofNode root).last
      (parseChars limits query).outcome := by
  obtain ⟨-, hholds, -⟩ := Grove.grown_ofNode root
  have herror := hholds.findError?
  rw [find?_isError_of_ofQuery h] at herror
  unfold parseChars
  cases hread : Reading.ofQuery limits query with
  | tooDeep => simp [Node.ofQuery?, hread, Node.ofReading] at h
  | rejected stuck =>
    rw [hread] at herror
    obtain ⟨j, hfound, hj⟩ := exists_of_rel_some herror
    exact .rejected hfound hj
  | accepted expression? =>
    rw [hread] at herror
    have hnone := eq_none_of_rel herror
    have hfirst := hholds.firstChild?
    have hroot : root.children = expression?.toList := by
      simp only [Node.ofQuery?, hread, Node.ofReading, Option.some.injEq] at h
      subst h
      rfl
    rw [hroot] at hfirst
    cases expression? with
    | none => exact .empty hnone (eq_none_of_rel hfirst)
    | some n =>
      obtain ⟨c, hc, hn⟩ := exists_of_rel_some hfirst
      exact .expression hnone hc hn

end PromqlGuide.Query
