import PromqlGuide.Proofs.Grammar.Parallel

/-!
# Readings stay inside the query

Reading moves forward and never past the end of the query, and the furthest point at which something
was missing lies inside the query too (`Rule.inside_read`).  So a rejected query is rejected at a
position of its own (`Reading.position_le_of_rejected`).

The reader builds the node of a phrase from the first and the last item that it read, so it relies
on there being one: whatever the reader does, the items of a phrase are never missing
(`Rule.fillsPhrases`).
-/
namespace PromqlGuide

open Text Written

/-! ### Where the query ends -/

/-- The position at which the query of a cursor ends. -/
def Cursor.limit (c : Cursor) : Nat := c.position + c.rest.length

/-- Whether an outcome stays inside a query that ends at a position. -/
def Outcome.Inside (limit : Nat) : Outcome → Prop
  | done _ next stuck => next.limit = limit ∧ ∀ s ∈ stuck, s.position ≤ limit
  | failed stuck => stuck.position ≤ limit
  | tooDeep => True

/-- Moving on inside a query does not change where it ends. -/
lemma Cursor.limit_advance {c : Cursor} {n : Nat} (h : n ≤ c.rest.length) :
    (c.advance n).limit = c.limit := by
  simp only [limit, advance, List.length_drop]
  omega

/-- Skipping blank text does not change where a query ends. -/
lemma Cursor.limit_skipBlank (c : Cursor) : c.skipBlank.limit = c.limit :=
  limit_advance (blankLength_le c.rest)

/-- While a query is read, the place where it ends stays the same, and the points that are not got
past lie in front of it. -/
lemma steady_limit (limit : Nat) : Steady (fun c => c.limit = limit) (· ≤ limit) := by
  refine ⟨?_, ?_⟩
  · rintro c rfl
    exact Nat.le_add_right c.position c.rest.length
  · rintro c x n rfl - hlength
    rw [Cursor.limit_advance (Lexical.length_le hlength), Cursor.limit_skipBlank]

/-- An outcome that keeps the end of the query stays inside it. -/
lemma Outcome.inside_of_keeps {limit : Nat} {o : Outcome}
    (h : o.Keeps (fun c => c.limit = limit) (· ≤ limit)) : o.Inside limit := by
  cases o <;> exact h

/-- Whether a reader stays inside every query. -/
def StaysInside (read : Cursor → Outcome) : Prop := ∀ c, (read c).Inside c.limit

/-- Reading by a rule stays inside the query. -/
theorem Rule.inside_read (depth : Nat) (r : Rule) : StaysInside (Rule.read depth r) :=
  fun c => Outcome.inside_of_keeps (Rule.keeps_read (steady_limit c.limit) depth r rfl)

/-- A query is rejected at a position inside it. -/
theorem Reading.position_le_of_rejected {depth : Nat} {query : List Char} {stuck : Stuck}
    (h : Reading.within depth query = .rejected stuck) : stuck.position ≤ query.length := by
  have hstart : (Cursor.start query).limit = query.length := by
    simp [Cursor.limit, Cursor.start]
  have hinside := Outcome.inside_of_keeps ((steady_limit query.length).query depth hstart)
  unfold Reading.within at h
  cases hread : (Form.optional (.rule .expression)).read (Rule.read depth) (.start query) with
  | done items next further =>
    rw [hread] at h hinside
    have hend : next.skipBlank.position ≤ query.length := by
      rw [← hinside.1, ← Cursor.limit_skipBlank next]
      exact Nat.le_add_right _ _
    simp only [Reading.ofOutcome] at h
    split at h
    · cases h
    · cases h
      rcases (Stuck.mergeOption_position further ⟨next.skipBlank.position, [.endOfQuery]⟩).2 with
        heq | ⟨s, hs, heq⟩
      · exact heq ▸ hend
      · exact heq ▸ hinside.2 s hs
  | failed further =>
    rw [hread] at h hinside
    cases h
    exact hinside
  | tooDeep =>
    rw [hread] at h
    cases h

/-! ### The items of a phrase -/

namespace Form

/-- The bodies of all phrases in a form. -/
def bodies : Form → List Form
  | token _ | mark _ | nothing | rule _ => []
  | seq f g | choice f g | graft f g => f.bodies ++ g.bodies
  | many f => f.bodies
  | phrase _ body => body :: body.bodies

end Form

namespace Rule

/-- The body of every phrase of a rule is well made and reads some text. -/
lemma wellMade_of_mem_bodies {r : Rule} {body : Form} (h : body ∈ r.form.bodies) :
    body.advances = true ∧ body.wellMade = true := by
  have hall : ∀ r : Rule, (r.form.bodies.all fun f => f.advances && f.wellMade) = true := by
    intro r
    cases r <;> rfl
  exact Bool.and_eq_true_iff.1 (List.all_eq_true.1 (hall r) body h)

/-- Whether the items of phrases are never missing: at no depth and no cursor does the body of a
phrase of the rule yield an empty list. -/
def FillsPhrases (r : Rule) : Prop :=
  ∀ body ∈ r.form.bodies, ∀ (depth : Nat) (c next : Cursor) (items : List Item)
    (stuck : Option Stuck), body.read (Rule.read depth) c = .done items next stuck → items ≠ []

/-- The items of a phrase are never missing, whatever is read and whether or not the query is
accepted. -/
theorem fillsPhrases (r : Rule) : r.FillsPhrases := by
  intro body h depth c next items stuck hread
  obtain ⟨hadvances, hwellMade⟩ := wellMade_of_mem_bodies h
  -- A reading that is done is a run, and a run of an advancing form has read some text.
  obtain ⟨ps, -, hrun, rfl⟩ := Form.exists_run_of_done hwellMade hread
  intro hnil
  rw [items_eq_nil_iff] at hnil
  exact Form.textAll_ne_nil_of_run (fun _ _ _ => isProperNode_of_run) hadvances hrun
    (congrArg textAll hnil)

end Rule

end PromqlGuide
