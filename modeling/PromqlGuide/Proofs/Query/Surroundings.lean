import PromqlGuide.Proofs.Expr.Written
import PromqlGuide.Proofs.Grammar.Parallel
import PromqlGuide.Proofs.Query.Answers
import PromqlGuide.Proofs.Written.Indent
import PromqlGuide.Proofs.Written.Spacing

/-!
# Blank text around a query

Blank text in front of a query and behind it does not change how it is answered: it has the same
expression or is empty as before, and where it is rejected the position is as much further on as
there is blank text in front (`Query.parse_surrounded`).

For accepted queries the tree that is written gets other gaps.  A query that is rejected has no such
tree; there the two readings are followed side by side, and they stand at corresponding places from
the first token on.
-/
namespace PromqlGuide

open Text Written

/-! ### Accepted queries -/

namespace Written

variable {depth : Nat} {e : Written} {query before after : List Char}

/-- A tree with more blank text in front of it is written as the query with more blank text around
it. -/
lemma Writes.indent (he : e.Writes depth query) (hbefore : isGap before = true)
    (hafter : isTail after = true) :
    (e.indent before).Writes depth (before ++ query ++ after) := by
  obtain ⟨tail, htail, hlaid, rfl⟩ := he.laidOut
  have halike := alike_indent before e
  have hmore := isTail_append htail hafter
  refine ⟨halike.grammatical he.grammatical, ?_, tail ++ after, hmore, ?_, ?_⟩
  · rw [halike.nesting]
    exact he.nesting_lt
  · exact laid_indent hbefore (laid_tail he.grammatical hlaid hmore)
  · rw [text_indent (.expression he.grammatical)]
    simp

end Written

namespace Query

variable {limits : Limits} {query before after : List Char} {a : Expr} {p : Nat}

/-- An accepted query has the same expression with blank text around it. -/
lemma parse_ok_of_surrounded (hbefore : isGap before = true) (hafter : isTail after = true)
    (h : (parseChars limits query).outcome = .ok a) :
    (parseChars limits (before ++ query ++ after)).outcome = .ok a := by
  obtain ⟨e, n, he, hn, hdepth, hresult⟩ := outcome_eq_ok_iff.1 h
  have hwrites := he.indent hbefore hafter
  obtain ⟨n', hn'⟩ := exists_node_of_isNode (isNode_of_grammatical hwrites.grammatical) 0
  -- Without the first gap both trees are the same, so they stand for twins.
  have hbare : (e.indent before).bare.item (0 + (e.indent before).firstGap.length) = .node n' :=
    (item_bare _ 0).trans hn'
  have hplace := stands_bare (stands_of_writes hwrites)
  rw [bare_indent] at hbare hplace
  have hformed := formed_of_grammatical ((Alike.bare e).grammatical he.grammatical)
  have htwin : Node.Twin id query (before ++ query ++ after) n n' :=
    twin_of_stands hformed (stands_bare (stands_of_writes he)) hplace
      ((item_bare e 0).trans hn) hbare
  obtain ⟨a', ha', hsame⟩ := exists_same_of_twin hresult hdepth htwin hwrites hn'
  rw [ha', Expr.eq_of_same hsame]

end Query

/-! ### Rejected queries -/

/-- Whether a cursor is the one that corresponds to another when a text is put in front of a query:
both stand at the start, or before the same text, as much further on as the query is. -/
def Cursor.Follows (before query : List Char) (c c' : Cursor) : Prop :=
  (c = .start query ∧ c' = .start (before ++ query)) ∨
    (c'.rest = c.rest ∧ c'.position = c.position + before.length)

/-- Whether a position is the one that corresponds to another: both are the start, or it is further
on. -/
def Follows (before : List Char) (p p' : Nat) : Prop :=
  (p = 0 ∧ p' = 0) ∨ p' = p + before.length

/-- Behind blank text, corresponding cursors stand before the same text. -/
lemma Cursor.Follows.skipBlank {before query : List Char} {c c' : Cursor}
    (hbefore : isGap before = true) (h : c.Follows before query c') :
    c'.skipBlank.rest = c.skipBlank.rest ∧
      c'.skipBlank.position = c.skipBlank.position + before.length := by
  rcases h with ⟨rfl, rfl⟩ | ⟨hrest, hposition⟩
  · have hblank := blankLength_append_of_isGap hbefore query
    simp only [Cursor.skipBlank, Cursor.advance, Cursor.start, hblank]
    refine ⟨?_, by omega⟩
    rw [← List.drop_drop, List.drop_left]
  · simp only [Cursor.skipBlank, Cursor.advance, hrest, hposition]
    exact ⟨trivial, by omega⟩

/-- Two readings stay at corresponding places when blank text is put in front of a query. -/
lemma lockstep_follows {before query : List Char} (hbefore : isGap before = true) :
    Lockstep (Cursor.Follows before query) (Follows before) := by
  refine ⟨?_, ?_, ?_, ?_⟩
  · intro p p' q q' hp hq
    unfold Follows at *
    omega
  · rintro c c' (⟨rfl, rfl⟩ | ⟨-, hposition⟩)
    · exact Or.inl ⟨rfl, rfl⟩
    · exact Or.inr hposition
  · intro c c' x hc _
    rw [(hc.skipBlank hbefore).1]
  · intro c c' x n hc _ _
    obtain ⟨hrest, hposition⟩ := hc.skipBlank hbefore
    refine Or.inr ⟨?_, ?_⟩
    · simp only [Cursor.advance, hrest]
    · simp only [Cursor.advance, hposition]
      omega

/-- An optional form does not fail. -/
lemma Form.optional_ne_failed (f : Form) (call : Rule → Cursor → Outcome) (c : Cursor)
    (stuck : Stuck) :
    (Form.optional f).read call c ≠ .failed stuck := by
  simp only [Form.optional, Form.read]
  cases f.read call c <;> simp [Outcome.afterFailure]

namespace Query

variable {limits : Limits} {query before after : List Char} {a : Expr} {p : Nat}

/-- A query is rejected further on with blank text in front of it. -/
lemma rejected_of_surrounded (hbefore : isGap before = true) {stuck : Stuck}
    (h : Reading.ofQuery limits query = .rejected stuck) :
    ∃ stuck', Reading.ofQuery limits (before ++ query) = .rejected stuck' ∧
      stuck'.position = stuck.position + before.length := by
  have hlockstep : Lockstep (Cursor.Follows before query) (Follows before) :=
    lockstep_follows hbefore
  have hparallel := hlockstep.query limits.rules
    (Or.inl ⟨rfl, rfl⟩ : (Cursor.start query).Follows before query (.start (before ++ query)))
  have hnever := Form.optional_ne_failed (.rule .expression) (Rule.read limits.rules) (.start query)
  unfold Reading.ofQuery Reading.within at h ⊢
  generalize (Form.optional (.rule .expression)).read (Rule.read limits.rules) (.start query) = o
    at h hparallel hnever
  generalize (Form.optional (.rule .expression)).read (Rule.read limits.rules)
    (.start (before ++ query)) = o' at hparallel ⊢
  cases hparallel with
  | @done its its' next next' stuck stuck' hnext hstuck =>
    obtain ⟨hrest, hposition⟩ := hnext.skipBlank hbefore
    simp only [Reading.ofOutcome] at h ⊢
    rw [hrest]
    split at h
    · cases h
    · cases h
      refine ⟨_, rfl, ?_⟩
      have hhere : Stuck.Beside (Follows before) ⟨next.skipBlank.position, [.endOfQuery]⟩
          ⟨next'.skipBlank.position, [.endOfQuery]⟩ := Or.inr hposition
      have hmerged := hlockstep.mergeOption hstuck hhere
      -- The end of the query was looked for behind the blank text, so that is no start.
      have hend := (Stuck.mergeOption_position stuck'
        ⟨next'.skipBlank.position, [.endOfQuery]⟩).1
      simp only [Stuck.Beside, Follows] at hmerged hend
      omega
  | failed hstuck => exact absurd rfl (hnever _)
  | tooDeep => cases h

/-- Blank text around a query does not matter: an accepted query keeps its expression, an empty one
stays empty, and one that is rejected is rejected as much further on as there is blank text in front
of it. -/
theorem parse_surrounded (hbefore : IsBlank false before) (hafter : IsBlank true after) :
    (∀ a, (parseChars limits query).outcome = .ok a →
        (parseChars limits (before ++ query ++ after)).outcome = .ok a) ∧
      ((parseChars limits query).outcome = .error .empty →
        (parseChars limits (before ++ query ++ after)).outcome = .error .empty) ∧
      ∀ p, (parseChars limits query).outcome = .error (.rejected p) →
        (parseChars limits (before ++ query)).outcome = .error (.rejected (p + before.length)) := by
  have hgap := isGap_iff_isBlank.2 hbefore
  have htail := isTail_iff_isBlank.2 hafter
  refine ⟨fun a => parse_ok_of_surrounded hgap htail, fun h => ?_, fun p h => ?_⟩
  · rw [outcome_eq_empty_iff] at h ⊢
    exact isTail_append (isTail_append (isTail_of_isGap hgap) h) htail
  · obtain ⟨stuck, hread, rfl⟩ := outcome_eq_rejected_iff.1 h
    exact outcome_eq_rejected_iff.2 (rejected_of_surrounded hgap hread)

/-- A comment in front of `a`, of nothing and of `)`, and one behind the first two. -/
theorem parse_surrounded_commented :
    IsBlank false ['#', 'c', '\n'] ∧ IsBlank true [' ', '#'] ∧
      (parseChars .usual ['a']).outcome = .ok (.vector "a" "a" [] none) ∧
      (parseChars .usual (['#', 'c', '\n'] ++ ['a'] ++ [' ', '#'])).outcome =
        .ok (.vector "a" "a" [] none) ∧
      (parseChars .usual []).outcome = .error .empty ∧
      (parseChars .usual (['#', 'c', '\n'] ++ [] ++ [' ', '#'])).outcome = .error .empty ∧
      (parseChars .usual [')']).outcome = .error (.rejected 0) ∧
      (parseChars .usual (['#', 'c', '\n'] ++ [')'])).outcome = .error (.rejected (0 + 3)) := by
  have hbefore : IsBlank false ['#', 'c', '\n'] := isGap_iff_isBlank.1 rfl
  have hafter : IsBlank true [' ', '#'] := isTail_iff_isBlank.1 rfl
  have hname : (parseChars .usual ['a']).outcome = .ok (.vector "a" "a" [] none) := rfl
  have hnothing : (parseChars .usual []).outcome = .error .empty := rfl
  have hparen : (parseChars .usual [')']).outcome = .error (.rejected 0) := rfl
  exact ⟨hbefore, hafter, hname, (parse_surrounded hbefore hafter).1 _ hname, hnothing,
    (parse_surrounded hbefore hafter).2.1 hnothing, hparen,
    (parse_surrounded hbefore hafter).2.2 _ hparen⟩

end Query

end PromqlGuide
