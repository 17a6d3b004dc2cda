import PromqlGuide.Grammar.Reading
import PromqlGuide.Proofs.Grammar.Soundness

/-!
# Accepted queries

The queries that are accepted are exactly the texts of grammatical trees, with blank text behind
them, and the syntax tree that is read is the one that was written
(`Reading.within_eq_accepted_iff`).  Besides them, the queries without expression are accepted:
those that are blank (`Reading.within_eq_accepted_none_iff`).
-/
namespace PromqlGuide

open Text Written

namespace Text

/-- Blank text up to the end of a query ends what no blank and no comment belongs to. -/
lemma endsBefore_of_isTail {p : Char → Bool} {cs : List Char} (h : isTail cs = true)
    (hp : ∀ c, isSpace c = true ∨ c = '#' → p c = false) : endsBefore p cs = true := by
  cases cs with
  | nil => rfl
  | cons c cs => simp [endsBefore, hp c (head_of_isTail h)]

end Text

/-- Whether a query is written as a tree: the tree is an expression that is nested less deep than a
bound, and its lexemes are laid out in the query with blank text behind them. -/
structure Written.Writes (depth : Nat) (e : Written) (query : List Char) : Prop where
  grammatical : Grammatical Clear e
  nesting_lt : e.nesting < depth
  laidOut : ∃ tail, isTail tail = true ∧ Laid [e] tail ∧ query = e.text ++ tail

namespace Reading

/-- What was read is accepted exactly if only blank text follows. -/
lemma ofOutcome_done_iff {items : List Item} (position : Nat) {rest : List Char}
    (stuck : Option Stuck) {n? : Option Node} :
    Reading.ofOutcome (.done items ⟨position, rest⟩ stuck) = .accepted n? ↔
      isTail rest = true ∧ items.findSome? Item.node? = n? := by
  have hblank : (Cursor.skipBlank ⟨position, rest⟩).rest = [] ↔ isTail rest = true := by
    have hle := blankLength_le rest
    simp only [Cursor.skipBlank, Cursor.advance, isTail, decide_eq_true_eq, List.drop_eq_nil_iff]
    omega
  rw [← hblank]
  simp only [Reading.ofOutcome]
  split
  · next heq => simp only [heq, Reading.accepted.injEq, true_and]
  · next heq => simp only [heq, reduceCtorEq, false_and]

/-- A query that starts with what a rule reads is accepted exactly if only blank text follows. -/
lemma within_of_run {depth : Nat} {ps : List Written} {rest : List Char} {n? : Option Node}
    (h : Rule.Run depth .expression ps rest) :
    Reading.within depth (textAll ps ++ rest) = .accepted n? ↔
      isTail rest = true ∧ (items 0 ps).findSome? Item.node? = n? := by
  obtain ⟨stuck, hdone⟩ := Rule.reads_of_run h 0
  rw [← ofOutcome_done_iff (0 + (textAll ps).length) stuck, ← hdone]
  simp [Reading.within, Form.optional, Form.read, Cursor.start, hdone]

/-- A query in which the rule finds nothing is accepted exactly if it is blank. -/
lemma within_of_fails {depth : Nat} {query : List Char} {n? : Option Node}
    (h : Form.Fails (Rule.read depth .expression) query) :
    Reading.within depth query = .accepted n? ↔ isTail query = true ∧ none = n? := by
  obtain ⟨stuck, hfailed⟩ := h 0
  have hnothing : Reading.within depth query = .ofOutcome (.done [] ⟨0, query⟩ (some stuck)) := by
    simp [Reading.within, Form.optional, Form.read, Cursor.start, hfailed, Outcome.afterFailure,
      Stuck.mergeOptions]
  rw [hnothing, ofOutcome_done_iff]
  rfl

/-- A query in which an expression goes too deep is not accepted. -/
lemma within_ne_accepted_of_sinks {depth : Nat} {query : List Char} {n? : Option Node}
    (h : Form.Sinks (Rule.read depth .expression) query) :
    Reading.within depth query ≠ .accepted n? := by
  simp [Reading.within, Form.optional, Form.read, Cursor.start, h 0, Reading.ofOutcome]

/-- An accepted query starts with what a rule reads, and only blank text follows. -/
lemma run_of_within {depth : Nat} {query : List Char} {n : Node}
    (h : Reading.within depth query = .accepted (some n)) :
    ∃ ps rest, query = textAll ps ++ rest ∧ Rule.Run depth .expression ps rest ∧
      isTail rest = true ∧ (items 0 ps).findSome? Item.node? = some n := by
  rcases Rule.settles depth .expression query with ⟨ps, rest, rfl, hrun⟩ | hfails | hsinks
  · exact ⟨ps, rest, rfl, hrun, (within_of_run hrun).1 h⟩
  · cases ((within_of_fails hfails).1 h).2
  · exact absurd h (within_ne_accepted_of_sinks hsinks)

/-- Nothing is read from a query exactly if it is blank. -/
theorem within_eq_accepted_none_iff {depth : Nat} (hdepth : 2 ≤ depth) {query : List Char} :
    Reading.within depth query = .accepted none ↔ isTail query = true := by
  constructor
  · intro h
    rcases Rule.settles depth .expression query with ⟨ps, rest, rfl, hrun⟩ | hfails | hsinks
    · -- What the rule reads is a node, so that something would have been read.
      obtain ⟨w, rfl, hnode, -⟩ := Rule.isProperNode_of_run hrun
      obtain ⟨n, hn⟩ := exists_node_of_isNode hnode 0
      have hitem := ((within_of_run hrun).1 h).2
      simp [items, hn, Item.node?] at hitem
    · exact ((within_of_fails hfails).1 h).1
    · exact absurd h (within_ne_accepted_of_sinks hsinks)
  · intro h
    have hfails := Rule.fails_of_absent hdepth .expression fun x _ => absent_of_isTail h x
    exact (within_of_fails hfails).2 ⟨h, rfl⟩

/-- A syntax tree is read from a query exactly if the query is written as a grammatical tree that
stands for it. -/
theorem within_eq_accepted_iff {depth : Nat} {query : List Char} {n : Node} :
    Reading.within depth query = .accepted (some n) ↔
      ∃ e : Written, e.Writes depth query ∧ e.item 0 = .node n := by
  constructor
  · intro h
    obtain ⟨ps, rest, rfl, hrun, htail, hitem⟩ := run_of_within h
    have hlaid : Laid ps rest := Rule.laidOut_of_run hrun
      (endsBefore_of_isTail htail fun _ => Lexeme.not_isStray_of_blank)
      (endsBefore_of_isTail htail fun _ => Lexeme.ne_equal_of_blank)
    obtain ⟨e, rfl, he, hnesting⟩ := Rule.grammatical_of_run hrun hlaid (absent_of_isTail htail _)
    refine ⟨e, ⟨he, hnesting, rest, htail, hlaid, by simp⟩, ?_⟩
    obtain ⟨m, hm⟩ := exists_node_of_isNode (isNode_of_grammatical he) 0
    simp only [items, hm, List.findSome?_cons, Item.node?, Option.some.injEq] at hitem
    rw [hm, hitem]
  · rintro ⟨e, ⟨he, hnesting, tail, htail, hlaid, rfl⟩, hitem⟩
    have hrun := Rule.run_of_grammatical he hnesting hlaid (stops_of_isTail htail 0)
    simpa using (within_of_run hrun).2 ⟨htail, by simp [items, hitem, Item.node?]⟩

end Reading

end PromqlGuide
