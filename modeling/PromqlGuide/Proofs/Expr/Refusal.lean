import PromqlGuide.Proofs.Expr.Source

/-!
# Refused numerals

Making the expression of a syntax tree can fail in one way only: a duration has a numeral with more
digits than are read (`Expr.exists_digits_of_error`).  This holds of every tree, whether or not it
was read from a query.
-/
namespace PromqlGuide

open Text

/-- Digits are refused only if there are too many, and then with their number. -/
lemma Text.readNumeral_eq_error {digits : List Char} {cause : NumeralTooLong}
    (h : readNumeral digits = .error cause) :
    numeralLimit < digits.length ∧ cause = .reading digits.length := by
  unfold readNumeral at h
  split at h
  · cases h
  · next hlength =>
    cases h
    exact ⟨Nat.not_le.1 hlength, rfl⟩

/-- A sum of parts fails at the digits of one of them. -/
lemma Duration.total_eq_error {ps : List DurationPart} {cause : NumeralTooLong}
    (h : total ps = .error cause) : ∃ p ∈ ps, readNumeral p.digits = .error cause := by
  induction ps with
  | nil => cases h
  | cons p ps ih =>
    unfold total at h
    cases hnumeral : readNumeral p.digits with
    | error e =>
      rw [hnumeral] at h
      cases h
      exact ⟨p, List.mem_cons_self, hnumeral⟩
    | ok amount =>
      cases hothers : total ps with
      | error e =>
        rw [hnumeral, hothers] at h
        cases h
        obtain ⟨q, hq, hread⟩ := ih hothers
        exact ⟨q, List.mem_cons_of_mem p hq, hread⟩
      | ok others =>
        rw [hnumeral, hothers] at h
        cases h

/-! ### Computations -/

namespace Noted

variable {α β : Type} {m : Noted α}

/-- Whether a computation can end early only at a numeral with too many digits to be read. -/
def EndsAtNumeral (m : Noted α) : Prop :=
  ∀ cause, m.result = .error cause → ∃ digits, numeralLimit < digits ∧ cause = .reading digits

/-- A computation with a value does not end early. -/
lemma endsAtNumeral_ok {a : α} (h : m.result = .ok a) : EndsAtNumeral m := by
  intro cause hcause
  rw [h] at hcause
  cases hcause

/-- A value by itself does not end early. -/
lemma endsAtNumeral_pure (a : α) : EndsAtNumeral (pure a) := endsAtNumeral_ok rfl

/-- Two computations end early only at a numeral if each does. -/
lemma EndsAtNumeral.bind {g : α → Noted β} (hm : EndsAtNumeral m) (hg : ∀ a, EndsAtNumeral (g a)) :
    EndsAtNumeral (m >>= g) := by
  intro cause hcause
  cases hresult : m.result with
  | error e =>
    refine hm cause ?_
    simpa [Bind.bind, hresult] using hcause
  | ok a =>
    refine hg a cause ?_
    simpa [Bind.bind, hresult] using hcause

/-- Computations that are gone through end early only at a numeral if each does. -/
lemma endsAtNumeral_all {ms : List (Noted α)} (h : ∀ m ∈ ms, EndsAtNumeral m) :
    EndsAtNumeral (all ms) := by
  induction ms with
  | nil => exact endsAtNumeral_pure _
  | cons m ms ih =>
    rw [List.forall_mem_cons] at h
    exact h.1.bind fun a => (ih h.2).bind fun as => endsAtNumeral_pure _

end Noted

/-! ### Expressions -/

namespace Expr

open Noted

variable {query : List Char} {n : Node} {ps : List Part} {bs : List Branch}

/-- A duration ends early only at a numeral. -/
lemma endsAtNumeral_duration (c : Node) : EndsAtNumeral (duration query c) := by
  intro cause hcause
  have htotal : Duration.total (Duration.parts (c.text query)) = .error cause := by
    cases h : Duration.total (Duration.parts (c.text query)) with
    | error e => simpa [duration, Noted.of, Duration.read, h, Except.map] using hcause
    | ok ms => simp [duration, Noted.of, Duration.read, h, Except.map] at hcause
  obtain ⟨p, -, hread⟩ := Duration.total_eq_error htotal
  exact ⟨p.digits.length, readNumeral_eq_error hread⟩

/-- A duration, if there is one, ends early only at a numeral. -/
lemma endsAtNumeral_duration? (o : Option Node) : EndsAtNumeral (duration? query o) := by
  cases o with
  | none => exact endsAtNumeral_pure _
  | some c => exact (endsAtNumeral_duration c).bind fun ms => endsAtNumeral_pure _

/-- The operands among the parts end early only at a numeral if all parts do. -/
lemma endsAtNumeral_operands (h : ∀ p ∈ ps, p.expr.EndsAtNumeral) :
    EndsAtNumeral (operands ps) := by
  refine endsAtNumeral_all ?_
  rw [List.forall_mem_map]
  exact fun p hp => h p (List.mem_filter.1 hp).1

/-- An operand, if there is one, ends early only at a numeral if its part does. -/
lemma endsAtNumeral_atMostOne {o : Option Part} (h : ∀ p ∈ o, p.expr.EndsAtNumeral) :
    EndsAtNumeral (atMostOne o) := by
  cases o with
  | none => exact endsAtNumeral_pure _
  | some p => exact (h p rfl).bind fun e => endsAtNumeral_pure _

/-- The matchers of a selector are read to the end. -/
lemma endsAtNumeral_selectorMatchers (v : Node) : EndsAtNumeral (selectorMatchers query v) := by
  unfold selectorMatchers
  split
  · exact endsAtNumeral_pure _
  · exact endsAtNumeral_ok rfl

/-! ### Kinds of nodes -/

section

variable (h : ∀ p ∈ reach bs, p.expr.EndsAtNumeral)

include h

/-- The operands among the branches end early only at a numeral. -/
lemma endsAtNumeral_branches : EndsAtNumeral (operands (bs.map Branch.toPart)) :=
  endsAtNumeral_operands fun p hp => h p (mem_reach_of_mem_map hp)

/-- The first operand among the branches ends early only at a numeral. -/
lemma endsAtNumeral_firstOperand :
    EndsAtNumeral (atMostOne (firstOperand? (bs.map Branch.toPart))) :=
  endsAtNumeral_atMostOne fun p hp => h p (mem_reach_of_mem_map (mem_of_firstOperand hp).1)

/-- Making an expression of a wrapper ends early only at a numeral. -/
lemma endsAtNumeral_ofWrapper : EndsAtNumeral (ofWrapper query n bs) := by
  unfold ofWrapper
  split
  · exact endsAtNumeral_pure _
  · exact h _ (mem_reach_of_mem List.mem_cons_self)

/-- Making an aggregation ends early only at a numeral. -/
lemma endsAtNumeral_ofAggregation : EndsAtNumeral (ofAggregation query n bs) := by
  refine (endsAtNumeral_atMostOne fun p hp => h p ?_).bind fun es => endsAtNumeral_pure _
  obtain ⟨b, hb, hp⟩ := Option.mem_bind_iff.1 (Option.mem_filter_iff.1 hp).1
  exact mem_reach_of_mem_parts (mem_of_branch hb).1 (List.mem_of_mem_head? hp)

/-- Making a call ends early only at a numeral. -/
lemma endsAtNumeral_ofCall : EndsAtNumeral (ofCall query n bs) := by
  unfold ofCall
  cases hbody : branch? bs [.phrase .callBody] with
  | none => exact (endsAtNumeral_pure _).bind fun es => endsAtNumeral_pure _
  | some body =>
    refine (endsAtNumeral_operands fun p hp => h p ?_).bind fun es => endsAtNumeral_pure _
    exact mem_reach_of_mem_parts (mem_of_branch hbody).1 hp

/-- Making a binary expression ends early only at a numeral. -/
lemma endsAtNumeral_ofBinary : EndsAtNumeral (ofBinary query n bs) := by
  refine (endsAtNumeral_branches h).bind fun es => ?_
  dsimp only
  split
  · exact (endsAtNumeral_ok rfl).bind fun _ => endsAtNumeral_pure _
  · exact endsAtNumeral_pure _

/-- Making a range ends early only at a numeral. -/
lemma endsAtNumeral_ofMatrix : EndsAtNumeral (ofMatrix query n bs) := by
  unfold ofMatrix
  extract_lets more
  have hmore : ∀ range, EndsAtNumeral (more range) := by
    intro range
    simp only [more]
    split
    · next v _ => exact (endsAtNumeral_selectorMatchers v).bind fun _ => endsAtNumeral_pure _
    · split
      · next b hb => exact h _ (mem_reach_of_mem (mem_of_branch hb).1)
      · exact endsAtNumeral_pure _
  split
  · exact (endsAtNumeral_pure _).bind hmore
  · exact (endsAtNumeral_duration _).bind hmore

/-- Making a subquery ends early only at a numeral. -/
lemma endsAtNumeral_ofSubquery : EndsAtNumeral (ofSubquery query n bs) :=
  (endsAtNumeral_firstOperand h).bind fun _ => (endsAtNumeral_duration? _).bind fun _ =>
    (endsAtNumeral_duration? _).bind fun _ => endsAtNumeral_pure _

/-- Making an offset ends early only at a numeral. -/
lemma endsAtNumeral_ofOffset : EndsAtNumeral (ofOffset query n bs) := by
  unfold ofOffset
  split
  · exact endsAtNumeral_pure _
  · next part hpart =>
    refine (h part (mem_reach_of_mem_map (mem_of_firstOperand hpart).1)).bind fun inner => ?_
    split
    · exact (endsAtNumeral_duration _).bind fun _ => endsAtNumeral_pure _
    · exact endsAtNumeral_pure _

/-- Making an expression of any other node ends early only at a numeral. -/
lemma endsAtNumeral_ofOther : EndsAtNumeral (ofOther query n bs) := by
  refine (endsAtNumeral_branches h).bind fun es => ?_
  split
  · exact endsAtNumeral_pure _
  · exact (endsAtNumeral_ok rfl).bind fun _ => endsAtNumeral_pure _

/-- Making an expression of branches ends early only at a numeral, whatever the kind of the node. -/
lemma endsAtNumeral_ofBranches : EndsAtNumeral (ofBranches query n bs) := by
  unfold ofBranches
  split
  · exact endsAtNumeral_ofWrapper h
  · exact endsAtNumeral_ofWrapper h
  · exact endsAtNumeral_pure _
  · exact endsAtNumeral_pure _
  · exact endsAtNumeral_pure _
  · split
    · exact endsAtNumeral_ofAggregation h
    · exact endsAtNumeral_ofCall h
    · exact endsAtNumeral_ofBinary h
    · exact (endsAtNumeral_selectorMatchers n).bind fun _ => endsAtNumeral_pure _
    · exact endsAtNumeral_ofMatrix h
    · exact endsAtNumeral_ofSubquery h
    · exact endsAtNumeral_ofOffset h
    · exact (endsAtNumeral_firstOperand h).bind fun _ => endsAtNumeral_pure _
    · exact (endsAtNumeral_branches h).bind fun _ => endsAtNumeral_pure _
    · exact endsAtNumeral_ofOther h
  · exact endsAtNumeral_ofOther h

end

/-- Making the expression of any node of a tree ends early only at a numeral. -/
lemma endsAtNumeral_ofTree (n : Node) : ∀ m ∈ n.preorder, EndsAtNumeral (ofTree query m) := by
  induction n using Node.inductionOn with
  | step n ih =>
    intro m hm
    rcases Node.mem_preorder_iff.1 hm with rfl | ⟨c, hc, hm⟩
    · rw [ofTree_eq_ofBranches]
      refine endsAtNumeral_ofBranches fun p hp => ?_
      obtain ⟨c, hc, hnode, hexpr⟩ := mem_preorder_of_mem_reach hp
      rw [hexpr]
      exact ih c hc p.node hnode
    · exact ih c hc m hm

/-- The expression of a tree is refused only for a numeral with too many digits to be read. -/
theorem exists_digits_of_error {cause : NumeralTooLong}
    (h : (ofTree query n).result = .error cause) :
    ∃ digits, numeralLimit < digits ∧ cause = .reading digits :=
  endsAtNumeral_ofTree n n n.mem_preorder_self cause h

end Expr

end PromqlGuide
