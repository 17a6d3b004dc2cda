import PromqlGuide.Proofs.Display.Views
import PromqlGuide.Proofs.Expr.Refusal

/-!
# Operators of matchers

A matcher is explained by its operator, and there are explanations for the four operators of the
query language only.  Whatever is written between a label and its value, and wherever in a tree, no
other operator comes from it: makers of expressions take matchers from nodes, or hand on those of an
expression that was made before.

Main statement: the expression of any tree has known operators throughout, and the only numerals in
the way of its explanation are too long to be written (`Expr.explained_of_tree`).
-/
namespace PromqlGuide

namespace MatchOperator

/-- What is written in a matcher is an operator of the query language: equality if nothing else. -/
lemma isKnown_ofWritten (symbol : List Char) : (ofWritten symbol).IsKnown := by
  unfold ofWritten
  split_ifs <;> decide

/-- The operators of the query language are those that are explained. -/
lemma isKnown_iff {o : MatchOperator} : o.IsKnown ↔ ∃ words, o.relation = .ok words := by
  cases o <;> simp [IsKnown, relation]

end MatchOperator

/-- A matcher that is read has one of the known operators. -/
lemma Node.isKnown_of_matcher? {query : List Char} {n : Node} {m : Matcher}
    (h : n.matcher? query = some m) : m.operator.IsKnown := by
  obtain ⟨name, -, h⟩ := Option.bind_eq_some_iff.1 h
  obtain ⟨value, -, h⟩ := Option.bind_eq_some_iff.1 h
  obtain rfl := Option.some.inj h
  dsimp only
  split
  · decide
  · exact MatchOperator.isKnown_ofWritten _

namespace Expr

open Text

variable {query : List Char} {n : Node} {bs : List Branch} {a : Expr}

/-- An expression without matchers has no unknown operators. -/
lemma hasKnownOperators_of_nil (h : a.matchers = []) : a.HasKnownOperators := by
  simp [HasKnownOperators, h]

/-! ### Where matchers come from -/

/-- The matchers of a selector have known operators. -/
lemma isKnown_of_selectorMatchers {v : Node} {ms : List Matcher}
    (h : (selectorMatchers query v).result = .ok ms) : ∀ m ∈ ms, m.operator.IsKnown := by
  unfold selectorMatchers at h
  split at h
  · obtain rfl := Noted.result_pure h
    simp
  · obtain rfl := Except.ok.inj h
    intro m hm
    obtain ⟨c, -, hc⟩ := List.mem_filterMap.1 hm
    exact Node.isKnown_of_matcher? hc

/-- A shift in time leaves the matchers as they are. -/
lemma matchers_shifted {text : String} {offset : Int} {e e' : Expr}
    (h : shifted? text offset e = some e') : e'.matchers = e.matchers := by
  cases e <;> simp only [shifted?, Option.some.injEq, reduceCtorEq] at h
  all_goals
    subst h
    rfl

/-- Whether an expression is that of some part, or has the matchers of that of some part. -/
def TakesOver (ps : List Part) (a : Expr) : Prop :=
  ∃ p ∈ ps, ∃ e, p.expr.result = .ok e ∧ a.matchers = e.matchers

/-- The expression of a part has the matchers of that part. -/
lemma FromPart.takesOver {ps : List Part} (h : FromPart ps a) : TakesOver ps a := by
  obtain ⟨p, hp, -, hexpr⟩ := h
  exact ⟨p, hp, a, hexpr, rfl⟩

/-- The operators of a selector are known. -/
lemma hasKnownOperators_ofVector (h : (ofVector query n).result = .ok a) : a.HasKnownOperators := by
  obtain ⟨ms, hms, h⟩ := Noted.result_bind h
  obtain rfl := Noted.result_pure h
  exact isKnown_of_selectorMatchers hms

/-- The matchers of a range are those of the selector inside, if there is one. -/
lemma hasKnownOperators_ofMatrix (h : (ofMatrix query n bs).result = .ok a) :
    a.HasKnownOperators ∨ TakesOver (reach bs) a := by
  unfold ofMatrix at h
  cases hrange : n.child? [.leaf .duration, .durationOperand] <;> rw [hrange] at h
  all_goals
    obtain ⟨range, -, h⟩ := Noted.result_bind h
    split at h
    · obtain ⟨ms, hms, h⟩ := Noted.result_bind h
      obtain rfl := Noted.result_pure h
      exact Or.inl (isKnown_of_selectorMatchers hms)
    · split at h
      · next b hb => exact Or.inr ⟨b.toPart, mem_reach_of_mem (mem_of_branch hb).1, a, h, rfl⟩
      · obtain rfl := Noted.result_pure h
        exact Or.inl (hasKnownOperators_of_nil rfl)

/-- A shift in time keeps the matchers of a selector. -/
lemma hasKnownOperators_ofOffset (h : (ofOffset query n bs).result = .ok a) :
    a.HasKnownOperators ∨ TakesOver (reach bs) a := by
  unfold ofOffset at h
  split at h
  · obtain rfl := Noted.result_pure h
    exact Or.inl (hasKnownOperators_of_nil rfl)
  · next p hp =>
    obtain ⟨inner, hinner, h⟩ := Noted.result_bind h
    have hmem := mem_reach_of_mem_map (mem_of_firstOperand hp).1
    refine Or.inr ⟨p, hmem, inner, hinner, ?_⟩
    split at h
    · obtain ⟨ms, -, h⟩ := Noted.result_bind h
      obtain rfl := Noted.result_pure h
      cases hshifted : shifted? (textOf query n) _ inner with
      | none => rfl
      | some e => exact matchers_shifted hshifted
    · obtain rfl := Noted.result_pure h
      rfl

/-- Any other node has no matchers or takes them over from a part. -/
lemma hasKnownOperators_ofOther (h : (ofOther query n bs).result = .ok a) :
    a.HasKnownOperators ∨ TakesOver (reach bs) a := by
  rcases ofOther_cases h with ⟨es, rfl, -⟩ | hfrom
  · exact Or.inl (hasKnownOperators_of_nil rfl)
  · exact Or.inr hfrom.takesOver

/-- A call has no matchers of its own. -/
lemma hasKnownOperators_ofCall (h : (ofCall query n bs).result = .ok a) : a.HasKnownOperators := by
  unfold ofCall at h
  cases hbody : branch? bs [.phrase .callBody] <;> rw [hbody] at h
  all_goals
    obtain ⟨es, -, h⟩ := Noted.result_bind h
    obtain rfl := Noted.result_pure h
    exact hasKnownOperators_of_nil rfl

/-- A binary expression has no matchers of its own. -/
lemma hasKnownOperators_ofBinary (h : (ofBinary query n bs).result = .ok a) :
    a.HasKnownOperators := by
  obtain ⟨es, -, h⟩ := Noted.result_bind h
  simp only at h
  split at h
  · obtain ⟨-, -, h⟩ := Noted.result_bind h
    obtain rfl := Noted.result_pure h
    exact hasKnownOperators_of_nil rfl
  · obtain rfl := Noted.result_pure h
    exact hasKnownOperators_of_nil rfl

/-- What a node makes that does not only wrap another has no matchers of its own with other
operators than those of the query language. -/
lemma hasKnownOperators_ofBranches (hroot : n.kind ≠ .root) (hwrapper : n.kind ≠ .wrapper)
    (h : (ofBranches query n bs).result = .ok a) : a.HasKnownOperators ∨
    TakesOver (reach bs) a := by
  have hplain : ∀ e : Expr, e.matchers = [] → (pure e : Noted Expr).result = .ok a →
      a.HasKnownOperators ∨ TakesOver (reach bs) a := by
    intro e hmatchers h
    obtain rfl := Noted.result_pure h
    exact Or.inl (hasKnownOperators_of_nil hmatchers)
  unfold ofBranches at h
  cases hkind : n.kind with
  | root => exact absurd hkind hroot
  | wrapper => exact absurd hkind hwrapper
  | durationNumber =>
    rw [hkind] at h
    exact hplain _ rfl h
  | leaf t =>
    rw [hkind] at h
    cases t with
    | number | string => exact hplain _ rfl h
    | _ => exact hasKnownOperators_ofOther h
  | phrase p =>
    rw [hkind] at h
    cases p with
    | binary => exact Or.inl (hasKnownOperators_ofBinary h)
    | vectorSelector => exact Or.inl (hasKnownOperators_ofVector h)
    | matrixSelector => exact hasKnownOperators_ofMatrix h
    | offset => exact hasKnownOperators_ofOffset h
    | call => exact Or.inl (hasKnownOperators_ofCall h)
    | aggregation | paren | unary =>
      obtain ⟨es, -, h⟩ := Noted.result_bind h
      exact hplain _ rfl h
    | subquery =>
      obtain ⟨es, -, h⟩ := Noted.result_bind h
      obtain ⟨range, -, h⟩ := Noted.result_bind h
      obtain ⟨step, -, h⟩ := Noted.result_bind h
      exact hplain _ rfl h
    | _ => exact hasKnownOperators_ofOther h
  | _ =>
    rw [hkind] at h
    exact hasKnownOperators_ofOther h

/-! ### Trees -/

section

variable {P : Expr → Prop} (hunknown : ∀ text, P (.unknown text []))
  (hmade : ∀ n bs a, n.kind ≠ .root → n.kind ≠ .wrapper →
    (∀ p ∈ reach bs, ∀ e, p.expr.result = .ok e → P e) →
      (ofBranches query n bs).result = .ok a → P a)

include hunknown hmade

/-- If a property passes from the expressions in reach of a node to its own, it does so throughout
them. -/
lemma throughout_ofBranches (hparts : ∀ p ∈ reach bs, ∀ e, p.expr.result = .ok e → Throughout P e)
    (h : (ofBranches query n bs).result = .ok a) : Throughout P a := by
  have hwrapped : (ofWrapper query n bs).result = .ok a → Throughout P a := by
    intro h
    unfold ofWrapper at h
    split at h
    · obtain rfl := Noted.result_pure h
      exact throughout_leaf (hunknown _) rfl
    · exact hparts _ (mem_reach_of_mem List.mem_cons_self) a h
  by_cases hroot : n.kind = .root
  · rw [ofBranches, hroot] at h
    exact hwrapped h
  by_cases hwrapper : n.kind = .wrapper
  · rw [ofBranches, hwrapper] at h
    exact hwrapped h
  have hown : P a := hmade n bs a hroot hwrapper (fun p hp e he => (hparts p hp e he).self) h
  rcases madeFrom_ofBranches hroot hwrapper h with ⟨-, hchildren⟩ | ⟨p, hp, -, hexpr⟩
  · refine throughout hown fun c hc => ?_
    obtain ⟨p, hp, -, hexpr⟩ := hchildren c hc
    exact hparts p hp c hexpr
  · exact hparts p hp a hexpr

/-- Such a property holds throughout the expression of any tree, whether or not it was read from a
query. -/
lemma throughout_ofTree (n : Node) :
    ∀ m ∈ n.preorder, ∀ a, (ofTree query m).result = .ok a → Throughout P a := by
  induction n using Node.inductionOn with
  | step n ih =>
    intro m hm a ha
    rcases Node.mem_preorder_iff.1 hm with rfl | ⟨c, hc, hm⟩
    · rw [ofTree_eq_ofBranches] at ha
      refine throughout_ofBranches hunknown hmade (fun p hp e he => ?_) ha
      obtain ⟨c, hc, hnode, hexpr⟩ := mem_preorder_of_mem_reach hp
      exact ih c hc p.node hnode e (hexpr ▸ he)
    · exact ih c hc m hm a ha

end

/-- Operators are known throughout the expressions of any tree. -/
lemma hasKnownOperators_ofTree (n : Node) : ∀ m ∈ n.preorder, ∀ a, (ofTree query m).result = .ok a →
    Throughout HasKnownOperators a := by
  refine throughout_ofTree (fun _ => hasKnownOperators_of_nil rfl) ?_ n
  intro n bs a hroot hwrapper hparts h
  rcases hasKnownOperators_ofBranches hroot hwrapper h with hown | ⟨p, hp, e, he, hmatchers⟩
  · exact hown
  · intro m hm
    exact hparts p hp e he m (hmatchers ▸ hm)

/-! ### Explanations -/

/-- With known operators, an explanation fails only at a duration with too many digits to be
written. -/
lemma explain_eq_error {e : Expr} {cause : Unexplained} (hknown : e.HasKnownOperators)
    (h : e.explain = .error cause) : cause = .numeral .writing :=
    (yieldsIff_explain hknown).error_eq h

/-- With known operators, the explanation of all parts fails only at such a duration, or where there
is no room for all levels. -/
lemma steps_eq_error {limits : Limits} {e : Expr} {fault : ViewFault}
    (hknown : Throughout HasKnownOperators e) (h : e.steps limits = .error fault) :
    fault = .unexplained (.numeral .writing) ∨
      (fault = .tooDeep ∧ limits.explaining < e.height) := by
  rcases (yieldsIffBoth_steps limits hknown).of_error h with ⟨-, rfl⟩ | ⟨hnot, rfl⟩
  · exact Or.inl rfl
  · exact Or.inr ⟨rfl, Nat.lt_of_not_le hnot⟩

/-- Whatever tree is given and whatever text, either a numeral has too many digits to be read, or
the tree has an expression, in which all matchers have operators with a relation in words.  Then the
explanation of a part fails only at a duration with too many digits to be written, and that of all
parts at such a duration or where there is no room for all levels. -/
theorem explained_of_tree (query : List Char) (n : Node) :
    (∃ digits, numeralLimit < digits ∧ (ofTree query n).result = .error (.reading digits)) ∨
      ∃ a, (ofTree query n).result = .ok a ∧
        Throughout (fun e => (∀ m ∈ e.matchers, ∃ words, m.operator.relation = .ok words) ∧
          ∀ cause, e.explain = .error cause → cause = .numeral .writing) a ∧
        ∀ (limits : Limits) (fault : ViewFault), a.steps limits = .error fault →
          fault = .unexplained (.numeral .writing) ∨
            (fault = .tooDeep ∧ limits.explaining < a.height) := by
  cases hresult : (ofTree query n).result with
  | error cause =>
    obtain ⟨digits, hdigits, rfl⟩ := exists_digits_of_error hresult
    exact Or.inl ⟨digits, hdigits, rfl⟩
  | ok a =>
    have hknown := hasKnownOperators_ofTree n n n.mem_preorder_self a hresult
    refine Or.inr ⟨a, rfl, ?_, fun limits fault => steps_eq_error hknown⟩
    intro depth place e he
    have hpart := hknown depth place e he
    exact ⟨fun m hm => MatchOperator.isKnown_iff.1 (hpart m hm), fun cause =>
      explain_eq_error hpart⟩

end Expr

end PromqlGuide
