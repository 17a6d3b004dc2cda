import PromqlGuide.Proofs.Grammar.Unique

/-!
# Reading deeper

A reader that may follow rules further down reads the same, except where it went too deep before
(`Rule.finishesAs_read`).  So a query that is written as a tree goes too deep exactly if the tree is
nested too deep: it is never rejected or read in another way (`Reading.within_eq_tooDeep`).
-/
namespace PromqlGuide

open Text Written

/-- Whether an outcome is another one, unless it goes too deep. -/
def Outcome.FinishesAs (o o' : Outcome) : Prop := o = .tooDeep ∨ o = o'

/-- What goes too deep wherever an outcome does keeps the relation. -/
lemma Outcome.FinishesAs.map {o o' : Outcome} (h : o.FinishesAs o') {f : Outcome → Outcome}
    (hf : f .tooDeep = .tooDeep) : (f o).FinishesAs (f o') := by
  rcases h with rfl | rfl
  · exact Or.inl hf
  · exact Or.inr rfl

/-- A repetition finishes as the other one does if each of its steps does. -/
lemma readMany_finishesAs {item item' : Cursor → Outcome}
    (h : ∀ c, (item c).FinishesAs (item' c)) (n : Nat) (c : Cursor) :
    (readMany item n c).FinishesAs (readMany item' n c) := by
  induction n generalizing c with
  | zero => exact Or.inr rfl
  | succ n ih =>
    unfold readMany
    rcases h c with hdeep | heq
    · rw [hdeep]
      exact Or.inl rfl
    · rw [heq]
      cases item' c with
      | done items next stuck => exact (ih next).map (f := Outcome.after items stuck) rfl
      | failed stuck => exact Or.inr rfl
      | tooDeep => exact Or.inl rfl

/-- A form reads the same if the rules do, except where one of them goes too deep. -/
theorem Form.finishesAs_read {call call' : Rule → Cursor → Outcome}
    (h : ∀ r c, (call r c).FinishesAs (call' r c)) (f : Form) (c : Cursor) :
    (f.read call c).FinishesAs (f.read call' c) := by
  -- Where the first part went too deep so did the whole; else both go on at the same place.
  induction f generalizing c with
  | token t | mark m | nothing => exact Or.inr rfl
  | seq f g ihf ihg =>
    simp only [read]
    rcases ihf c with hdeep | heq
    · rw [hdeep]
      exact Or.inl rfl
    · rw [heq]
      cases f.read call' c with
      | done items next stuck => exact (ihg next).map (f := Outcome.after items stuck) rfl
      | failed stuck => exact Or.inr rfl
      | tooDeep => exact Or.inl rfl
  | choice f g ihf ihg =>
    simp only [read]
    rcases ihf c with hdeep | heq
    · rw [hdeep]
      exact Or.inl rfl
    · rw [heq]
      cases f.read call' c with
      | done items next stuck => exact Or.inr rfl
      | failed stuck => exact (ihg c).map (f := Outcome.afterFailure stuck) rfl
      | tooDeep => exact Or.inl rfl
  | many f ih => exact readMany_finishesAs ih (c.rest.length + 1) c
  | phrase p body ih => exact (ih c).map (f := Outcome.mapItems _) rfl
  | graft f g ihf ihg =>
    simp only [read]
    rcases ihf c with hdeep | heq
    · rw [hdeep]
      exact Or.inl rfl
    · rw [heq]
      cases f.read call' c with
      | done items next stuck =>
        dsimp only
        rcases ihg next with hdeep | heq
        · rw [hdeep]
          exact Or.inl rfl
        · rw [heq]
          exact Or.inr rfl
      | failed stuck => exact Or.inr rfl
      | tooDeep => exact Or.inl rfl
  | rule r => exact h r c

/-- A rule reads the same when rules are followed deeper, except where it went too deep. -/
theorem Rule.finishesAs_read {depth depth' : Nat} (h : depth ≤ depth') (r : Rule) (c : Cursor) :
    (Rule.read depth r c).FinishesAs (Rule.read depth' r c) := by
  induction depth generalizing depth' r c with
  | zero => exact Or.inl rfl
  | succ depth ih =>
    obtain ⟨d, rfl⟩ := Nat.exists_eq_add_of_le' (Nat.le_trans (Nat.le_add_left 1 depth) h)
    exact Form.finishesAs_read (fun r c => ih (Nat.le_of_succ_le_succ h) r c) r.form c

/-- A query is read the same when rules are followed deeper, except where it went too deep. -/
theorem Reading.within_of_le {depth depth' : Nat} (h : depth ≤ depth') (query : List Char) :
    Reading.within depth query = .tooDeep ∨ Reading.within depth query =
      Reading.within depth' query := by
  unfold Reading.within
  rcases Form.finishesAs_read (Rule.finishesAs_read h) (Form.optional (.rule .expression))
    (.start query) with hdeep | heq
  · rw [hdeep]
    exact Or.inl rfl
  · rw [heq]
    exact Or.inr rfl

/-- A query that is written as a tree goes too deep where rules are not followed as deep as the tree
is nested. -/
theorem Reading.within_eq_tooDeep {depth : Nat} {e : Written} {query : List Char}
    (he : e.Writes (e.nesting + 1) query) (hdepth : depth ≤ e.nesting) :
    Reading.within depth query = .tooDeep := by
  rcases Reading.within_of_le (Nat.le_succ_of_le hdepth) query with hdeep | heq
  · exact hdeep
  · exfalso
    obtain ⟨n, hn⟩ := exists_node_of_isNode (isNode_of_grammatical he.grammatical) 0
    have hread : Reading.within (e.nesting + 1) query = .accepted (some n) :=
      Reading.within_eq_accepted_iff.2 ⟨e, he, hn⟩
    rw [hread] at heq
    -- A reading at the smaller depth would be one of the same tree, which is nested deeper.
    obtain ⟨e', he', -⟩ := Reading.within_eq_accepted_iff.1 heq
    have hwrites : e'.Writes (e.nesting + 1) query :=
      ⟨he'.grammatical, Nat.lt_of_lt_of_le he'.nesting_lt (Nat.le_succ_of_le hdepth), he'.laidOut⟩
    obtain rfl := he.unique hwrites
    exact Nat.not_lt.2 hdepth he'.nesting_lt

end PromqlGuide
