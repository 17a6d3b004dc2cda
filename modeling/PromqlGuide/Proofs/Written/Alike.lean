import PromqlGuide.Proofs.Written.Similar

/-!
# Trees that differ in their gaps

Two written trees are *alike* if they only differ in the gaps between their words.  Being an
expression and its nesting do not depend on gaps (`Written.Alike.grammatical`), and a tree can be
given any other gaps (`Written.exists_alike`).
-/
namespace PromqlGuide.Written

/-- Whether two trees are the same but for the gaps in them. -/
inductive Alike : Written → Written → Prop where
  | lexeme {l l' : Lexeme} : l'.toWord = l.toWord → Alike (.lexeme l) (.lexeme l')
  | phrase {p : Phrase} {ws vs : List Written} : List.Forall₂ Alike ws vs →
      Alike (.phrase p ws) (.phrase p vs)

/-- Whether two lexemes are the same but for the gap. -/
abbrev SameWord (l l' : Lexeme) : Prop := l'.toWord = l.toWord

namespace Alike

variable {w v : Written}

/-- A tree is alike to itself. -/
protected lemma rfl : ∀ {w : Written}, Alike w w := by
  intro w
  induction w with
  | lexeme l => exact .lexeme rfl
  | phrase p parts ih => exact .phrase (List.forall₂_same.2 ih)

/-- A tree without its first gap is alike to the tree. -/
lemma bare (w : Written) : Alike w w.bare := by
  induction w with
  | lexeme l => exact .lexeme rfl
  | phrase p parts ih =>
    cases parts with
    | nil => exact .rfl
    | cons w ws =>
      exact .phrase (.cons (ih w List.mem_cons_self) (List.forall₂_same.2 fun _ _ => .rfl))

/-- Trees are alike if their words match. -/
lemma iff_matched : Alike w v ↔ Matched SameWord w v := by
  constructor
  · intro h
    induction w generalizing v with
    | lexeme l =>
      cases h with
      | lexeme hl => exact .lexeme hl
    | phrase p parts ih =>
      cases h with
      | phrase hparts => exact .phrase (forall₂_of_mem hparts fun u hu _ => ih u hu)
  · intro h
    induction w generalizing v with
    | lexeme l =>
      cases h with
      | lexeme hl => exact .lexeme hl
    | phrase p parts ih =>
      cases h with
      | phrase hparts => exact .phrase (forall₂_of_mem hparts fun u hu _ => ih u hu)

/-- The grammar does not look at gaps. -/
lemma similar (h : Alike w v) : Similar w v :=
  (iff_matched.1 h).mono fun l _ hl => hl ▸ Word.Similar.refl l.toWord

/-- Alike trees are nested equally deep. -/
lemma nesting (h : Alike w v) : v.nesting = w.nesting := h.similar.nesting

/-- Whether a tree is an expression does not depend on its gaps. -/
theorem grammatical (h : Alike w v) (hw : Grammatical Clear w) : Grammatical Clear v :=
  h.similar.grammatical hw

end Alike

/-- A tree can be written with any gaps. -/
theorem exists_alike (w : Written) {ms : List Lexeme} (h : ms.map Lexeme.toWord = w.words) :
    ∃ v, Alike w v ∧ v.lexemes = ms := by
  have hwords : List.Forall₂ SameWord w.lexemes ms := by
    rw [words, ← List.forall₂_eq_eq_eq, List.forall₂_map_left_iff, List.forall₂_map_right_iff] at h
    exact h.flip
  obtain ⟨v, hv, hms⟩ := exists_matched w hwords
  exact ⟨v, Alike.iff_matched.2 hv, hms⟩

end PromqlGuide.Written
