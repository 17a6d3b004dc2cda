import PromqlGuide.Proofs.Written.Alike
import PromqlGuide.Proofs.Written.Fragment

/-!
# Blank text in front of a tree

A tree may have more blank text in the gap in front of it (`Written.indent`).  It stays an
expression of the same words, it is laid out as before, and without its first gap it is the same
tree (`Written.bare_indent`).
-/
namespace PromqlGuide.Written

open Text

variable {clear : List Written → List Word → Prop} {w : Written} {blank rest : List Char}

/-- A tree with more blank text in front of it. -/
def indent (blank : List Char) : Written → Written
  | lexeme l => lexeme { l with gap := blank ++ l.gap }
  | phrase p [] => phrase p []
  | phrase p (w :: ws) => phrase p (indent blank w :: ws)

/-- Without its first gap an indented tree is the same. -/
lemma bare_indent (blank : List Char) (w : Written) : (w.indent blank).bare = w.bare := by
  induction w with
  | lexeme l => rfl
  | phrase p parts ih =>
    cases parts with
    | nil => rfl
    | cons w ws => rw [indent, bare, bare, ih w List.mem_cons_self]

/-- An indented tree is alike to the tree. -/
lemma alike_indent (blank : List Char) (w : Written) : Alike w (w.indent blank) := by
  induction w with
  | lexeme l => exact .lexeme rfl
  | phrase p parts ih =>
    cases parts with
    | nil => exact .rfl
    | cons w ws =>
      exact .phrase (.cons (ih w List.mem_cons_self) (List.forall₂_same.2 fun _ _ => .rfl))

/-- An indented tree is laid out where the tree is. -/
lemma laid_indent (hblank : isGap blank = true) (h : Laid [w] rest) :
    Laid [w.indent blank] rest := by
  induction w generalizing rest with
  | lexeme l =>
    obtain ⟨⟨hgap, hproper⟩, hstops, -⟩ := h
    exact ⟨⟨isGap_append hblank hgap, hproper⟩, hstops, trivial⟩
  | phrase p parts ih =>
    cases parts with
    | nil => exact h
    | cons w ws =>
      obtain ⟨hfirst, hmore⟩ := laid_cons.1 (laid_phrase.1 h)
      exact laid_phrase.2 (laid_cons.2 ⟨ih w List.mem_cons_self hfirst, hmore⟩)

/-- The blank text is written in front of the tree. -/
lemma text_indent (h : Fragment clear w) : (w.indent blank).text = blank ++ w.text := by
  induction w with
  | lexeme l => simp [indent]
  | phrase p parts ih =>
    cases parts with
    | nil => exact absurd rfl h.parts_ne_nil
    | cons w ws =>
      have hfirst := ih w List.mem_cons_self (fragment_of_mem h w List.mem_cons_self)
      simp [indent, hfirst]

end PromqlGuide.Written
