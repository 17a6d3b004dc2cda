import PromqlGuide.Proofs.Lists
import PromqlGuide.Proofs.Written.Subtree

/-!
# Trees with matching lexemes

Two written trees are *matched* if they have the same shape and a relation `S` between lexemes holds
in corresponding places.  A tree can be written with any other lexemes that are related to its own
(`Written.exists_matched`), and if related lexemes are of one kind and equally long, then both trees
stand for the same node (`Written.Matched.item_eq`).
-/
namespace PromqlGuide

namespace Written

/-- Whether two trees have the same shape and related lexemes in corresponding places. -/
inductive Matched (S : Lexeme → Lexeme → Prop) : Written → Written → Prop where
  | lexeme {l l' : Lexeme} : S l l' → Matched S (.lexeme l) (.lexeme l')
  | phrase {p : Phrase} {ws vs : List Written} : List.Forall₂ (Matched S) ws vs →
      Matched S (.phrase p ws) (.phrase p vs)

namespace Matched

variable {S T : Lexeme → Lexeme → Prop} {w v : Written} {ws vs : List Written}

/-- A tree matches itself where lexemes are related to themselves. -/
lemma refl (hS : ∀ l, S l l) (w : Written) : Matched S w w := by
  induction w with
  | lexeme l => exact .lexeme (hS l)
  | phrase p parts ih => exact .phrase (List.forall₂_same.2 ih)

/-- Matched trees are matched by every weaker relation of lexemes. -/
lemma mono (h : Matched S w v) (hST : ∀ l l', S l l' → T l l') : Matched T w v := by
  induction w generalizing v with
  | lexeme l =>
    cases h with
    | lexeme hl => exact .lexeme (hST _ _ hl)
  | phrase p parts ih =>
    cases h with
    | phrase hparts =>
      exact .phrase (forall₂_of_mem hparts fun u hu v => ih u hu)

/-- Trees whose lexemes are equal in corresponding places are equal. -/
protected lemma eq (h : Matched Eq w v) : w = v := by
  induction w generalizing v with
  | lexeme l =>
    cases h with
    | lexeme hl => rw [hl]
  | phrase p parts ih =>
    cases h with
    | phrase hparts =>
      have hequal := forall₂_of_mem (T := Eq) hparts fun u hu v => ih u hu
      rw [List.forall₂_eq_eq_eq] at hequal
      rw [hequal]

/-- The lexemes of lists of matched trees correspond. -/
lemma lexemesAll (h : List.Forall₂ (Matched S) ws vs)
    (hlexemes : ∀ w ∈ ws, ∀ v, Matched S w v → List.Forall₂ S w.lexemes v.lexemes) :
    List.Forall₂ S (lexemesAll ws) (lexemesAll vs) := by
  induction h with
  | nil => exact .nil
  | cons hw _ ih =>
    simp only [Written.lexemesAll]
    exact List.rel_append (hlexemes _ List.mem_cons_self _ hw)
      (ih fun u hu => hlexemes u (List.mem_cons_of_mem _ hu))

/-- The lexemes of matched trees correspond. -/
lemma lexemes (h : Matched S w v) : List.Forall₂ S w.lexemes v.lexemes := by
  induction w generalizing v with
  | lexeme l =>
    cases h with
    | lexeme hl => exact .cons hl .nil
  | phrase p parts ih =>
    cases h with
    | phrase hparts => exact lexemesAll hparts fun u hu v hv => ih u hu hv

/-! ### Nodes -/

/-- Trees whose lexemes are of the same kinds and equally long stand for the same node. -/
theorem item_eq (hS : ∀ l l', S l l' → l'.kind = l.kind ∧ l'.gap.length = l.gap.length ∧
      l'.text.length = l.text.length) (h : Matched S w v) (position : Nat) :
    v.item position = w.item position := by
  have length_eq : ∀ {w v : Written}, Matched S w v → v.text.length = w.text.length := by
    intro w v h
    have hlexemes := h.lexemes
    rw [text, text]
    generalize w.lexemes = ls, v.lexemes = ms at hlexemes
    induction hlexemes with
    | nil => rfl
    | cons hl _ ih =>
      simp only [Lexeme.writtenAll_cons, List.length_append, ih, (hS _ _ hl).2.1, (hS _ _ hl).2.2]
  induction w generalizing v position with
  | lexeme l =>
    cases h with
    | lexeme hl =>
      obtain ⟨hkind, hgap, htext⟩ := hS _ _ hl
      simp only [item, leaf, hkind, hgap, htext]
  | phrase p parts ih =>
    cases h with
    | @phrase _ _ vs hparts =>
      have hitems : items position vs = items position parts := by
        induction hparts generalizing position with
        | nil => rfl
        | cons hw _ ihparts =>
          rw [items, items, ih _ List.mem_cons_self hw position, length_eq hw,
            ihparts (fun u hu => ih u (List.mem_cons_of_mem _ hu))]
      rw [item, item, hitems]

end Matched

/-! ### Changing the lexemes -/

variable {S : Lexeme → Lexeme → Prop}

/-- Lexemes that are related to those of a list of trees are divided between trees of the same
shapes. -/
lemma exists_matchedAll {ws : List Written} (hws : ∀ w ∈ ws, ∀ ms : List Lexeme,
      List.Forall₂ S w.lexemes ms → ∃ v, Matched S w v ∧ v.lexemes = ms) {ms : List Lexeme}
    (h : List.Forall₂ S (lexemesAll ws) ms) :
    ∃ vs, List.Forall₂ (Matched S) ws vs ∧ lexemesAll vs = ms := by
  induction ws generalizing ms with
  | nil =>
    obtain rfl := List.forall₂_nil_left_iff.1 h
    exact ⟨[], .nil, rfl⟩
  | cons w ws ih =>
    obtain ⟨ls, ls', rfl, hls, hls'⟩ := exists_of_forall₂_append h
    obtain ⟨v, hv, rfl⟩ := hws w List.mem_cons_self ls hls
    obtain ⟨vs, hvs, rfl⟩ := ih (fun u hu => hws u (List.mem_cons_of_mem w hu)) hls'
    exact ⟨v :: vs, .cons hv hvs, rfl⟩

/-- A tree can be written with any lexemes that are related to its own. -/
theorem exists_matched (w : Written) {ms : List Lexeme} (h : List.Forall₂ S w.lexemes ms) :
    ∃ v, Matched S w v ∧ v.lexemes = ms := by
  induction w generalizing ms with
  | lexeme l =>
    obtain ⟨m, rfl, hm⟩ := exists_of_forall₂_singleton h
    exact ⟨.lexeme m, .lexeme hm, rfl⟩
  | phrase p parts ih =>
    obtain ⟨vs, hvs, rfl⟩ := exists_matchedAll (fun w hw ms hms => ih w hw hms) h
    exact ⟨.phrase p vs, .phrase hvs, rfl⟩

end Written

end PromqlGuide
