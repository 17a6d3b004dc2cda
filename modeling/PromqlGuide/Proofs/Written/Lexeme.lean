import Mathlib.Tactic.Common
import PromqlGuide.Proofs.Token.Opening

/-!
# Lexemes

A query is written as a sequence of *lexemes*: tokens and the marks between them, each with the gap
of blank text in front of it.  Without its gap a lexeme is a *word*; the grammar only looks at
words.

Main statement: in a sequence of lexemes that is `LaidOut`, the reader finds each of them where it
stands (`length_of_laidOut`).
-/
namespace PromqlGuide

open Text

/-- What a lexeme is: a token that appears in a syntax tree, or a mark that only separates. -/
inductive Lexical where
  | token (t : Terminal)
  | mark (c : Char)
  deriving Repr, DecidableEq

namespace Lexical

/-- Length of a lexeme of a kind at the start of a text. -/
def length? : Lexical → List Char → Option Nat
  | token t => t.length?
  | mark c => Terminal.literalLength? [c]

/-- Whether a text is a lexeme of a kind by itself. -/
def spells : Lexical → List Char → Bool
  | token t, w => t.spells w
  | mark c, w => w == [c]

/-- Whether a text does not run into a lexeme `w` of a kind that stands in front of it. -/
def stopsAt : Lexical → List Char → List Char → Bool
  | token t, w, rest => t.stopsAt w rest
  | mark _, _, _ => true

/-- Whether a lexeme of a kind can start with a character. -/
def opens : Lexical → Char → Bool
  | token t, c => t.opens c
  | mark m, c => m == c

/-- The marks of the grammar. -/
def marks : List Char := ['(', ')', '\x7b', '\x7d', '[', ']', ',', ':']

/-- Whether the kind is one that the grammar has. -/
def isUsed : Lexical → Bool
  | token _ => true
  | mark c => decide (c ∈ marks)

/-- A lexeme is read back in front of a text that it does not run into. -/
lemma length_append {x : Lexical} {w rest : List Char} (hw : x.spells w = true)
    (hrest : x.stopsAt w rest = true) : x.length? (w ++ rest) = some w.length := by
  cases x with
  | token t => exact Terminal.length_append hw hrest
  | mark c => exact Terminal.literalLength_append_iff.2 (beq_iff_eq.1 hw)

/-- A lexeme lies inside the text. -/
lemma length_le {x : Lexical} {cs : List Char} {n : Nat} (h : x.length? cs = some n) :
    n ≤ cs.length := by
  cases x with
  | token t => exact Terminal.length_le h
  | mark c => exact (Terminal.literalLength_advancing (by simp) cs n h).2

/-- A lexeme is not empty. -/
lemma ne_nil_of_spells {x : Lexical} {w : List Char} (h : x.spells w = true) : w ≠ [] := by
  cases x with
  | token t => exact Terminal.ne_nil_of_spells h
  | mark c =>
    rintro rfl
    cases h

/-- What is read as a lexeme starts with a character that it can start with. -/
lemma opens_of_length {x : Lexical} {cs : List Char} {n : Nat} (h : x.length? cs = some n) :
    ∃ c rest, cs = c :: rest ∧ x.opens c = true := by
  cases x with
  | token t => exact Terminal.opens_of_length h
  | mark c =>
    obtain ⟨d, rest, rfl, hd⟩ := Terminal.opens_of_literalLength (by simp) h
    cases hd
    exact ⟨c, rest, rfl, by simp [opens]⟩

/-- A lexeme is not found at a character that it cannot start with. -/
lemma length_eq_none {x : Lexical} {c : Char} (h : x.opens c = false) (cs : List Char) :
    x.length? (c :: cs) = none := by
  cases hn : x.length? (c :: cs) with
  | none => rfl
  | some n =>
    obtain ⟨d, rest, heq, hd⟩ := opens_of_length hn
    cases heq
    rw [h] at hd
    cases hd

/-- Nothing is read at the end of a text. -/
lemma length_nil (x : Lexical) : x.length? [] = none := by
  cases hn : x.length? [] with
  | none => rfl
  | some n =>
    obtain ⟨c, rest, heq, -⟩ := opens_of_length hn
    cases heq

/-- A word starts with a character that its kind can start with. -/
lemma opens_of_spells {x : Lexical} {w : List Char} (h : x.spells w = true) :
    ∃ c rest, w = c :: rest ∧ x.opens c = true := by
  cases x with
  | token t => exact Terminal.opens_of_spells h
  | mark c =>
    rw [beq_iff_eq.1 h]
    exact ⟨c, [], rfl, by simp [opens]⟩

/-- A lexeme starts with neither whitespace nor a comment mark. -/
lemma not_blank_of_opens {x : Lexical} (hx : x.isUsed = true) {c : Char} (h : x.opens c = true) :
    isSpace c = false ∧ c ≠ '#' := by
  cases x with
  | token t => exact Terminal.not_blank_of_opens h
  | mark m =>
    rw [← beq_iff_eq.1 (show (m == c) = true from h)]
    have visible : ∀ d ∈ marks, isSpace d = false ∧ d ≠ '#' := by decide
    exact visible m (of_decide_eq_true hx)

end Lexical

/-! ### Words and lexemes -/

/-- A lexeme without the gap in front of it. -/
structure Word where
  kind : Lexical
  text : List Char
  deriving Repr, DecidableEq

/-- A word and the gap in front of it. -/
structure Lexeme extends Word where
  gap : List Char
  deriving Repr, DecidableEq

namespace Lexeme

/-- How a lexeme is written. -/
def written (l : Lexeme) : List Char := l.gap ++ l.text

/-- How lexemes are written one after the other. -/
def writtenAll (ls : List Lexeme) : List Char := ls.flatMap written

/-- No lexemes write nothing. -/
@[simp] lemma writtenAll_nil : writtenAll [] = [] := rfl

/-- The first lexeme is written with its gap in front of the others. -/
@[simp] lemma writtenAll_cons (l : Lexeme) (ls : List Lexeme) :
    writtenAll (l :: ls) = l.gap ++ (l.text ++ writtenAll ls) := by
  simp [writtenAll, written]

/-- Lexemes behind lexemes are written behind them. -/
@[simp] lemma writtenAll_append (ls ms : List Lexeme) :
    writtenAll (ls ++ ms) = writtenAll ls ++ writtenAll ms := by
  simp [writtenAll]

/-- Whether a lexeme is one: blank text and, behind it, a word of its kind. -/
def Proper (l : Lexeme) : Prop :=
  isGap l.gap = true ∧ l.kind.isUsed = true ∧ l.kind.spells l.text = true

instance (l : Lexeme) : Decidable l.Proper := by unfold Proper; infer_instance

/-- A lexeme starts with something visible. -/
lemma Proper.visible {l : Lexeme} (h : l.Proper) (rest : List Char) :
    startsVisible (l.text ++ rest) = true := by
  obtain ⟨c, w, hw, hc⟩ := Lexical.opens_of_spells h.2.2
  have hblank := Lexical.not_blank_of_opens h.2.1 hc
  simp [hw, startsVisible, hblank]

/-- A mark is written as itself. -/
lemma Proper.mark {l : Lexeme} {c : Char} (h : l.Proper) (hkind : l.kind = .mark c) :
    c ∈ Lexical.marks ∧ l.text = [c] := by
  obtain ⟨-, hused, hspells⟩ := h
  rw [hkind] at hused hspells
  exact ⟨of_decide_eq_true hused, beq_iff_eq.1 hspells⟩

/-- Whether lexemes in front of a text are written so that none runs into what follows it. -/
def LaidOut : List Lexeme → List Char → Prop
  | [], _ => True
  | l :: ls, rest =>
    l.Proper ∧ l.kind.stopsAt l.text (writtenAll ls ++ rest) = true ∧ LaidOut ls rest

instance decidableLaidOut : ∀ (ls : List Lexeme) (rest : List Char), Decidable (LaidOut ls rest)
  | [], _ => inferInstanceAs (Decidable True)
  | l :: ls, rest =>
    have := decidableLaidOut ls rest
    inferInstanceAs (Decidable (l.Proper ∧
      l.kind.stopsAt l.text (writtenAll ls ++ rest) = true ∧ LaidOut ls rest))

/-- No lexemes are laid out in front of any text. -/
@[simp] lemma laidOut_nil (rest : List Char) : LaidOut [] rest := trivial

/-- Lexemes are laid out if the first one is in front of what the others write, and these are. -/
lemma laidOut_cons {l : Lexeme} {ls : List Lexeme} {rest : List Char} :
    LaidOut (l :: ls) rest ↔
      l.Proper ∧ l.kind.stopsAt l.text (writtenAll ls ++ rest) = true ∧ LaidOut ls rest := Iff.rfl

/-- Lexemes are laid out if the first part of them is in front of what the second one writes, and
this one is. -/
lemma laidOut_append {ls ms : List Lexeme} {rest : List Char} :
    LaidOut (ls ++ ms) rest ↔ LaidOut ls (writtenAll ms ++ rest) ∧ LaidOut ms rest := by
  induction ls with
  | nil => simp
  | cons l ls ih => simp only [List.cons_append, laidOut_cons, ih, writtenAll_append,
      List.append_assoc, and_assoc]

/-- Lexemes that are laid out are lexemes. -/
lemma LaidOut.proper {ls : List Lexeme} {tail : List Char} (h : LaidOut ls tail) :
    ∀ l ∈ ls, l.Proper := by
  induction ls with
  | nil => simp
  | cons l ls ih => exact List.forall_mem_cons.2 ⟨h.1, ih h.2.2⟩

/-- The last character of what is written is that of one of the lexemes. -/
lemma mem_getLast_of_laidOut {ls : List Lexeme} {rest : List Char} (h : LaidOut ls rest) :
    ∀ c ∈ (writtenAll ls).getLast?, ∃ l ∈ ls, c ∈ l.text.getLast? := by
  induction ls with
  | nil => simp
  | cons l ls ih =>
    intro c hc
    rw [writtenAll_cons, List.getLast?_append, List.getLast?_append] at hc
    cases hlast : (writtenAll ls).getLast? with
    | some d =>
      rw [hlast] at hc
      obtain ⟨l', hl', hc⟩ := ih h.2.2 c (hlast ▸ hc)
      exact ⟨l', List.mem_cons_of_mem l hl', hc⟩
    | none =>
      have htext := List.getLast?_eq_some_getLast (Lexical.ne_nil_of_spells h.1.2.2)
      rw [hlast, htext] at hc
      exact ⟨l, List.mem_cons_self, htext ▸ hc⟩

/-- Behind its gap, a lexeme is found where it stands. -/
theorem length_of_laidOut {l : Lexeme} {ls : List Lexeme} {rest : List Char}
    (h : LaidOut (l :: ls) rest) :
    (writtenAll (l :: ls) ++ rest).drop (blankLength (writtenAll (l :: ls) ++ rest)) =
        l.text ++ (writtenAll ls ++ rest) ∧
      l.kind.length? (l.text ++ (writtenAll ls ++ rest)) = some l.text.length := by
  obtain ⟨hproper, hstops, -⟩ := h
  constructor
  · simp only [writtenAll_cons, List.append_assoc]
    exact drop_blankLength_append hproper.1 (hproper.visible _)
  · exact Lexical.length_append hproper.2.2 hstops

end Lexeme

end PromqlGuide
