import Mathlib.Data.List.Count
import PromqlGuide.Proofs.Display.Views

/-!
# The plain text of labels

A label is written as markup and read again where there is colour, and is written as it is where
there is none.  What is read is the same text, less one backslash in front of every bracket that
does not look like a tag: the writer puts nothing before such a bracket, and the reader takes a
backslash away.

Main statement: the trees of labels with and without colour have the same text exactly if no
backslash stands in front of such a bracket in the texts and the explanations that they show
(`LabelTree.sameText_iff`).
-/
namespace PromqlGuide

namespace Markup

variable {k : Nat} {cs : List Char}

/-! ### Lost backslashes -/

/-- Whether a backslash stands in front of a bracket that does not look like a tag. -/
def LosesBackslash (cs : List Char) : Prop :=
  ∃ before after, cs = before ++ '\\' :: '[' :: after ∧ looksLikeTag after = false

/-- A text loses no backslash at a character that is none. -/
lemma losesBackslash_cons {c : Char} (hslash : c ≠ '\\') (cs : List Char) :
    LosesBackslash (c :: cs) ↔ LosesBackslash cs := by
  constructor
  · rintro ⟨before, after, heq, htag⟩
    cases before with
    | nil => exact absurd (List.cons.inj heq).1 hslash
    | cons d before => exact ⟨before, after, (List.cons.inj heq).2, htag⟩
  · rintro ⟨before, after, rfl, htag⟩
    exact ⟨c :: before, after, rfl, htag⟩

/-- Of backslashes in front of a text only the last one can be lost, in front of a bracket. -/
lemma losesBackslash_replicate {c : Char} (hslash : c ≠ '\\') (k : Nat) (cs : List Char) :
    LosesBackslash (List.replicate k '\\' ++ c :: cs) ↔
      (0 < k ∧ c = '[' ∧ looksLikeTag cs = false) ∨ LosesBackslash cs := by
  induction k with
  | zero => simpa using losesBackslash_cons hslash cs
  | succ k ih =>
    constructor
    · rintro ⟨before, after, heq, htag⟩
      cases before with
      | nil =>
        -- the first of the backslashes stands in front of the bracket only if it is the last one
        cases k with
        | zero =>
          obtain ⟨rfl, rfl⟩ : c = '[' ∧ cs = after := by simpa using heq
          exact Or.inl ⟨Nat.one_pos, rfl, htag⟩
        | succ k => simp [List.replicate_succ] at heq
      | cons d before =>
        have hrest := (List.cons.inj heq).2
        exact (ih.1 ⟨before, after, hrest, htag⟩).imp_left fun h => ⟨Nat.succ_pos k, h.2⟩
    · rintro (⟨-, rfl, htag⟩ | hloses)
      · exact ⟨List.replicate k '\\', cs, by simp [List.replicate_succ'], htag⟩
      · obtain ⟨before, after, heq, htag⟩ := ih.2 (Or.inr hloses)
        exact ⟨'\\' :: before, after, by rw [List.replicate_succ, List.cons_append, heq]; rfl, htag⟩

/-- A backslash behind backslashes is one more of them. -/
lemma replicate_append_slash (k : Nat) (cs : List Char) :
    List.replicate k '\\' ++ '\\' :: cs = List.replicate (k + 1) '\\' ++ cs := by
  rw [List.replicate_succ', List.append_assoc, List.singleton_append]

/-- Nothing but backslashes loses none. -/
lemma not_losesBackslash_replicate (k : Nat) : ¬ LosesBackslash (List.replicate k '\\') := by
  rintro ⟨before, after, heq, -⟩
  have hmem : '[' ∈ List.replicate k '\\' := by simp [heq]
  exact absurd (List.eq_of_mem_replicate hmem) (by decide)

/-- What remains of a text with backslashes in front of it when it is escaped and read. -/
def remains (k : Nat) (cs : List Char) : List Char :=
  keptFrom k cs ++ List.replicate (endRun k cs) '\\'

/-- In front of a bracket that does not look like a tag one backslash is missing, elsewhere none. -/
lemma remains_cons {c : Char} (hslash : c ≠ '\\') (k : Nat) (cs : List Char) :
    remains k (c :: cs) =
      List.replicate (if c = '[' ∧ looksLikeTag cs = false then k - 1 else k) '\\' ++
        c :: remains 0 cs := by
  simp [remains, keptFrom, endRun, hslash]

/-- A text remains as it is, or has fewer backslashes if it loses some. -/
lemma remains_cases (k : Nat) (cs : List Char) :
    (¬ LosesBackslash (List.replicate k '\\' ++ cs) ∧ remains k cs = List.replicate k '\\' ++ cs) ∨
      (LosesBackslash (List.replicate k '\\' ++ cs) ∧
        (remains k cs).count '\\' < (List.replicate k '\\' ++ cs).count '\\') := by
  -- `k` counts the backslashes that were read and still wait for what stands behind them.
  induction cs generalizing k with
  | nil =>
    rw [List.append_nil]
    exact Or.inl ⟨not_losesBackslash_replicate k, rfl⟩
  | cons c cs ih =>
    by_cases hslash : c = '\\'
    · subst hslash
      have hremains : remains k ('\\' :: cs) = remains (k + 1) cs := rfl
      rw [replicate_append_slash, hremains]
      exact ih (k + 1)
    have hloses := losesBackslash_replicate hslash k cs
    have hbelow := ih 0
    simp only [List.replicate_zero, List.nil_append] at hbelow
    by_cases hlost : 0 < k ∧ c = '[' ∧ looksLikeTag cs = false
    · right
      refine ⟨hloses.2 (Or.inl hlost), ?_⟩
      have hle : (remains 0 cs).count '\\' ≤ cs.count '\\' := by
        rcases hbelow with ⟨-, heq⟩ | ⟨-, hlt⟩
        · rw [heq]
        · exact hlt.le
      rw [remains_cons hslash, if_pos hlost.2]
      simp only [List.count_append, List.count_cons, List.count_replicate_self]
      omega
    · have hrun : remains k (c :: cs) = List.replicate k '\\' ++ c :: remains 0 cs := by
        rw [remains_cons hslash]
        split_ifs with hbracket
        · obtain rfl : k = 0 := Nat.eq_zero_of_not_pos fun hk => hlost ⟨hk, hbracket⟩
          rfl
        · rfl
      rw [hrun, hloses, or_iff_right hlost]
      refine hbelow.imp (fun h => ⟨h.1, by rw [h.2]⟩) fun h => ⟨h.1, ?_⟩
      simp only [List.count_append, List.count_cons]
      omega

/-- Without a backslash at its end a text remains as it is read. -/
lemma remains_of_endRun (h : endRun 0 cs = 0) : remains 0 cs = keptFrom 0 cs := by
  simp [remains, h]

/-- A character that is no backslash starts the count again. -/
lemma endRun_cons (c : Char) (cs : List Char) (k : Nat) :
    endRun k (c :: cs) = if c = '\\' then endRun (k + 1) cs else endRun 0 cs := rfl

/-- A text that does not end with a backslash has no backslashes at its end. -/
lemma endRun_eq_zero {c : Char} (hslash : c ≠ '\\') (k : Nat) (cs : List Char) :
    endRun k (cs ++ [c]) = 0 := by
  induction cs generalizing k with
  | nil => simp [endRun, hslash]
  | cons d cs ih =>
    rw [List.cons_append, endRun_cons]
    split_ifs
    · exact ih (k + 1)
    · exact ih 0

/-- Whether a text does not end with a backslash. -/
def PlainEnd (cs : List Char) : Prop := ∀ c ∈ cs.getLast?, c ≠ '\\'

instance (cs : List Char) : Decidable (PlainEnd cs) := inferInstanceAs (Decidable (∀ c ∈ _, _))

/-- Whether a text ends neither with a backslash nor with the end of a line. -/
def CleanEnd (cs : List Char) : Prop := ∀ c ∈ cs.getLast?, c ≠ '\\' ∧ c ≠ '\n'

instance (cs : List Char) : Decidable (CleanEnd cs) := inferInstanceAs (Decidable (∀ c ∈ _, _))

/-- A text that ends cleanly does not end with a backslash. -/
lemma CleanEnd.plainEnd (h : CleanEnd cs) : PlainEnd cs := fun c hc => (h c hc).1

/-- Two texts end cleanly if the second one does, or is empty and the first one does. -/
lemma cleanEnd_append {cs ds : List Char} (hcs : ds = [] → CleanEnd cs) (hds : CleanEnd ds) :
    CleanEnd (cs ++ ds) := by
  cases ds with
  | nil => simpa using hcs rfl
  | cons d ds =>
    intro c hc
    rw [List.getLast?_append_of_ne_nil _ (List.cons_ne_nil d ds)] at hc
    exact hds c hc

/-- A text ends cleanly if its characters do. -/
lemma cleanEnd_ofList (h : CleanEnd cs) : CleanEnd (String.ofList cs).toList := by
  rwa [String.toList_ofList]

/-- A text that does not end with a backslash ends with none. -/
lemma endRun_of_plainEnd (h : PlainEnd cs) : endRun 0 cs = 0 := by
  rcases List.eq_nil_or_concat cs with rfl | ⟨front, c, rfl⟩
  · rfl
  · rw [List.concat_eq_append] at h ⊢
    exact endRun_eq_zero (h c (by simp)) 0 front

/-! ### Reading -/

/-- The text of pieces, without the characters that cannot be displayed. -/
def plainOf : List Piece → List Char
  | [] => []
  | .char c :: ps => if StyledText.isDropped c then plainOf ps else c :: plainOf ps
  | .tag _ :: ps => plainOf ps

/-- The text of pieces comes in the order of the pieces. -/
lemma plainOf_append (ps qs : List Piece) : plainOf (ps ++ qs) = plainOf ps ++ plainOf qs := by
  induction ps with
  | nil => rfl
  | cons piece ps ih =>
    cases piece with
    | char c =>
      rw [List.cons_append, plainOf, plainOf, ih]
      split_ifs <;> rfl
    | tag body => exact ih

/-- The text of characters is what can be displayed of them. -/
lemma plainOf_chars (cs : List Char) :
    plainOf (chars cs) = cs.filter fun c => !StyledText.isDropped c := by
  induction cs with
  | nil => rfl
  | cons c cs ih =>
    rw [chars, List.map_cons, plainOf, ← chars, ih, List.filter_cons]
    cases StyledText.isDropped c <;> rfl

/-- Closing a tag adds no text. -/
lemma reversed_close {p q : Progress} {index : Nat} (h : p.close index = some q) :
    q.reversed = p.reversed := by
  obtain ⟨o, -, rfl⟩ := Option.map_eq_some_iff.1 h
  rfl

/-- Reading a piece adds its text. -/
lemma reversed_step {p q : Progress} {piece : Piece} (h : p.step piece = some q) :
    q.reversed.reverse = p.reversed.reverse ++ plainOf [piece] := by
  cases piece with
  | char c =>
    simp only [Progress.step, Option.some.injEq] at h
    subst h
    cases hdropped : StyledText.isDropped c <;> simp [plainOf, hdropped]
  | tag body =>
    have hsame : q.reversed = p.reversed := by
      unfold Progress.step at h
      split at h
      · cases ‹Piece.tag body = .char _›
      · dsimp only at h
        split_ifs at h
        · exact reversed_close h
        · obtain ⟨index, -, hclose⟩ := Option.bind_eq_some_iff.1 h
          exact reversed_close hclose
      · cases h
        rfl
    rw [hsame, plainOf, plainOf, List.append_nil]

/-- Reading pieces adds their text to what was read before. -/
lemma reversed_foldlM {ps : List Piece} {p q : Progress} (h : ps.foldlM Progress.step p = some q) :
    q.reversed.reverse = p.reversed.reverse ++ plainOf ps := by
  induction ps generalizing p with
  | nil =>
    cases h
    rw [plainOf, List.append_nil]
  | cons piece ps ih =>
    obtain ⟨p', hp', hrest⟩ := Option.bind_eq_some_iff.1 h
    have hone : plainOf (piece :: ps) = plainOf [piece] ++ plainOf ps := plainOf_append [piece] ps
    rw [ih hrest, reversed_step hp', hone, List.append_assoc]

/-- The text that is read from markup is that of its pieces. -/
lemma plain_read {t : StyledText} (h : read cs = some t) : t.plain = plainOf (pieces cs) := by
  obtain ⟨p, hp, rfl⟩ := Option.map_eq_some_iff.1 h
  exact reversed_foldlM hp

/-! ### Text in a style -/

/-- Only what stands behind the last other character counts at the end. -/
lemma trailingBackslashes_append {c : Char} (hslash : c ≠ '\\') (cs ds : List Char) :
    trailingBackslashes (cs ++ c :: ds) = trailingBackslashes ds := by
  simp only [trailingBackslashes, List.reverse_append, List.reverse_cons, List.append_assoc,
    List.singleton_append, List.takeWhile_append]
  split_ifs with hall
  · simp [hslash, ← hall]
  · rfl

/-- Escaping leaves the backslashes at the end. -/
lemma trailingBackslashes_escapeFrom (k : Nat) (cs : List Char) :
    trailingBackslashes (escapeFrom k cs) = endRun k cs := by
  induction cs generalizing k with
  | nil => simp [escapeFrom, endRun, trailingBackslashes]
  | cons c cs ih =>
    unfold escapeFrom
    rw [endRun_cons]
    split_ifs with hslash hopen
    · exact ih (k + 1)
    · rw [trailingBackslashes_append hslash, ih 0]
    · rw [trailingBackslashes_append hslash, ih 0]

/-- Text that does not end with a backslash is read in a style between its two tags. -/
theorem piecesFrom_styled {style text : List Char} (hstyle : IsOpening style)
    (htext : endRun 0 text = 0) (more : List Char) :
    piecesFrom none 0 (styled style text ++ more) =
      .tag style :: chars (keptFrom 0 text) ++ .tag ['/'] :: piecesFrom none 0 more := by
  have htail : closesTag ('[' :: '/' :: ']' :: more) = false := rfl
  have hescape : escape text = escapeFrom 0 text := by
    unfold escape
    dsimp only
    rw [trailingBackslashes_escapeFrom, htext]
    rfl
  have hstyled : styled style text ++ more =
      '[' :: (style ++ ']' :: (escapeFrom 0 text ++ '[' :: '/' :: ']' :: more)) := by
    simp [styled, hescape]
  have hclose : piecesFrom none 0 ('[' :: '/' :: ']' :: more) =
      .tag ['/'] :: piecesFrom none 0 more := rfl
  rw [hstyled, piecesFrom_opening hstyle, piecesFrom_escapeFrom htail, htext, hclose]
  rfl

/-- What is kept of a text without a backslash at its end is the text, or has fewer backslashes. -/
lemma keptFrom_cases (h : endRun 0 cs = 0) :
    (¬ LosesBackslash cs ∧ keptFrom 0 cs = cs) ∨
      (LosesBackslash cs ∧ (keptFrom 0 cs).count '\\' < cs.count '\\') := by
  simpa [remains_of_endRun h] using remains_cases 0 cs

/-- A text that loses no backslash is kept. -/
lemma keptFrom_of_keeps (h : endRun 0 cs = 0) (hkeeps : ¬ LosesBackslash cs) : keptFrom 0 cs = cs :=
  (keptFrom_cases h).elim And.right fun hlost => absurd hlost.1 hkeeps

/-- A text that loses a backslash has fewer of them afterwards. -/
lemma count_keptFrom_lt (h : endRun 0 cs = 0) (hloses : LosesBackslash cs) :
    (keptFrom 0 cs).count '\\' < cs.count '\\' :=
  (keptFrom_cases h).elim (fun hkept => absurd hloses hkept.1) And.right

/-- No text has more backslashes afterwards. -/
lemma count_keptFrom_le (h : endRun 0 cs = 0) : (keptFrom 0 cs).count '\\' ≤ cs.count '\\' := by
  by_cases hloses : LosesBackslash cs
  · exact (count_keptFrom_lt h hloses).le
  · rw [keptFrom_of_keeps h hloses]

/-- A text without backslashes ends with none. -/
lemma endRun_of_not_mem (h : '\\' ∉ cs) : endRun 0 cs = 0 := by
  induction cs with
  | nil => rfl
  | cons c cs ih =>
    rw [List.mem_cons, not_or] at h
    rw [endRun_cons, if_neg (Ne.symm h.1)]
    exact ih h.2

/-- A text without backslashes loses none. -/
lemma not_losesBackslash_of_not_mem (h : '\\' ∉ cs) : ¬ LosesBackslash cs := by
  rintro ⟨before, after, rfl, -⟩
  simp at h

end Markup

/-! ### Labels -/

namespace LabelTree

open Markup

/-- The text of a label, without what cannot be displayed: the kind, the text and the explanation of
a part, on two lines. -/
def labelChars (kind text explanation : List Char) : List Char :=
  (kind ++ ' ' :: text ++ '\n' :: explanation).filter fun c => !StyledText.isDropped c

/-- Without colour a label is the kind, the text and the explanation. -/
lemma plain_labelOf_false {s : Expr.Step} {t : StyledText} (h : labelOf false s = some t) :
    t.plain = labelChars s.kind.toList s.text.toList s.explanation.toList := by
  cases h
  simp [labelText, colorize, labelChars, StyledText.ofPlain]

/-- Read again, a label in colour has what is kept of its parts. -/
lemma plain_labelOf_true {s : Expr.Step} {t : StyledText} (h : labelOf true s = some t)
    (hstyle : IsOpening (kindStyle s.kind).toList) (hkind : endRun 0 s.kind.toList = 0)
    (htext : endRun 0 s.text.toList = 0) (hexplanation : endRun 0 s.explanation.toList = 0) :
    t.plain = labelChars (keptFrom 0 s.kind.toList) (keptFrom 0 s.text.toList)
      (keptFrom 0 s.explanation.toList) := by
  have hcyan : IsOpening "cyan".toList := by decide +kernel
  have hdim : IsOpening "dim white".toList := by decide +kernel
  have htoList : (labelText true s).toList =
      styled (kindStyle s.kind).toList s.kind.toList ++ ' ' ::
        (styled "cyan".toList s.text.toList ++ '\n' ::
          (styled "dim white".toList s.explanation.toList ++ [])) := by
    simp [labelText, colorize]
  have hpieces : pieces (labelText true s).toList =
      .tag (kindStyle s.kind).toList :: chars (keptFrom 0 s.kind.toList) ++ .tag ['/'] ::
        .char ' ' ::
        (.tag "cyan".toList :: chars (keptFrom 0 s.text.toList) ++ .tag ['/'] :: .char '\n' ::
          (.tag "dim white".toList :: chars (keptFrom 0 s.explanation.toList) ++
          [.tag ['/']])) := by
    have hspace := piecesFrom_plain (c := ' ') (by decide) (by decide) 0
    have hline := piecesFrom_plain (c := '\n') (by decide) (by decide) 0
    rw [pieces, htoList, piecesFrom_styled hstyle hkind, hspace, piecesFrom_styled hcyan htext,
      hline, piecesFrom_styled hdim hexplanation]
    rfl
  have hread : read (labelText true s).toList = some t := h
  have hdropped : StyledText.isDropped ' ' = false ∧ StyledText.isDropped '\n' = false := by decide
  rw [plain_read hread, hpieces]
  simp [plainOf, plainOf_append, plainOf_chars, labelChars, hdropped]

/-- A label whose parts do not end with backslashes has the same text with and without colour
exactly if its text and its explanation lose no backslash. -/
theorem plain_labelOf_iff {s : Expr.Step} {colored uncolored : StyledText}
    (hcolored : labelOf true s = some colored) (huncolored : labelOf false s = some uncolored)
    (hstyle : IsOpening (kindStyle s.kind).toList) (hkind : '\\' ∉ s.kind.toList)
    (htext : endRun 0 s.text.toList = 0) (hexplanation : endRun 0 s.explanation.toList = 0) :
    colored.plain = uncolored.plain ↔
      ¬ LosesBackslash s.text.toList ∧ ¬ LosesBackslash s.explanation.toList := by
  have hkindEnd := endRun_of_not_mem hkind
  have hkept := keptFrom_of_keeps hkindEnd (not_losesBackslash_of_not_mem hkind)
  rw [plain_labelOf_true hcolored hstyle hkindEnd htext hexplanation,
    plain_labelOf_false huncolored, hkept]
  -- backslashes can be displayed, so labels with the same text have as many of them
  have hcount : ∀ kind text explanation, (labelChars kind text explanation).count '\\' =
      kind.count '\\' + (text.count '\\' + explanation.count '\\') := by
    intro kind text explanation
    rw [labelChars, List.count_filter (by decide)]
    simp
  constructor
  · intro heq
    have hsame := congrArg (List.count '\\') heq
    rw [hcount, hcount] at hsame
    have hle := count_keptFrom_le htext
    have hle' := count_keptFrom_le hexplanation
    constructor
    · intro hloses
      have hlt := count_keptFrom_lt htext hloses
      omega
    · intro hloses
      have hlt := count_keptFrom_lt hexplanation hloses
      omega
  · rintro ⟨hkeeps, hkeeps'⟩
    rw [keptFrom_of_keeps htext hkeeps, keptFrom_of_keeps hexplanation hkeeps']

/-! ### Trees -/

/-- Whether trees have the same text at every label. -/
inductive SameText : LabelTree → LabelTree → Prop where
  | node {t u : LabelTree} (hlabel : t.label.plain = u.label.plain)
      (hchildren : List.Forall₂ SameText t.children u.children) : SameText t u

/-- Trees of labels have the same text if each part has. -/
lemma sameText_ofLabels_iff {label label' : Expr → StyledText} {e : Expr} :
    SameText (ofLabels label e) (ofLabels label' e) ↔
      Expr.Throughout (fun m => (label m).plain = (label' m).plain) e := by
  induction e using Expr.inductionOn with
  | step e ih =>
    rw [ofLabels_eq label, ofLabels_eq label']
    constructor
    · rintro ⟨hlabel, hchildren⟩
      refine Expr.throughout hlabel fun c hc => (ih c hc).1 ?_
      rw [List.forall₂_map_left_iff, List.forall₂_map_right_iff, List.forall₂_same] at hchildren
      exact hchildren c hc
    · intro h
      refine .node h.self ?_
      rw [List.forall₂_map_left_iff, List.forall₂_map_right_iff, List.forall₂_same]
      exact fun c hc => (ih c hc).2 (h.child hc)

/-- Whether neither the text nor the explanation of an expression ends with a backslash. -/
structure EndsPlainly (e : Expr) : Prop where
  text : PlainEnd e.text.toList
  explanation : PlainEnd e.explanation.toList

/-- The label of a part has the same text with and without colour exactly if its text and its
explanation lose no backslash. -/
lemma plain_labelFor_iff {e : Expr} (h : EndsPlainly e) :
    (labelFor true e).plain = (labelFor false e).plain ↔
      ¬ LosesBackslash e.text.toList ∧ ¬ LosesBackslash e.explanation.toList := by
  refine plain_labelOf_iff (labelOf_stepOf true (0, e)) (labelOf_stepOf false (0, e))
    (isOpening_kindStyle e) ?_ (endRun_of_plainEnd h.text) (endRun_of_plainEnd h.explanation)
  cases e <;> (dsimp only [Expr.stepOf, Expr.kindName]; decide)

/-- If there is a list of explained parts, there are both trees, and they have the same text exactly
if nothing in the list loses a backslash. -/
theorem sameText_iff {limits : Limits} {e : Expr} {steps : List Expr.Step}
    (hsteps : e.steps limits = .ok steps) (hends : Expr.Throughout EndsPlainly e) :
    ∃ colored uncolored, ofExpr limits true e = .ok colored ∧
      ofExpr limits false e = .ok uncolored ∧
      (colored.SameText uncolored ↔
        ∀ s ∈ steps, ¬ LosesBackslash s.text.toList ∧ ¬ LosesBackslash s.explanation.toList) := by
  obtain ⟨hexplained, hroom⟩ := Expr.explained_of_steps hsteps
  obtain rfl : (e.preorder 0).map Expr.stepOf = steps :=
    Except.ok.inj ((Expr.steps_of_explained hexplained hroom).symm.trans hsteps)
  refine ⟨_, _, ofExpr_of_explained true hexplained hroom,
    ofExpr_of_explained false hexplained hroom, ?_⟩
  rw [sameText_ofLabels_iff, Expr.throughout_iff_preorder, List.forall_mem_map]
  exact forall₂_congr fun part hpart => plain_labelFor_iff (hends 0 part.1 part.2 hpart)

end LabelTree

end PromqlGuide
