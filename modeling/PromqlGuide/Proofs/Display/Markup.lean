import Mathlib.Tactic.Common
import PromqlGuide.Display.Markup

/-!
# Escaped text in markup

Escaped text is read as characters: no bracket in it is taken for a tag, whatever stands behind it.
Both sides look ahead to the next bracket, the writer in the text and the reader in the markup; they
see the same bracket there, since only backslashes are put in between.

Text in a style may end with backslashes that turn its closing tag into characters, but its opening
tag is always read. So tags are never closed more often than they are opened.

Main statement: text in a style can be read wherever it stands (`Markup.readsOn_styled`).
-/
namespace PromqlGuide.Markup

variable {k : Nat} {cs tail : List Char}

/-! ### Looking ahead -/

/-- Backslashes close no tag. -/
lemma closesTag_replicate (k : Nat) (cs : List Char) :
    closesTag (List.replicate k '\\' ++ cs) = closesTag cs := by
  induction k with
  | zero => rfl
  | succ k ih => exact ih

/-- Escaping does not change which bracket comes next. -/
lemma closesTag_escapeFrom (k : Nat) (cs tail : List Char) :
    closesTag (escapeFrom k cs ++ tail) = closesTag (cs ++ tail) := by
  induction cs generalizing k with
  | nil => exact closesTag_replicate k tail
  | cons c cs ih =>
    unfold escapeFrom
    by_cases hslash : c = '\\'
    · subst hslash
      rw [if_pos rfl, ih]
      rfl
    rw [if_neg hslash]
    split
    · next hopen =>
      rw [List.append_assoc, closesTag_replicate, hopen.1]
      rfl
    · rw [List.append_assoc, closesTag_replicate, List.cons_append, List.cons_append, closesTag,
        closesTag, ih]

/-- A text with backslashes in front of it starts with one when it is escaped. -/
lemma escapeFrom_succ (k : Nat) (cs : List Char) : ∃ ds, escapeFrom (k + 1) cs = '\\' :: ds := by
  induction cs generalizing k with
  | nil => exact ⟨_, rfl⟩
  | cons c cs ih =>
    unfold escapeFrom
    split
    · exact ih (k + 1)
    split
    · exact ⟨_, rfl⟩
    · exact ⟨_, rfl⟩

/-- A bracket in front of escaped text looks like a tag if it does so in front of the text. -/
lemma looksLikeTag_escapeFrom (cs tail : List Char) :
    looksLikeTag (escapeFrom 0 cs ++ tail) = looksLikeTag (cs ++ tail) := by
  cases cs with
  | nil => rfl
  | cons c cs =>
    unfold escapeFrom
    by_cases hslash : c = '\\'
    · subst hslash
      rw [if_pos rfl]
      obtain ⟨ds, hds⟩ := escapeFrom_succ 0 cs
      rw [hds]
      rfl
    rw [if_neg hslash]
    split
    · next hopen =>
      rw [hopen.1]
      rfl
    · rw [List.replicate_zero, List.nil_append, List.cons_append, List.cons_append, looksLikeTag,
        looksLikeTag, closesTag_escapeFrom]

/-- In front of text that closes no tag, a text closes one by itself or not at all. -/
lemma closesTag_append (htail : closesTag tail = false) (cs : List Char) :
    closesTag (cs ++ tail) = closesTag cs := by
  induction cs with
  | nil => exact htail
  | cons c cs ih => rw [List.cons_append, closesTag, closesTag, ih]

/-- Text in which no tag ends before another begins does not make a bracket before it a tag. -/
lemma looksLikeTag_eq_false (htail : closesTag tail = false) : looksLikeTag tail = false := by
  cases tail with
  | nil => rfl
  | cons c tail =>
    rw [looksLikeTag, Bool.and_eq_false_iff]
    rw [closesTag] at htail
    by_cases hopen : c = '['
    · subst hopen
      exact .inl rfl
    · right
      split at htail
      · exact absurd htail Bool.noConfusion
      · exact htail

/-- In front of text that closes no tag, a text looks like a tag by itself or not at all. -/
lemma looksLikeTag_append (htail : closesTag tail = false) (cs : List Char) :
    looksLikeTag (cs ++ tail) = looksLikeTag cs := by
  cases cs with
  | nil => exact looksLikeTag_eq_false htail
  | cons c cs => rw [List.cons_append, looksLikeTag, looksLikeTag, closesTag_append htail]

/-! ### Reading escaped text -/

/-- Backslashes are counted until something else comes. -/
lemma piecesFrom_replicate (j k : Nat) (cs : List Char) :
    piecesFrom none j (List.replicate k '\\' ++ cs) = piecesFrom none (j + k) cs := by
  induction k generalizing j with
  | zero => rfl
  | succ k ih =>
    rw [List.replicate_succ, List.cons_append, piecesFrom, if_pos rfl, ih, Nat.add_right_comm,
      Nat.add_assoc]

/-- A character that is neither a backslash nor an opening bracket is read as itself. -/
lemma piecesFrom_plain {c : Char} (hslash : c ≠ '\\') (hopen : c ≠ '[') (k : Nat) (cs : List Char) :
    piecesFrom none k (c :: cs) = chars (List.replicate k '\\' ++ [c]) ++ piecesFrom none 0 cs := by
  rw [piecesFrom, if_neg hslash, if_neg hopen, chars, chars, List.map_append, List.append_assoc]
  rfl

/-- A bracket that looks like a tag is read as a character behind an odd number of backslashes. -/
lemma piecesFrom_escaped (k : Nat) {cs : List Char} (htag : looksLikeTag cs = true) :
    piecesFrom none (2 * k + 1) ('[' :: cs) =
      chars (List.replicate k '\\' ++ ['[']) ++ piecesFrom none 0 cs := by
  have hodd : (2 * k + 1) % 2 = 1 := by omega
  have hhalf : (2 * k + 1) / 2 = k := by omega
  rw [piecesFrom, if_neg (by decide), if_pos rfl, if_pos htag]
  simp only [hodd, hhalf, if_true, chars, List.map_append, List.append_assoc]
  rfl

/-- A bracket that does not look like a tag is read as a character. -/
lemma piecesFrom_untagged (k : Nat) {cs : List Char} (htag : looksLikeTag cs = false) :
    piecesFrom none k ('[' :: cs) =
      chars (List.replicate (k - 1) '\\' ++ ['[']) ++ piecesFrom none 0 cs := by
  rw [piecesFrom, if_neg (by decide), if_pos rfl, if_neg (by simp [htag]), chars, chars,
    List.map_append, List.append_assoc]
  rfl

/-- What is read of a text that was escaped, up to the backslashes at its end: in front of a bracket
that does not look like a tag one backslash is missing.  The number counts the backslashes before
the text. -/
def keptFrom (k : Nat) : List Char → List Char
  | [] => []
  | c :: rest =>
    if c = '\\' then keptFrom (k + 1) rest
    else
      let run := if c = '[' ∧ looksLikeTag rest = false then k - 1 else k
      List.replicate run '\\' ++ c :: keptFrom 0 rest

/-- How many backslashes a text with further ones in front of it ends with. -/
def endRun (k : Nat) : List Char → Nat
  | [] => k
  | c :: rest => if c = '\\' then endRun (k + 1) rest else endRun 0 rest

/-- Escaped text is read as characters, up to the backslashes at its end. -/
lemma piecesFrom_escapeFrom (htail : closesTag tail = false) (k : Nat) (cs : List Char) :
    piecesFrom none 0 (escapeFrom k cs ++ tail) =
      chars (keptFrom k cs) ++ piecesFrom none (endRun k cs) tail := by
  induction cs generalizing k with
  | nil =>
    rw [escapeFrom, piecesFrom_replicate, Nat.zero_add]
    rfl
  | cons c cs ih =>
    have hlook : looksLikeTag (escapeFrom 0 cs ++ tail) = looksLikeTag cs := by
      rw [looksLikeTag_escapeFrom, looksLikeTag_append htail]
    unfold escapeFrom keptFrom endRun
    by_cases hslash : c = '\\'
    · simp only [if_pos hslash]
      exact ih (k + 1)
    simp only [if_neg hslash]
    -- what is read of one character goes in front of what is read of the rest
    have hcons : ∀ j es, piecesFrom none j (c :: (escapeFrom 0 cs ++ tail)) =
        chars (es ++ [c]) ++ piecesFrom none 0 (escapeFrom 0 cs ++ tail) →
        piecesFrom none 0 (List.replicate j '\\' ++ c :: escapeFrom 0 cs ++ tail) =
          chars (es ++ c :: keptFrom 0 cs) ++ piecesFrom none (endRun 0 cs) tail := by
      intro j es h
      rw [List.append_assoc, piecesFrom_replicate, Nat.zero_add, List.cons_append, h, ih 0]
      simp [chars]
    by_cases hopen : c = '['
    · subst hopen
      cases htag : looksLikeTag cs with
      | true =>
        simp only [reduceCtorEq, and_false, and_self, if_true, if_false]
        exact hcons _ _ (piecesFrom_escaped k (hlook.trans htag))
      | false =>
        simp only [reduceCtorEq, and_false, and_self, if_true, if_false]
        exact hcons _ _ (piecesFrom_untagged k (hlook.trans htag))
    · simp only [hopen, false_and, if_false]
      exact hcons _ _ (piecesFrom_plain hslash hopen k _)

/-- An escaped text is read as characters, up to the backslashes at its end. -/
lemma exists_piecesFrom_escape (htail : closesTag tail = false) (cs : List Char) :
    ∃ ds m, piecesFrom none 0 (escape cs ++ tail) = chars ds ++ piecesFrom none m tail := by
  unfold escape
  dsimp only
  split
  · rw [List.append_assoc]
    have hslash : closesTag (['\\'] ++ tail) = false := htail
    exact ⟨_, endRun 0 cs + 1, piecesFrom_escapeFrom hslash 0 cs⟩
  · exact ⟨_, _, piecesFrom_escapeFrom htail 0 cs⟩

/-! ### Reading text in a style -/

/-- What can stand between the brackets of an opening tag. -/
def IsOpening (style : List Char) : Prop :=
  (style.head?.any fun c => isTagStart c && c != '/') = true ∧ ∀ d ∈ style, d ≠ '[' ∧ d ≠ ']'

instance (style : List Char) : Decidable (IsOpening style) := inferInstanceAs (Decidable (_ ∧ _))

/-- The name of a style starts like a tag that opens. -/
lemma IsOpening.head {style : List Char} (h : IsOpening style) :
    ∃ c name, style = c :: name ∧ isTagStart c = true ∧ c ≠ '/' := by
  cases style with
  | nil => exact absurd h.1 (by decide)
  | cons c name => exact ⟨c, name, rfl, by simpa [IsOpening] using h.1⟩

/-- The rest of a tag is read up to the first closing bracket. -/
lemma piecesFrom_body {style : List Char} (hstyle : ∀ d ∈ style, d ≠ ']') (body more : List Char) :
    piecesFrom (some body) 0 (style ++ ']' :: more) =
      .tag (body.reverse ++ style) :: piecesFrom none 0 more := by
  induction style generalizing body with
  | nil => simp [piecesFrom]
  | cons d style ih =>
    rw [List.forall_mem_cons] at hstyle
    rw [List.cons_append, piecesFrom]
    simp only [hstyle.1, if_false, ih hstyle.2, List.reverse_cons, List.append_assoc]
    rfl

/-- A name without brackets and a closing bracket close a tag. -/
lemma closesTag_body {style : List Char} (hstyle : ∀ d ∈ style, d ≠ '[' ∧ d ≠ ']')
    (more : List Char) : closesTag (style ++ ']' :: more) = true := by
  induction style with
  | nil => rfl
  | cons d style ih =>
    rw [List.forall_mem_cons] at hstyle
    rw [List.cons_append, closesTag, if_neg hstyle.1.2, if_neg hstyle.1.1]
    exact ih hstyle.2

/-- An opening tag with no backslash in front is read as a tag. -/
lemma piecesFrom_opening {style : List Char} (hstyle : IsOpening style) (more : List Char) :
    piecesFrom none 0 ('[' :: (style ++ ']' :: more)) = .tag style :: piecesFrom none 0 more := by
  have hbrackets := hstyle.2
  obtain ⟨c, name, rfl, hstart, -⟩ := hstyle.head
  have htag : looksLikeTag (c :: name ++ ']' :: more) = true := by
    rw [List.cons_append, looksLikeTag, hstart, Bool.true_and]
    exact closesTag_body (List.forall_mem_cons.1 hbrackets).2 more
  rw [piecesFrom, if_neg (by decide), if_pos rfl, if_pos htag]
  exact piecesFrom_body (fun d hd => (hbrackets d hd).2) [] more

/-- Behind an even number of backslashes a closing tag is read as a tag. -/
lemma piecesFrom_closing {m : Nat} (heven : m % 2 = 0) (more : List Char) :
    piecesFrom none m ('[' :: '/' :: ']' :: more) =
      chars (List.replicate (m / 2) '\\') ++ .tag ['/'] :: piecesFrom none 0 more := by
  have htag : looksLikeTag ('/' :: ']' :: more) = true := rfl
  have hbody : ∀ d ∈ ['/'], d ≠ ']' := by decide
  rw [piecesFrom, if_neg (by decide), if_pos rfl, if_pos htag]
  dsimp only
  rw [if_neg (by omega)]
  exact congrArg _ (piecesFrom_body hbody [] more)

/-- Behind an odd number of backslashes a closing tag is read as characters. -/
lemma piecesFrom_escapedClosing {m : Nat} (hodd : m % 2 = 1) (more : List Char) :
    piecesFrom none m ('[' :: '/' :: ']' :: more) =
      chars (List.replicate (m / 2) '\\' ++ ['[', '/', ']']) ++ piecesFrom none 0 more := by
  have htag : looksLikeTag ('/' :: ']' :: more) = true := rfl
  rw [piecesFrom, if_neg (by decide), if_pos rfl, if_pos htag]
  dsimp only
  rw [if_pos hodd, piecesFrom_plain (by decide) (by decide),
    piecesFrom_plain (by decide) (by decide)]
  simp [chars]

/-- A closing tag is read as a tag or as characters. -/
lemma exists_piecesFrom_closing (m : Nat) (more : List Char) :
    ∃ ds closing, (closing = [] ∨ closing = [.tag ['/']]) ∧
      piecesFrom none m ('[' :: '/' :: ']' :: more) =
        chars ds ++ closing ++ piecesFrom none 0 more := by
  rcases Nat.mod_two_eq_zero_or_one m with heven | hodd
  · exact ⟨_, [.tag ['/']], .inr rfl, by rw [piecesFrom_closing heven, List.append_assoc]; rfl⟩
  · exact ⟨_, [], .inl rfl, by rw [piecesFrom_escapedClosing hodd, List.append_nil]⟩

/-! ### Open styles -/

/-- Characters leave open what is open. -/
lemma exists_progress_chars (cs : List Char) (p : Progress) :
    ∃ q, (chars cs).foldlM Progress.step p = some q ∧ q.opened = p.opened := by
  induction cs generalizing p with
  | nil => exact ⟨p, rfl, rfl⟩
  | cons c cs ih =>
    obtain ⟨p', hp', hopened⟩ : ∃ p', p.step (.char c) = some p' ∧ p'.opened = p.opened := by
      refine ⟨_, rfl, ?_⟩
      split <;> rfl
    obtain ⟨q, hq, hopened'⟩ := ih p'
    refine ⟨q, ?_, hopened'.trans hopened⟩
    rw [chars, List.map_cons, List.foldlM_cons, hp']
    exact hq

/-- Whether markup can be read whatever is open before it and whatever follows, up to a place where
no tag has begun. -/
def ReadsOn (cs : List Char) : Prop :=
  ∀ (more : List Char) (p : Progress), ∃ ps q,
    piecesFrom none 0 (cs ++ more) = ps ++ piecesFrom none 0 more ∧
      ps.foldlM Progress.step p = some q

/-- What can be read by itself can be read one after the other. -/
lemma ReadsOn.append {ds : List Char} (hcs : ReadsOn cs) (hds : ReadsOn ds) :
    ReadsOn (cs ++ ds) := by
  intro more p
  obtain ⟨ps, q, hpieces, hq⟩ := hcs (ds ++ more) p
  obtain ⟨qs, r, hpieces', hr⟩ := hds more q
  refine ⟨ps ++ qs, r, ?_, ?_⟩
  · rw [List.append_assoc, hpieces, hpieces', List.append_assoc]
  · rw [List.foldlM_append, hq]
    exact hr

/-- What can be read by itself can be read as a whole text. -/
lemma ReadsOn.exists_read (hcs : ReadsOn cs) : ∃ t, read cs = some t := by
  obtain ⟨ps, q, hpieces, hq⟩ := hcs [] ⟨[], 0, [], []⟩
  have hend : piecesFrom none 0 [] = [] := rfl
  rw [List.append_nil, hend, List.append_nil] at hpieces
  exact ⟨q.finish, by rw [read, pieces, hpieces, hq]; rfl⟩

/-- A character that is no backslash and no opening bracket can be read by itself. -/
lemma readsOn_plain {c : Char} (hslash : c ≠ '\\') (hopen : c ≠ '[') : ReadsOn [c] := by
  intro more p
  obtain ⟨q, hq, -⟩ := exists_progress_chars [c] p
  exact ⟨_, q, piecesFrom_plain hslash hopen 0 more, hq⟩

/-- Characters in a style can be read, whether or not the style is closed behind them. -/
lemma exists_progress_inStyle {style : List Char} (hstyle : IsOpening style) (cs : List Char)
    {closing : List Piece} (hclosing : closing = [] ∨ closing = [.tag ['/']]) (p : Progress) :
    ∃ q, (.tag style :: chars cs ++ closing).foldlM Progress.step p = some q := by
  obtain ⟨c, name, rfl, -, hslash⟩ := hstyle.head
  -- the style is open behind its tag, so a closing tag has something to close
  let opened : Progress := { p with opened := ⟨p.length, styleName (c :: name)⟩ :: p.opened }
  have hopen : p.step (.tag (c :: name)) = some opened := by
    rw [Progress.step]
    rintro _ ⟨⟩
    exact hslash rfl
  obtain ⟨q, hq, hopened⟩ := exists_progress_chars cs opened
  obtain ⟨r, hr⟩ : ∃ r, closing.foldlM Progress.step q = some r := by
    rcases hclosing with rfl | rfl
    · exact ⟨q, rfl⟩
    · have hclosed : (q.close 0).isSome := by
        rw [Progress.close, hopened, Option.isSome_map]
        rfl
      obtain ⟨r, hr⟩ := Option.isSome_iff_exists.1 hclosed
      have hname : (styleName []).isEmpty = true := by decide +kernel
      refine ⟨r, ?_⟩
      simp [Progress.step, hname, hr]
  refine ⟨r, ?_⟩
  rw [List.cons_append, List.foldlM_cons, hopen]
  simp only [Option.bind_eq_bind, Option.bind_some, List.foldlM_append, hq, hr]

/-- A text in a style can be read wherever it stands. -/
theorem readsOn_styled {style : List Char} (hstyle : IsOpening style) (text : List Char) :
    ReadsOn (styled style text) := by
  intro more p
  have htail : closesTag ('[' :: '/' :: ']' :: more) = false := rfl
  obtain ⟨ds, m, htext⟩ := exists_piecesFrom_escape htail text
  obtain ⟨es, closing, hclosing, hclose⟩ := exists_piecesFrom_closing m more
  have hpieces : piecesFrom none 0 (styled style text ++ more) =
      (.tag style :: chars (ds ++ es) ++ closing) ++ piecesFrom none 0 more := by
    have hstyled : styled style text ++ more =
        '[' :: (style ++ ']' :: (escape text ++ '[' :: '/' :: ']' :: more)) := by
      simp [styled]
    rw [hstyled, piecesFrom_opening hstyle, htext, hclose]
    simp [chars]
  obtain ⟨q, hq⟩ := exists_progress_inStyle hstyle (ds ++ es) hclosing p
  exact ⟨_, q, hpieces, hq⟩

end PromqlGuide.Markup
