import PromqlGuide.Proofs.Display.PlainText

/-!
# Texts put together

A text with colour is put together from characters, escaped texts and texts in a style.  Each is
escaped on its own, but the markup is read as a whole, so what is read of a text can depend on the
texts behind it.

Three things change a text.  A backslash in front of a bracket that does not look like a tag is
lost.  Backslashes at the end of a text change in number: a single one is doubled, which is right
only in front of a closing tag, and there it is wrong not to double more of them.  Last, a bracket
that starts like a tag and is left open looks like a tag only together with a closing bracket of
another text behind it, and then everything between them is taken for a tag.

Main statement: a text that is put together with colour is read as the one without colour exactly if
none of this happens (`Markup.readsAs_iff`).
-/
namespace PromqlGuide.Markup

variable {cs ds tail : List Char} {ps qs : List Piece} {c : Char} {k : Nat}

/-! ### Texts that are read alike -/

/-- Whether markup can be read, and what is read of it is a text, less the characters that cannot be
displayed. -/
def ReadsAs (markup text : List Char) : Prop :=
  ∃ t, read markup = some t ∧ t.plain = text.filter fun c => !StyledText.isDropped c

/-- The characters among pieces. -/
def charsOf : List Piece → List Char
  | [] => []
  | .char c :: ps => c :: charsOf ps
  | .tag _ :: ps => charsOf ps

/-- The characters among pieces come in the order of the pieces. -/
@[simp] lemma charsOf_append (ps qs : List Piece) :
    charsOf (ps ++ qs) = charsOf ps ++ charsOf qs := by
  induction ps with
  | nil => rfl
  | cons p ps ih => cases p <;> simp [charsOf, ih]

/-- Characters as pieces are these characters. -/
@[simp] lemma charsOf_chars (cs : List Char) : charsOf (chars cs) = cs := by
  induction cs with
  | nil => rfl
  | cons c cs ih => exact congrArg (c :: ·) ih

/-- A text is turned into pieces character by character. -/
lemma chars_append (cs ds : List Char) : chars (cs ++ ds) = chars cs ++ chars ds := List.map_append

/-- The text of pieces is that of their characters which can be displayed. -/
lemma plainOf_eq (ps : List Piece) :
    plainOf ps = (charsOf ps).filter fun c => !StyledText.isDropped c := by
  induction ps with
  | nil => rfl
  | cons p ps ih =>
    cases p with
    | char c => cases hc : StyledText.isDropped c <;> simp [plainOf, charsOf, hc, ih]
    | tag body => exact ih

/-- Whether two texts have different characters, or an end and a character, behind what they have in
common, where these characters can be displayed. -/
def Diverges (cs ds : List Char) : Prop :=
  ∃ front behind behind', cs = front ++ behind ∧ ds = front ++ behind' ∧
    behind.head? ≠ behind'.head? ∧
      ∀ c ∈ behind.head?.toList ++ behind'.head?.toList, StyledText.isDropped c = false

/-- Texts that differ still differ behind the same text. -/
lemma Diverges.append_left (h : Diverges cs ds) (front : List Char) :
    Diverges (front ++ cs) (front ++ ds) := by
  obtain ⟨common, behind, behind', rfl, rfl, h⟩ := h
  exact ⟨front ++ common, behind, behind', by simp, by simp, h⟩

/-- Such texts differ in what can be displayed of them. -/
lemma Diverges.filter_ne (h : Diverges cs ds) :
    (cs.filter fun c => !StyledText.isDropped c) ≠ ds.filter fun c => !StyledText.isDropped c := by
  obtain ⟨common, behind, behind', rfl, rfl, hne, hvisible⟩ := h
  have hhead : ∀ {l : List Char}, (∀ c ∈ l.head?, StyledText.isDropped c = false) →
      (l.filter fun c => !StyledText.isDropped c).head? = l.head? := by
    intro l hl
    cases l with
    | nil => rfl
    | cons c l => simp [hl c rfl]
  intro heq
  rw [List.filter_append, List.filter_append, List.append_cancel_left_eq] at heq
  have hheads := congrArg List.head? heq
  rw [hhead fun c hc => hvisible c (List.mem_append_left _ (Option.mem_toList.2 hc)),
    hhead fun c hc => hvisible c (List.mem_append_right _ (Option.mem_toList.2 hc))] at hheads
  exact hne hheads

/-! ### Brackets left open -/

/-- Whether a text has a bracket that starts like a tag, and no bracket behind it. -/
def LeavesOpen (cs : List Char) : Prop :=
  ∃ before name, cs = before ++ '[' :: name ∧ name.head?.any isTagStart = true ∧
    ∀ d ∈ name, d ≠ '[' ∧ d ≠ ']'

/-- An empty text leaves no bracket open. -/
lemma not_leavesOpen_nil : ¬LeavesOpen [] := by
  rintro ⟨before, name, heq, -⟩
  cases before <;> cases heq

/-- A text leaves a bracket open with its first character or behind it. -/
lemma leavesOpen_cons_iff (c : Char) (cs : List Char) :
    LeavesOpen (c :: cs) ↔
      (c = '[' ∧ cs.head?.any isTagStart = true ∧ ∀ d ∈ cs, d ≠ '[' ∧ d ≠ ']') ∨ LeavesOpen cs := by
  constructor
  · rintro ⟨before, name, heq, hname⟩
    cases before with
    | nil =>
      obtain ⟨rfl, rfl⟩ := List.cons.inj heq
      exact Or.inl ⟨rfl, hname⟩
    | cons d before => exact Or.inr ⟨before, name, (List.cons.inj heq).2, hname⟩
  · rintro (⟨rfl, hname⟩ | ⟨before, name, rfl, hname⟩)
    · exact ⟨[], cs, rfl, hname⟩
    · exact ⟨c :: before, name, rfl, hname⟩

/-- A bracket is closed behind a text if it is closed in the text, or if there is none in it. -/
lemma closesTag_append_iff (cs tail : List Char) :
    closesTag (cs ++ tail) = true ↔
      closesTag cs = true ∨ (∀ d ∈ cs, d ≠ '[' ∧ d ≠ ']') ∧ closesTag tail = true := by
  induction cs with
  | nil => simp [closesTag]
  | cons c cs ih =>
    rw [List.cons_append, closesTag, closesTag, List.forall_mem_cons]
    by_cases hclose : c = ']'
    · simp [hclose]
    by_cases hopen : c = '['
    · simp [hopen]
    · simp [hclose, hopen, ih]

/-- What stands behind a text makes a bracket before it look like a tag only if the text starts like
one and has no brackets. -/
lemma looksLikeTag_append_iff (htail : looksLikeTag tail = false) (cs : List Char) :
    looksLikeTag (cs ++ tail) = true ↔ looksLikeTag cs = true ∨
      (cs.head?.any isTagStart = true ∧ ∀ d ∈ cs, d ≠ '[' ∧ d ≠ ']') ∧ closesTag tail = true := by
  cases cs with
  | nil =>
    have hnil : looksLikeTag [] = false := rfl
    simp [htail, hnil]
  | cons c cs =>
    have hstart : isTagStart c = true → c ≠ '[' ∧ c ≠ ']' := by
      intro hc
      constructor <;> (rintro rfl; revert hc; decide)
    rw [List.cons_append, looksLikeTag, looksLikeTag, Bool.and_eq_true, Bool.and_eq_true,
      closesTag_append_iff, List.forall_mem_cons]
    simp only [List.head?_cons, Option.any_some]
    tauto

/-- A text that closes a tag has a first closing bracket. -/
lemma exists_of_closesTag (h : closesTag cs = true) :
    ∃ body more, cs = body ++ ']' :: more ∧ ∀ d ∈ body, d ≠ ']' := by
  induction cs with
  | nil => cases h
  | cons c cs ih =>
    by_cases hclose : c = ']'
    · exact ⟨[], cs, by rw [hclose]; rfl, List.forall_mem_nil _⟩
    rw [closesTag, if_neg hclose] at h
    split at h
    · cases h
    · obtain ⟨body, more, rfl, hbody⟩ := ih h
      exact ⟨c :: body, more, rfl, List.forall_mem_cons.2 ⟨hclose, hbody⟩⟩

/-- What looks like a tag has a closing bracket. -/
lemma mem_of_looksLikeTag (h : looksLikeTag cs = true) : ']' ∈ cs := by
  cases cs with
  | nil => cases h
  | cons c cs =>
    rw [looksLikeTag, Bool.and_eq_true] at h
    obtain ⟨body, more, rfl, -⟩ := exists_of_closesTag h.2
    simp

/-- If a tag is closed only behind the end of a line, it has the end of the line in it. -/
lemma exists_tag_of_line (hcs : ']' ∉ cs) (h : closesTag (cs ++ '\n' :: tail) = true) :
    ∃ body, .tag body ∈ piecesFrom (some []) 0 (cs ++ '\n' :: tail) ∧ '\n' ∈ body := by
  obtain ⟨body, more, heq, hbody⟩ := exists_of_closesTag h
  refine ⟨body, ?_, ?_⟩
  · rw [heq, piecesFrom_body hbody]
    exact List.mem_cons_self
  · rcases List.append_eq_append_iff.1 heq with ⟨rest, rfl, hrest⟩ | ⟨rest, rfl, hrest⟩
    · cases rest with
      | nil => cases hrest
      | cons d rest => simp [(List.cons.inj hrest).1.symm]
    · cases rest with
      | nil => cases hrest
      | cons d rest =>
        obtain ⟨rfl, -⟩ := List.cons.inj hrest
        simp at hcs

/-! ### Escaped text before other text -/

/-- Whether pieces show that a text is changed: where the text has a backslash they have a bracket,
or the end of a line is part of a tag. -/
def Breaks (ps : List Piece) (cs : List Char) : Prop :=
  (∃ front behind behind', cs = front ++ '\\' :: behind ∧ charsOf ps = front ++ '[' :: behind') ∨
    ∃ body, .tag body ∈ ps ∧ '\n' ∈ body

/-- What shows that a text is changed still shows it behind other text. -/
lemma Breaks.append_left (h : Breaks ps cs) (front : List Char) :
    Breaks (chars front ++ ps) (front ++ cs) := by
  rcases h with ⟨common, behind, behind', rfl, hps⟩ | ⟨body, hbody, hline⟩
  · exact Or.inl ⟨front ++ common, behind, behind', by simp, by simp [hps]⟩
  · exact Or.inr ⟨body, List.mem_append_right _ hbody, hline⟩

/-- Escaping adds and takes away nothing but backslashes. -/
lemma mem_escapeFrom (hslash : c ≠ '\\') (k : Nat) (cs : List Char) :
    c ∈ escapeFrom k cs ↔ c ∈ cs := by
  induction cs generalizing k with
  | nil => simp [escapeFrom, hslash]
  | cons d cs ih =>
    unfold escapeFrom
    split_ifs with hd hopen
    · simp [ih, hd, hslash]
    · simp [ih, hslash]
    · simp [ih, hslash]

/-- Whether a text before which a bracket is left open is followed by a closing bracket only on
another line. -/
def EndsLine (tail : List Char) : Prop :=
  looksLikeTag tail = false ∧ (closesTag tail = true → ∃ more, tail = '\n' :: more)

/-- Whether a text, with backslashes in front and `extra` ones behind, is read as it is up to those
at its end, or else shows that it is changed, as it loses a backslash or leaves a bracket open. -/
def IsRead (tail : List Char) (extra k : Nat) (cs : List Char) : Prop :=
  let ps := piecesFrom none 0 (escapeFrom k cs ++ (List.replicate extra '\\' ++ tail))
  let text := List.replicate k '\\' ++ cs
  (¬LosesBackslash text ∧ ¬(LeavesOpen cs ∧ closesTag tail = true) ∧
    ∃ front, text = front ++ List.replicate (endRun k cs) '\\' ∧
      ps = chars front ++ piecesFrom none (endRun k cs + extra) tail) ∨
  ((LosesBackslash text ∨ LeavesOpen cs ∧ closesTag tail = true) ∧ Breaks ps text)

/-- A character that is read as it is in front of a text. -/
lemma IsRead.cons {extra : Nat} (h : IsRead tail extra 0 cs) (hslash : c ≠ '\\')
    (hread : piecesFrom none 0 (escapeFrom k (c :: cs) ++ (List.replicate extra '\\' ++ tail)) =
      chars (List.replicate k '\\' ++ [c]) ++
        piecesFrom none 0 (escapeFrom 0 cs ++ (List.replicate extra '\\' ++ tail)))
    (hloses : LosesBackslash (List.replicate k '\\' ++ c :: cs) ↔ LosesBackslash cs)
    (hopen : LeavesOpen (c :: cs) ∧ closesTag tail = true ↔ LeavesOpen cs ∧ closesTag tail = true) :
    IsRead tail extra k (c :: cs) := by
  have htext : List.replicate k '\\' ++ c :: cs = (List.replicate k '\\' ++ [c]) ++ cs := by simp
  unfold IsRead at h ⊢
  simp only [hread, hloses, hopen, endRun_cons, if_neg hslash, List.replicate_zero,
    List.nil_append] at h ⊢
  refine h.imp (fun ⟨hkeeps, hclosed, front, hfront, hpieces⟩ => ⟨hkeeps, hclosed, ?_⟩)
    fun ⟨hcause, hbreaks⟩ => ⟨hcause, htext ▸ hbreaks.append_left _⟩
  refine ⟨List.replicate k '\\' ++ [c] ++ front, ?_, ?_⟩
  · rw [List.append_assoc _ front, ← hfront, htext]
  · rw [hpieces, chars_append _ front, List.append_assoc]

/-- A bracket that becomes a tag only by what stands behind the text. -/
lemma breaks_of_opened {extra : Nat} (htail : EndsLine tail) (hcs : ∀ d ∈ cs, d ≠ '[' ∧ d ≠ ']')
    (hclose : closesTag tail = true)
    (htag : looksLikeTag (escapeFrom 0 cs ++ (List.replicate extra '\\' ++ tail)) = true)
      (k : Nat) :
    Breaks (piecesFrom none k ('[' :: (escapeFrom 0 cs ++ (List.replicate extra '\\' ++ tail))))
      (List.replicate k '\\' ++ '[' :: cs) := by
  rw [piecesFrom, if_neg (by decide), if_pos rfl, if_pos htag]
  dsimp only
  by_cases hodd : k % 2 = 1
  · -- the bracket is read as a character, with half of the backslashes in front of it
    rw [if_pos hodd]
    have hrun : List.replicate k '\\' =
        List.replicate (k / 2) '\\' ++ '\\' :: List.replicate (k - k / 2 - 1) '\\' := by
      rw [← List.replicate_succ, List.replicate_append_replicate]
      congr 1
      omega
    exact Or.inl ⟨List.replicate (k / 2) '\\', List.replicate (k - k / 2 - 1) '\\' ++ '[' :: cs, _,
      by rw [hrun]; simp, by rw [charsOf_append, charsOf_chars]; rfl⟩
  · rw [if_neg hodd]
    -- The tag is only closed behind the end of the line.
    obtain ⟨more, rfl⟩ := htail.2 hclose
    have hfree : ']' ∉ escapeFrom 0 cs ++ List.replicate extra '\\' := by
      rw [List.mem_append, not_or, mem_escapeFrom (by decide)]
      refine ⟨fun hmem => (hcs _ hmem).2 rfl, fun hmem => ?_⟩
      exact absurd (List.eq_of_mem_replicate hmem) (by decide)
    have hcloses : closesTag (escapeFrom 0 cs ++ (List.replicate extra '\\' ++ '\n' :: more)) =
      true := by
      rw [closesTag_escapeFrom, closesTag_append_iff, closesTag_replicate]
      exact Or.inr ⟨hcs, hclose⟩
    rw [← List.append_assoc] at hcloses ⊢
    obtain ⟨body, hbody, hline⟩ := exists_tag_of_line hfree hcloses
    exact Or.inr ⟨body, List.mem_append_right _ hbody, hline⟩

/-- A bracket before an escaped text is read as a tag if it looks like one in the text, or together
with what stands behind it. -/
lemma looksLikeTag_written (htail : EndsLine tail) (extra : Nat) (cs : List Char) :
    looksLikeTag (escapeFrom 0 cs ++ (List.replicate extra '\\' ++ tail)) = true ↔
    looksLikeTag cs = true ∨
      (cs.head?.any isTagStart = true ∧ ∀ d ∈ cs, d ≠ '[' ∧ d ≠ ']') ∧ closesTag tail = true := by
  have hextra : looksLikeTag (List.replicate extra '\\' ++ tail) = false := by
    cases extra with
    | zero => exact htail.1
    | succ extra => rfl
  rw [looksLikeTag_escapeFrom, looksLikeTag_append_iff hextra, closesTag_replicate]

/-- Backslashes are doubled, with one more, only in front of what looks like a tag. -/
lemma escapeFrom_cons (hslash : c ≠ '\\') (k : Nat) (cs : List Char) : escapeFrom k (c :: cs) =
    List.replicate (if c = '[' ∧ looksLikeTag cs = true then 2 * k + 1 else k) '\\' ++
      c :: escapeFrom 0 cs := by
  rw [escapeFrom, if_neg hslash]
  split_ifs <;> rfl

/-- A bracket that is written as it is. -/
lemma piecesFrom_bracket (hwritten : looksLikeTag cs = false) (k : Nat) (more : List Char) :
    piecesFrom none 0 (escapeFrom k ('[' :: cs) ++ more) =
      piecesFrom none k ('[' :: (escapeFrom 0 cs ++ more)) := by
  rw [escapeFrom_cons (by decide), if_neg fun h => by simp [hwritten] at h, List.append_assoc,
    List.cons_append, piecesFrom_replicate, Nat.zero_add]

/-- A bracket that does not look like a tag to the reader either loses one of the backslashes in
front. -/
lemma IsRead.untagged {extra : Nat} (h : IsRead tail extra 0 cs)
    (hwritten : looksLikeTag cs = false)
    (hread : looksLikeTag (escapeFrom 0 cs ++ (List.replicate extra '\\' ++ tail)) = false)
    (hclosed : ¬((cs.head?.any isTagStart = true ∧ ∀ d ∈ cs, d ≠ '[' ∧ d ≠ ']') ∧
      closesTag tail = true))
    (k : Nat) : IsRead tail extra k ('[' :: cs) := by
  have hpieces := piecesFrom_bracket hwritten k (List.replicate extra '\\' ++ tail)
  have huntagged := piecesFrom_untagged k hread
  cases k with
  | zero =>
    refine h.cons (by decide) (hpieces.trans huntagged) ?_ ?_
    · rw [losesBackslash_replicate (by decide), or_iff_right fun h => absurd h.1 (Nat.lt_irrefl 0)]
    · rw [leavesOpen_cons_iff]
      constructor
      · rintro ⟨hopen, hclose⟩
        exact ⟨hopen.resolve_left fun h => hclosed ⟨h.2, hclose⟩, hclose⟩
      · exact And.imp_left Or.inr
  | succ k =>
    have hloses : LosesBackslash (List.replicate (k + 1) '\\' ++ '[' :: cs) :=
      (losesBackslash_replicate (by decide) _ _).2 (Or.inl ⟨Nat.succ_pos k, rfl, hwritten⟩)
    have hchars := congrArg charsOf huntagged
    rw [charsOf_append, charsOf_chars, Nat.add_sub_cancel, List.append_assoc] at hchars
    dsimp only [IsRead]
    rw [hpieces]
    exact Or.inr ⟨Or.inl hloses, Or.inl ⟨_, _, _, (replicate_append_slash k _).symm, hchars⟩⟩

/-- An opening bracket is read as it is, loses a backslash in front of it, or is left open. -/
lemma IsRead.bracket {extra : Nat} (htail : EndsLine tail) (h : IsRead tail extra 0 cs) (k : Nat) :
    IsRead tail extra k ('[' :: cs) := by
  have hwhole := looksLikeTag_written htail extra cs
  cases hwritten : looksLikeTag cs with
  | true =>
    -- the bracket is escaped, and it looks like a tag to the reader too
    have hread := hwhole.2 (Or.inl hwritten)
    refine h.cons (by decide) ?_ ?_ ?_
    · rw [escapeFrom_cons (by decide), if_pos ⟨rfl, hwritten⟩, List.append_assoc,
        piecesFrom_replicate, Nat.zero_add, List.cons_append, piecesFrom_escaped k hread]
    · rw [losesBackslash_replicate (by decide), or_iff_right fun h => by simp [hwritten] at h]
    · rw [leavesOpen_cons_iff, or_iff_right fun h => (h.2.2 _ (mem_of_looksLikeTag hwritten)).2 rfl]
  | false =>
    rw [hwritten, or_iff_right Bool.false_ne_true] at hwhole
    by_cases hclosed : (cs.head?.any isTagStart = true ∧ ∀ d ∈ cs, d ≠ '[' ∧ d ≠ ']') ∧
      closesTag tail = true
    · obtain ⟨⟨hstart, hfree⟩, hclose⟩ := hclosed
      refine Or.inr ⟨Or.inr ⟨(leavesOpen_cons_iff _ _).2 (Or.inl ⟨rfl, hstart, hfree⟩), hclose⟩, ?_⟩
      rw [piecesFrom_bracket hwritten]
      exact breaks_of_opened htail hfree hclose (hwhole.2 ⟨⟨hstart, hfree⟩, hclose⟩) k
    · exact h.untagged hwritten (Bool.eq_false_iff.2 fun hread => hclosed (hwhole.1 hread)) hclosed
        k

/-- Escaped text is read as it is if it loses no backslash and leaves no bracket open that is closed
behind it, and is changed otherwise. -/
lemma isRead (htail : EndsLine tail) (extra k : Nat) (cs : List Char) : IsRead tail extra k cs := by
  induction cs generalizing k with
  | nil =>
    left
    rw [List.append_nil, escapeFrom, piecesFrom_replicate, piecesFrom_replicate, Nat.zero_add]
    exact ⟨not_losesBackslash_replicate k, fun h => not_leavesOpen_nil h.1, [], rfl, rfl⟩
  | cons c cs ih =>
    by_cases hslash : c = '\\'
    · subst hslash
      have hopen : LeavesOpen ('\\' :: cs) ↔ LeavesOpen cs := by
        rw [leavesOpen_cons_iff, or_iff_right fun h => absurd h.1 (by decide)]
      have hmore := ih (k + 1)
      unfold IsRead at hmore ⊢
      rw [replicate_append_slash, hopen]
      exact hmore
    by_cases hbracket : c = '['
    · subst hbracket
      exact (ih 0).bracket htail k
    · refine (ih 0).cons hslash ?_ ?_ ?_
      · rw [escapeFrom_cons hslash, if_neg fun h => hbracket h.1, List.append_assoc,
          piecesFrom_replicate, Nat.zero_add, List.cons_append, piecesFrom_plain hslash hbracket]
      · rw [losesBackslash_replicate hslash, or_iff_right fun h => hbracket h.2.1]
      · rw [leavesOpen_cons_iff, or_iff_right fun h => hbracket h.1]

/-! ### Chunks -/

/-- What a text is put together from: characters of its own, texts that are escaped where there is
colour, and texts that are in a style then. -/
inductive Chunk where
  | char (c : Char)
  | escaped (text : List Char)
  | styled (style text : List Char)

namespace Chunk

/-- The text of a chunk, which is markup where there is colour. -/
def write (color : Bool) : Chunk → List Char
  | char c => [c]
  | escaped text => if color then escape text else text
  | styled style text => if color then Markup.styled style text else text

/-- The pieces of the markup of a chunk whose text is kept. -/
def pieces : Chunk → List Piece
  | char c => [.char c]
  | escaped text => chars text
  | styled style text => .tag style :: chars text ++ [.tag ['/']]

/-- The pieces of a chunk that is kept have the characters of its text. -/
lemma charsOf_pieces (d : Chunk) : charsOf d.pieces = d.write false := by
  cases d with
  | char c => rfl
  | escaped text => exact charsOf_chars text
  | styled style text =>
    have hclose : charsOf [.tag ['/']] = [] := rfl
    rw [pieces, List.cons_append, charsOf, charsOf_append, charsOf_chars, hclose, List.append_nil]
    rfl

end Chunk

/-- The text that is put together from chunks. -/
def writeAll (color : Bool) (chunks : List Chunk) : List Char := chunks.flatMap (Chunk.write color)

/-- Whether a character stands for itself in markup and can be displayed. -/
def IsLiteral (c : Char) : Prop := c ≠ '\\' ∧ c ≠ '[' ∧ c ≠ ']' ∧ StyledText.isDropped c = false

instance (c : Char) : Decidable (IsLiteral c) := inferInstanceAs (Decidable (_ ∧ _))

/-- Whether every escaped text is followed by the end of its line, and every text in a style by a
character that stands for itself, where the text that is put together does not end. -/
inductive IsLaidOut : List Chunk → Prop where
  | nil : IsLaidOut []
  | char {c : Char} {more : List Chunk} (hc : IsLiteral c) (h : IsLaidOut more) :
      IsLaidOut (.char c :: more)
  | escaped {text : List Char} {more : List Chunk} (hmore : ∀ d ∈ more.head?, d = .char '\n')
      (h : IsLaidOut more) : IsLaidOut (.escaped text :: more)
  | styled {style text : List Char} {more : List Chunk} (hstyle : IsOpening style)
      (hline : '\n' ∉ style) (hmore : ∀ d ∈ more.head?, ∃ c, d = .char c) (h : IsLaidOut more) :
      IsLaidOut (.styled style text :: more)

/-- Whether an escaped text is kept, but for what stands behind it. -/
def EscapedKeeps (text : List Char) : Prop := ¬LosesBackslash text ∧ endRun 0 text ≠ 1

/-- Whether a text in a style is kept. -/
def StyledKeeps (text : List Char) : Prop := ¬LosesBackslash text ∧ endRun 0 text ≤ 1

/-- A text without backslashes is kept in a style. -/
lemma styledKeeps_of_not_mem (h : '\\' ∉ cs) : StyledKeeps cs := by
  constructor
  · rintro ⟨before, after, rfl, -⟩
    simp at h
  · rw [endRun_of_plainEnd fun c hc hslash => h (hslash ▸ List.mem_of_getLast? hc)]
    exact Nat.zero_le 1

/-- Whether all texts that are put together are kept before other text: each by itself, and no
bracket that one of them leaves open is closed behind it. -/
def Kept (tail : List Char) : List Chunk → Prop
  | [] => True
  | .char _ :: more => Kept tail more
  | .escaped text :: more =>
    (EscapedKeeps text ∧ ¬(LeavesOpen text ∧ closesTag (writeAll true more ++ tail) = true)) ∧
      Kept tail more
  | .styled _ text :: more => StyledKeeps text ∧ Kept tail more

/-- Whether what is read of markup is not the text, whatever can be displayed of it. -/
def Spoils (ps : List Piece) (cs : List Char) : Prop :=
  Diverges (charsOf ps) cs ∨ ∃ body, .tag body ∈ ps ∧ '\n' ∈ body

/-- What shows that a text is changed spoils every text that goes on like it. -/
lemma Breaks.spoils (h : Breaks ps cs) (ds : List Char) : Spoils ps (cs ++ ds) := by
  have hvisible : ∀ c ∈ ['[', '\\'], StyledText.isDropped c = false := by decide
  refine h.imp_left ?_
  rintro ⟨front, behind, behind', rfl, hps⟩
  exact ⟨front, '[' :: behind', '\\' :: (behind ++ ds), hps, by simp, by simp, hvisible⟩

/-- What is spoilt stays so behind pieces that are kept. -/
lemma Spoils.append_left (h : Spoils ps cs) (qs : List Piece) :
    Spoils (qs ++ ps) (charsOf qs ++ cs) := by
  refine h.imp (fun hdiverges => ?_) fun ⟨body, hbody, hline⟩ =>
    ⟨body, List.mem_append_right _ hbody, hline⟩
  rw [charsOf_append]
  exact hdiverges.append_left _

/-- Whether chunks are read as they are if they are kept, and otherwise what is read of them is
spoilt. -/
def ReadOrSpoils (chunks : List Chunk) : Prop :=
  let ps := piecesFrom none 0 (writeAll true chunks)
  (Kept [] chunks ∧ ps = chunks.flatMap Chunk.pieces) ∨
    (¬Kept [] chunks ∧ Spoils ps (writeAll false chunks))

/-- A chunk that is kept in front changes nothing about those behind it. -/
lemma ReadOrSpoils.cons {d : Chunk} {more : List Chunk} (h : ReadOrSpoils more)
    (hpieces : piecesFrom none 0 (d.write true ++ writeAll true more) =
      d.pieces ++ piecesFrom none 0 (writeAll true more))
    (hkept : Kept [] (d :: more) ↔ Kept [] more) : ReadOrSpoils (d :: more) := by
  have hwrite : ∀ color, writeAll color (d :: more) =
    d.write color ++ writeAll color more := fun _ => rfl
  unfold ReadOrSpoils at h ⊢
  rw [hwrite, hwrite, hpieces, hkept, List.flatMap_cons]
  refine h.imp (fun h => ⟨h.1, by rw [← h.2]⟩) fun h => ⟨h.1, ?_⟩
  rw [← d.charsOf_pieces]
  exact h.2.append_left _

/-- A text is escaped character by character, and a single backslash at its end is doubled. -/
lemma escape_eq (cs : List Char) : escape cs =
    escapeFrom 0 cs ++ List.replicate (if endRun 0 cs = 1 then 1 else 0) '\\' := by
  unfold escape
  dsimp only
  rw [trailingBackslashes_escapeFrom]
  split_ifs
  · rfl
  · exact (List.append_nil _).symm

/-- The chunks behind an escaped text begin with the end of its line. -/
lemma writeAll_of_line {more : List Chunk} (h : ∀ d ∈ more.head?, d = .char '\n') :
    ∀ color, writeAll color more = [] ∨ ∃ rest, writeAll color more = '\n' :: rest := by
  intro color
  cases more with
  | nil => exact Or.inl rfl
  | cons d more =>
    rw [h d rfl]
    exact Or.inr ⟨_, rfl⟩

/-- Text that is over or starts a new line closes no bracket on the line before. -/
lemma endsLine_of_line (h : tail = [] ∨ ∃ rest, tail = '\n' :: rest) : EndsLine tail := by
  rcases h with rfl | ⟨rest, rfl⟩
  · exact ⟨rfl, fun h => absurd h (by decide)⟩
  · exact ⟨rfl, fun _ => ⟨rest, rfl⟩⟩

/-- Backslashes in front of text that is over or starts a new line stay as they are. -/
lemma piecesFrom_of_line (h : tail = [] ∨ ∃ rest, tail = '\n' :: rest) (k : Nat) :
    piecesFrom none k tail = chars (List.replicate k '\\') ++ piecesFrom none 0 tail := by
  rcases h with rfl | ⟨rest, rfl⟩
  · exact (List.append_nil _).symm
  · rw [piecesFrom_plain (by decide) (by decide), piecesFrom_plain (by decide) (by decide),
      chars_append, List.append_assoc]
    rfl

/-- An escaped text in front of a new line is read as it is or spoils what is read. -/
lemma readOrSpoils_escaped {text : List Char} {more : List Chunk}
    (hmore : ∀ d ∈ more.head?, d = .char '\n') (h : ReadOrSpoils more) :
    ReadOrSpoils (.escaped text :: more) := by
  have hline := writeAll_of_line hmore true
  have hwrite : writeAll true (.escaped text :: more) = escapeFrom 0 text ++
      (List.replicate (if endRun 0 text = 1 then 1 else 0) '\\' ++ writeAll true more) := by
    rw [← List.append_assoc, ← escape_eq]
    rfl
  have hplain : writeAll false (.escaped text :: more) = text ++ writeAll false more := rfl
  have hkeptIff : Kept [] (.escaped text :: more) ↔ (EscapedKeeps text ∧
      ¬(LeavesOpen text ∧ closesTag (writeAll true more) = true)) ∧ Kept [] more := by
    rw [Kept, List.append_nil]
  -- Either the escaped text is read as it is, or the reader breaks off inside of it.
  rcases isRead (endsLine_of_line hline) (if endRun 0 text = 1 then 1 else 0) 0 text with
    ⟨hkeeps, hclosed, front, hfront, hpieces⟩ | ⟨hcause, hbreaks⟩
  · rw [List.replicate_zero, List.nil_append] at hkeeps hfront
    rw [← hwrite, piecesFrom_of_line hline, ← List.replicate_append_replicate, ← List.append_assoc,
      ← chars_append, ← List.append_assoc, ← hfront] at hpieces
    by_cases hrun : endRun 0 text = 1
    · -- the backslash that is put behind the text is one too many
      rw [if_pos hrun] at hpieces
      refine Or.inr ⟨fun hkept => (hkeptIff.1 hkept).1.1.2 hrun, Or.inl ?_⟩
      refine ⟨text, '\\' :: charsOf (piecesFrom none 0 (writeAll true more)), writeAll false more,
        ?_, hplain, ?_, ?_⟩
      · rw [hpieces, charsOf_append, charsOf_chars, List.append_assoc]
        rfl
      all_goals
        rcases writeAll_of_line hmore false with hnil | ⟨rest, hrest⟩
      · simp [hnil]
      · simp [hrest]
      · rw [hnil]
        exact List.forall_mem_singleton.2 (by decide)
      · rw [hrest]
        exact (by decide : ∀ c ∈ ['\\', '\n'], StyledText.isDropped c = false)
    · rw [if_neg hrun, List.replicate_zero, List.append_nil] at hpieces
      refine h.cons hpieces (hkeptIff.trans (and_iff_right ⟨⟨hkeeps, hrun⟩, hclosed⟩))
  · rw [List.replicate_zero, List.nil_append] at hcause hbreaks
    rw [← hwrite] at hbreaks
    refine Or.inr ⟨fun hkept => ?_, hplain ▸ hbreaks.spoils _⟩
    obtain ⟨⟨⟨hkeeps, -⟩, hclosed⟩, -⟩ := hkeptIff.1 hkept
    exact hcause.elim hkeeps hclosed

/-- What is read behind a text in a style does not begin with a backslash. -/
lemma head_charsOf {more : List Chunk} (hmore : ∀ d ∈ more.head?, ∃ c, d = .char c)
    (hlaid : IsLaidOut more) : ∀ c ∈ (charsOf (piecesFrom none 0 (writeAll true more))).head?,
      c ≠ '\\' ∧ StyledText.isDropped c = false := by
  cases hlaid with
  | nil => nofun
  | @char d more hd h =>
    have hwrite : writeAll true (.char d :: more) = d :: writeAll true more := rfl
    rw [hwrite, piecesFrom_plain hd.1 hd.2.1, charsOf_append, charsOf_chars]
    rintro c ⟨⟩
    exact ⟨hd.1, hd.2.2.2⟩
  | escaped | styled =>
    obtain ⟨c, hc⟩ := hmore _ rfl
    cases hc

/-- Of several backslashes before a closing tag half are missing where what is read goes on. -/
lemma diverges_of_backslashes {m : Nat} (hm : 2 ≤ m)
    (htail : ∀ c ∈ (charsOf (piecesFrom none 0 tail)).head?, c ≠ '\\' ∧
      StyledText.isDropped c = false) :
    Diverges (charsOf (piecesFrom none m ('[' :: '/' :: ']' :: tail)))
      (List.replicate m '\\' ++ ds) := by
  have hrun : List.replicate m '\\' ++ ds =
      List.replicate (m / 2) '\\' ++ '\\' :: (List.replicate (m - m / 2 - 1) '\\' ++ ds) := by
    rw [← List.cons_append, ← List.replicate_succ, ← List.append_assoc,
      List.replicate_append_replicate]
    congr 2
    omega
  rw [hrun]
  obtain ⟨rest, hread, hrest⟩ : ∃ rest, charsOf (piecesFrom none m ('[' :: '/' :: ']' :: tail)) =
      List.replicate (m / 2) '\\' ++ rest ∧
        ∀ c ∈ rest.head?, c ≠ '\\' ∧ StyledText.isDropped c = false := by
    rcases Nat.mod_two_eq_zero_or_one m with heven | hodd
    · exact ⟨_, by rw [piecesFrom_closing heven, charsOf_append, charsOf_chars]; rfl, htail⟩
    · refine ⟨['[', '/', ']'] ++ charsOf (piecesFrom none 0 tail), ?_, ?_⟩
      · rw [piecesFrom_escapedClosing hodd, charsOf_append, charsOf_chars, List.append_assoc]
      · rintro c ⟨⟩
        decide
  refine ⟨_, rest, _, hread, rfl, ?_, ?_⟩
  · intro heq
    exact (hrest '\\' heq).1 rfl
  · rw [List.forall_mem_append]
    refine ⟨fun c hc => (hrest c (Option.mem_toList.1 hc)).2, ?_⟩
    exact List.forall_mem_singleton.2 (by decide)

/-- A text in a style is read as it is or spoils what is read. -/
lemma readOrSpoils_styled {style text : List Char} {more : List Chunk} (hstyle : IsOpening style)
    (hmore : ∀ d ∈ more.head?, ∃ c, d = .char c) (hlaid : IsLaidOut more) (h : ReadOrSpoils more) :
    ReadOrSpoils (.styled style text :: more) := by
  have hwrite : writeAll true (.styled style text :: more) =
    '[' :: (style ++ ']' :: (escapeFrom 0 text ++
      (List.replicate (if endRun 0 text = 1 then 1 else 0) '\\' ++
        '[' :: '/' :: ']' :: writeAll true more))) := by
    have hstyled : writeAll true (.styled style text :: more) =
        styled style text ++ writeAll true more := rfl
    rw [hstyled, styled, escape_eq]
    simp
  have hplain : writeAll false (.styled style text :: more) = text ++ writeAll false more := rfl
  have htail : EndsLine ('[' :: '/' :: ']' :: writeAll true more) :=
    ⟨rfl, fun h => absurd h Bool.false_ne_true⟩
  have hkeptIff : Kept [] (.styled style text :: more) ↔ StyledKeeps text ∧ Kept [] more := Iff.rfl
  rcases isRead htail (if endRun 0 text = 1 then 1 else 0) 0 text with
    ⟨hkeeps, hclosed, front, hfront, hpieces⟩ | ⟨hcause, hbreaks⟩
  · rw [List.replicate_zero, List.nil_append] at hkeeps hfront
    have hread : piecesFrom none 0 (writeAll true (.styled style text :: more)) =
        .tag style ::
          (chars front ++ piecesFrom none (endRun 0 text + if endRun 0 text = 1 then 1 else 0)
          ('[' :: '/' :: ']' :: writeAll true more)) := by
      rw [hwrite, piecesFrom_opening hstyle, ← hpieces]
    by_cases hrun : endRun 0 text ≤ 1
    · refine h.cons ?_ (hkeptIff.trans (and_iff_right ⟨hkeeps, hrun⟩))
      refine hread.trans ?_
      -- a single backslash is doubled, and half of two are read
      have heven : (endRun 0 text + if endRun 0 text = 1 then 1 else 0) % 2 = 0 ∧
          (endRun 0 text + if endRun 0 text = 1 then 1 else 0) / 2 = endRun 0 text := by
        split_ifs <;> omega
      rw [piecesFrom_closing heven.1, heven.2, ← List.append_assoc, ← chars_append, ← hfront]
      simp [Chunk.pieces]
    · -- of more backslashes the last one is missing
      rw [if_neg (by omega), Nat.add_zero] at hread
      refine Or.inr ⟨fun hkept => hrun (hkeptIff.1 hkept).1.2, ?_⟩
      have hlost : Diverges
          (charsOf (piecesFrom none (endRun 0 text) ('[' :: '/' :: ']' :: writeAll true more)))
          (List.replicate (endRun 0 text) '\\' ++ writeAll false more) :=
        diverges_of_backslashes (Nat.not_le.1 hrun) (head_charsOf hmore hlaid)
      have hwhole := hlost.append_left front
      rw [← List.append_assoc, ← hfront, ← charsOf_chars front, ← charsOf_append] at hwhole
      rw [hread, hplain]
      exact Or.inl hwhole
  · rw [List.replicate_zero, List.nil_append] at hcause hbreaks
    refine Or.inr ⟨fun hkept => ?_, ?_⟩
    · exact hcause.elim (hkeptIff.1 hkept).1.1 fun h => absurd h.2 Bool.false_ne_true
    · rw [hwrite, piecesFrom_opening hstyle, hplain]
      exact (hbreaks.spoils (writeAll false more)).append_left [.tag style]

/-- Chunks that are laid out are read as they are or what is read is spoilt. -/
lemma readOrSpoils {chunks : List Chunk} (h : IsLaidOut chunks) : ReadOrSpoils chunks := by
  induction h with
  | nil => exact Or.inl ⟨trivial, rfl⟩
  | @char c more hc _ ih =>
    exact ih.cons (piecesFrom_plain hc.1 hc.2.1 0 _) Iff.rfl
  | escaped hmore _ ih => exact readOrSpoils_escaped hmore ih
  | styled hstyle _ hmore hlaid ih => exact readOrSpoils_styled hstyle hmore hlaid ih

/-! ### Ends of lines -/

/-- The characters among pieces and those of their tags. -/
def allOf : List Piece → List Char
  | [] => []
  | .char c :: ps => c :: allOf ps
  | .tag body :: ps => body ++ allOf ps

/-- The characters of pieces and tags come in the order of the pieces. -/
lemma allOf_append (ps qs : List Piece) : allOf (ps ++ qs) = allOf ps ++ allOf qs := by
  induction ps with
  | nil => rfl
  | cons p ps ih => cases p <;> simp [allOf, ih]

/-- Characters as pieces are these characters. -/
lemma allOf_chars (cs : List Char) : allOf (chars cs) = cs := by
  induction cs with
  | nil => rfl
  | cons c cs ih => exact congrArg (c :: ·) ih

/-- The characters among pieces are some of those with the tags. -/
lemma charsOf_sublist (ps : List Piece) : (charsOf ps).Sublist (allOf ps) := by
  induction ps with
  | nil => exact .slnil
  | cons p ps ih =>
    cases p with
    | char c => exact ih.cons_cons c
    | tag body => exact ih.trans (List.sublist_append_right body _)

/-- No end of a line is read that is not written. -/
lemma count_allOf_le (tag? : Option (List Char)) (k : Nat) (cs : List Char) :
    (allOf (piecesFrom tag? k cs)).count '\n' ≤ (tag?.getD []).count '\n' + cs.count '\n' := by
  have hrun : ∀ j, (List.replicate j '\\').count '\n' = 0 := fun j => by
    rw [List.count_replicate]
    rfl
  -- Over the text, with what the scan holds back: the body of an open tag, or backslashes.
  induction cs generalizing tag? k with
  | nil =>
    rw [piecesFrom, allOf_chars, hrun]
    exact Nat.zero_le _
  | cons c cs ih =>
    have hcons : ∀ l : List Char, (c :: l).count '\n' = [c].count '\n' + l.count '\n' := fun l => by
      rw [← List.count_append]
      rfl
    have hplain := ih none 0
    have hread := hcons (allOf (piecesFrom none 0 cs))
    cases tag? with
    | some body =>
      have hmore := ih (some (c :: body)) 0
      simp only [Option.getD_some, Option.getD_none, List.count_nil] at hplain hmore ⊢
      have hbody := hcons body
      rw [piecesFrom, hcons]
      split
      · rw [allOf, List.count_append, List.count_reverse]
        omega
      · omega
    | none =>
      have hmore := ih none (k + 1)
      have htag := ih (some []) 0
      simp only [Option.getD_some, Option.getD_none, List.count_nil] at hplain hmore htag ⊢
      rw [piecesFrom, hcons]
      dsimp only
      split_ifs
      · omega
      all_goals
        simp only [allOf_append, allOf_chars, allOf, List.count_append, hrun]
        omega

/-- If the end of a line is in a tag, less of them are read as characters than are written. -/
lemma count_charsOf_lt {body : List Char} (hbody : .tag body ∈ piecesFrom none 0 cs)
    (hline : '\n' ∈ body) : (charsOf (piecesFrom none 0 cs)).count '\n' < cs.count '\n' := by
  have hwritten := count_allOf_le none 0 cs
  obtain ⟨front, behind, heq⟩ := List.append_of_mem hbody
  rw [heq] at hwritten ⊢
  have hfront := (charsOf_sublist front).count_le '\n'
  have hbehind := (charsOf_sublist behind).count_le '\n'
  have hone : 0 < body.count '\n' := List.count_pos_iff.2 hline
  simp only [allOf_append, allOf, charsOf_append, charsOf, List.count_append, Option.getD_none,
    List.count_nil] at hwritten ⊢
  omega

/-- Escaping adds no ends of lines. -/
lemma count_escapeFrom (k : Nat) (cs : List Char) :
    (escapeFrom k cs).count '\n' = cs.count '\n' := by
  induction cs generalizing k with
  | nil =>
    rw [escapeFrom, List.count_replicate]
    rfl
  | cons c cs ih =>
    unfold escapeFrom
    split_ifs with hslash hopen
    · rw [ih, hslash]
      rfl
    · simp [List.count_append, List.count_cons, List.count_replicate, ih]
    · simp [List.count_append, List.count_cons, List.count_replicate, ih]

/-- Colour does not add ends of lines. -/
lemma count_writeAll {chunks : List Chunk} (h : IsLaidOut chunks) :
    (writeAll true chunks).count '\n' = (writeAll false chunks).count '\n' := by
  have hescape : ∀ text, (escape text).count '\n' = text.count '\n' := fun text => by
    rw [escape_eq, List.count_append, count_escapeFrom, List.count_replicate]
    rfl
  have hcons : ∀ color d more, writeAll color (d :: more) =
    Chunk.write color d ++ writeAll color more :=
    fun _ _ _ => rfl
  induction h with
  | nil => rfl
  | char hc _ ih => rw [hcons, hcons, List.count_append, List.count_append, ih]; rfl
  | @escaped text more _ _ ih =>
    rw [hcons, hcons, List.count_append, List.count_append, ih]
    exact congrArg (· + _) (hescape text)
  | @styled style text more _ hline _ _ ih =>
    have hstyled : (styled style text).count '\n' = text.count '\n' := by
      simp [styled, hescape, List.count_eq_zero_of_not_mem hline]
    rw [hcons, hcons, List.count_append, List.count_append, ih]
    exact congrArg (· + _) hstyled

/-! ### Reading -/

/-- The pieces of a chunk that is kept can be read. -/
lemma exists_progress_pieces {d : Chunk} {more : List Chunk} (h : IsLaidOut (d :: more))
    (p : Progress) :
    ∃ q, d.pieces.foldlM Progress.step p = some q := by
  cases h with
  | @char c =>
    obtain ⟨q, hq, -⟩ := exists_progress_chars [c] p
    exact ⟨q, hq⟩
  | @escaped text =>
    obtain ⟨q, hq, -⟩ := exists_progress_chars text p
    exact ⟨q, hq⟩
  | @styled _ text _ hstyle => exact exists_progress_inStyle hstyle text (Or.inr rfl) p

/-- The pieces of chunks can be read whatever is open before them. -/
lemma exists_progress_chunks {chunks : List Chunk} (h : IsLaidOut chunks) (p : Progress) :
    ∃ q, (chunks.flatMap Chunk.pieces).foldlM Progress.step p = some q := by
  induction chunks generalizing p with
  | nil => exact ⟨p, rfl⟩
  | cons d more ih =>
    obtain ⟨q, hq⟩ := exists_progress_pieces h p
    have hmore : IsLaidOut more := by
      cases h with
      | char _ h | escaped _ h | styled _ _ _ h => exact h
    obtain ⟨r, hr⟩ := ih hmore q
    exact ⟨r, by rw [List.flatMap_cons, List.foldlM_append, hq]; exact hr⟩

/-- The pieces of chunks that are kept have the characters of the text without colour. -/
lemma charsOf_flatMap (chunks : List Chunk) :
    charsOf (chunks.flatMap Chunk.pieces) = writeAll false chunks := by
  induction chunks with
  | nil => rfl
  | cons d more ih =>
    rw [List.flatMap_cons, charsOf_append, d.charsOf_pieces, ih]
    rfl

/-- Text that is put together with colour is read as the text without colour exactly if all its
texts are kept. -/
theorem readsAs_iff {chunks : List Chunk} (h : IsLaidOut chunks) :
    ReadsAs (writeAll true chunks) (writeAll false chunks) ↔ Kept [] chunks := by
  have hchars : ∀ t, read (writeAll true chunks) = some t → t.plain =
      (charsOf (piecesFrom none 0 (writeAll true chunks))).filter fun c =>
        !StyledText.isDropped c :=
    fun t ht => (plain_read ht).trans (plainOf_eq _)
  rcases readOrSpoils h with ⟨hkept, hpieces⟩ | ⟨hnot, hspoils⟩
  · refine iff_of_true ?_ hkept
    obtain ⟨q, hq⟩ := exists_progress_chunks h ⟨[], 0, [], []⟩
    have hread : read (writeAll true chunks) = some q.finish := by
      rw [read, pieces, hpieces, hq]
      rfl
    exact ⟨_, hread, by rw [hchars _ hread, hpieces, charsOf_flatMap]⟩
  · refine iff_of_false ?_ hnot
    rintro ⟨t, ht, hplain⟩
    rw [hchars t ht] at hplain
    rcases hspoils with hdiverges | ⟨body, hbody, hline⟩
    · exact hdiverges.filter_ne hplain
    · have hcount := congrArg (List.count '\n') hplain
      rw [List.count_filter (by decide), List.count_filter
        (by decide), ← count_writeAll h] at hcount
      exact (count_charsOf_lt hbody hline).ne hcount

end PromqlGuide.Markup
