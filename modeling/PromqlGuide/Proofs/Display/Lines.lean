import PromqlGuide.Proofs.Display.Chunks

/-!
# Lines of markup

A longer text is put together line by line.  Where an escaped text ends a line, brackets that it
leaves open can only be closed by escaped texts in the lines behind it, up to the next text in a
style.  Ends of lines at the end of the whole text can be left out, with and without colour alike.

Main statements: blocks of lines are read as without colour exactly if they are kept
(`Markup.IsBlock.readsAs_iff`), and leaving out ends of lines changes nothing
(`Markup.readsAs_append_iff`).
-/
namespace PromqlGuide.Markup

variable {k : Nat} {cs ds tail : List Char} {chunks : List Chunk}

/-! ### Ends of lines behind a text -/

/-- Ends of lines close no tag. -/
lemma closesTag_lines (n : Nat) : closesTag (List.replicate n '\n') = false := by
  induction n with
  | zero => rfl
  | succ n ih => exact ih

/-- In front of ends of lines, backslashes are read as they are. -/
lemma piecesFrom_lines (n k : Nat) :
    piecesFrom none k (List.replicate n '\n') =
      chars (List.replicate k '\\') ++ chars (List.replicate n '\n') := by
  induction n generalizing k with
  | zero => exact (List.append_nil _).symm
  | succ n ih =>
    rw [List.replicate_succ, piecesFrom_plain (by decide) (by decide), ih, chars_append,
      List.append_assoc]
    rfl

/-- Ends of lines behind markup are read as they are. -/
lemma piecesFrom_append_lines (tag? : Option (List Char)) (htag : tag?.isSome = true → ']' ∈ cs)
    (k n : Nat) :
    piecesFrom tag? k (cs ++ List.replicate n '\n') =
      piecesFrom tag? k cs ++ chars (List.replicate n '\n') := by
  induction cs generalizing tag? k with
  | nil =>
    cases tag? with
    | none => exact piecesFrom_lines n k
    | some body => exact absurd (htag rfl) List.not_mem_nil
  | cons c cs ih =>
    have hplain := ih none nofun
    cases tag? with
    | some body =>
      rw [List.cons_append, piecesFrom, piecesFrom]
      split
      · rw [hplain, List.cons_append]
      · next hclose =>
        exact ih (some (c :: body)) (fun _ =>
          (List.mem_cons.1 (htag rfl)).resolve_left (Ne.symm hclose)) 0
    | none =>
      have hlook : looksLikeTag (cs ++ List.replicate n '\n') = looksLikeTag cs :=
        looksLikeTag_append (closesTag_lines n) cs
      rw [List.cons_append, piecesFrom, piecesFrom, hlook]
      dsimp only
      split_ifs with hslash hopen hlooks hodd
      · exact hplain (k + 1)
      · rw [hplain, List.append_assoc, List.cons_append]
      · rw [ih (some []) (fun _ => mem_of_looksLikeTag hlooks), List.append_assoc]
      · rw [hplain, List.append_assoc, List.cons_append]
      · rw [hplain, List.append_assoc, List.cons_append]

/-- Markup is read as a text if its pieces can be read and have the characters of the text that can
be displayed. -/
lemma readsAs_iff_pieces : ReadsAs cs ds ↔
    (∃ q, (pieces cs).foldlM Progress.step ⟨[], 0, [], []⟩ = some q) ∧
      plainOf (pieces cs) = ds.filter fun c => !StyledText.isDropped c := by
  constructor
  · rintro ⟨t, ht, hplain⟩
    obtain ⟨q, hq, -⟩ := Option.map_eq_some_iff.1 ht
    exact ⟨⟨q, hq⟩, (plain_read ht).symm.trans hplain⟩
  · rintro ⟨⟨q, hq⟩, hplain⟩
    have hread : read cs = some q.finish := by rw [read, hq, Option.map_some]
    exact ⟨_, hread, (plain_read hread).trans hplain⟩

/-- With ends of lines behind both, markup is read as a text exactly if it is so without. -/
lemma readsAs_append_iff (n : Nat) :
    ReadsAs (cs ++ List.replicate n '\n') (ds ++ List.replicate n '\n') ↔ ReadsAs cs ds := by
  have hpieces : pieces (cs ++ List.replicate n '\n') =
    pieces cs ++ chars (List.replicate n '\n') :=
    piecesFrom_append_lines none nofun 0 n
  rw [readsAs_iff_pieces, readsAs_iff_pieces, hpieces, plainOf_append, plainOf_chars,
    List.filter_append, List.append_cancel_right_eq, List.foldlM_append]
  refine and_congr_left' ⟨fun ⟨q, hq⟩ => ?_, fun ⟨q, hq⟩ => ?_⟩
  · obtain ⟨r, hr, -⟩ := Option.bind_eq_some_iff.1 hq
    exact ⟨r, hr⟩
  · obtain ⟨r, hr, -⟩ := exists_progress_chars (List.replicate n '\n') q
    exact ⟨r, Option.bind_eq_some_iff.2 ⟨q, hq, hr⟩⟩

/-! ### Ends of lines behind an escaped text -/

/-- A text that is escaped ends as before, or with the backslashes in front of it. -/
lemma getLast?_escapeFrom (k : Nat) (cs : List Char) :
    (escapeFrom k cs).getLast? = cs.getLast?.or (List.replicate k '\\').getLast? := by
  induction cs generalizing k with
  | nil => simp [escapeFrom]
  | cons c cs ih =>
    unfold escapeFrom
    split_ifs with hslash hopen
    · simp [ih, hslash, List.getLast?_cons, List.getLast?_replicate]
    · simp [ih, List.getLast?_append, List.getLast?_cons]
    · simp [ih, List.getLast?_append, List.getLast?_cons]

/-- Ends of lines behind a text do not matter for how it is escaped. -/
lemma escapeFrom_append_lines (k n : Nat) (cs : List Char) :
    escapeFrom k (cs ++ List.replicate n '\n') = escapeFrom k cs ++ List.replicate n '\n' := by
  induction cs generalizing k with
  | nil =>
    cases n with
    | zero => exact (List.append_nil _).symm
    | succ n =>
      have hplain : escapeFrom 0 (List.replicate n '\n') = List.replicate n '\n' :=
        escapeFrom_of_plain fun c hc => by rw [List.eq_of_mem_replicate hc]; decide
      simp [escapeFrom, hplain, List.replicate_succ]
  | cons c cs ih =>
    rw [List.cons_append, escapeFrom, escapeFrom, looksLikeTag_append (closesTag_lines n)]
    split_ifs
    · exact ih _
    · rw [ih, List.append_assoc, List.cons_append]
    · rw [ih, List.append_assoc, List.cons_append]

/-- A text ends with a number of ends of lines. -/
lemma exists_lineEnds (cs : List Char) :
    ∃ front n, cs = front ++ List.replicate n '\n' ∧ front.getLast? ≠ some '\n' := by
  induction cs using List.reverseRecOn with
  | nil => exact ⟨[], 0, rfl, by simp⟩
  | append_singleton cs c ih =>
    by_cases hc : c = '\n'
    · obtain ⟨front, n, rfl, hfront⟩ := ih
      exact ⟨front, n + 1, by rw [hc, List.replicate_succ', List.append_assoc], hfront⟩
    · exact ⟨cs ++ [c], 0, (List.append_nil _).symm, by simpa using hc⟩

/-- An escaped text ends with as many ends of lines as the text. -/
lemma exists_lineEnds_escape (text : List Char) :
    ∃ front front' n, text = front ++ List.replicate n '\n' ∧
    escape text = front' ++ List.replicate n '\n' ∧
      front.getLast? ≠ some '\n' ∧ front'.getLast? ≠ some '\n' := by
  obtain ⟨front, n, rfl, hfront⟩ := exists_lineEnds text
  cases n with
  | zero =>
    refine ⟨front, escape (front ++ List.replicate 0 '\n'), 0, rfl, by simp, hfront, ?_⟩
    rw [List.replicate_zero, List.append_nil, escape_eq, List.getLast?_append, getLast?_escapeFrom]
    split_ifs
    · simp
    · simpa using hfront
  | succ n =>
    refine ⟨front, escapeFrom 0 front, n + 1, rfl, ?_, hfront, ?_⟩
    · have hrun : endRun 0 (front ++ List.replicate (n + 1) '\n') = 0 :=
        endRun_of_plainEnd fun c hc => by
          rw [List.replicate_succ', ← List.append_assoc, List.getLast?_concat] at hc
          cases hc
          decide
      rw [escape_eq, hrun, escapeFrom_append_lines]
      simp
    · rw [getLast?_escapeFrom]
      simpa using hfront

/-! ### Lines -/

/-- The characters of a text as chunks. -/
def literal (text : String) : List Chunk := text.toList.map .char

/-- A line behind other lines. -/
def newLine (line : List Chunk) : List Chunk := .char '\n' :: line

/-- Chunks are written one after the other. -/
lemma writeAll_append (color : Bool) (xs ys : List Chunk) :
    writeAll color (xs ++ ys) = writeAll color xs ++ writeAll color ys := List.flatMap_append

/-- The characters of a text are written as the text. -/
lemma writeAll_literal (color : Bool) (text : String) :
    writeAll color (literal text) = text.toList := by
  rw [writeAll, literal, List.flatMap_map]
  exact List.flatMap_singleton' _

/-- Whether nothing goes on where chunks begin, but a new line. -/
def StartsLine (chunks : List Chunk) : Prop := ∀ d ∈ chunks.head?, d = .char '\n'

/-- Whether chunks are lines, which other lines may follow. -/
def AreLines (chunks : List Chunk) : Prop :=
  ∀ more, StartsLine more → IsLaidOut more → StartsLine (chunks ++ more) ∧
    IsLaidOut (chunks ++ more)

/-- No chunks are lines. -/
lemma areLines_nil : AreLines [] := fun _ hstart hlaid => ⟨hstart, hlaid⟩

/-- Lines behind lines are lines. -/
lemma AreLines.append {xs ys : List Chunk} (hxs : AreLines xs) (hys : AreLines ys) :
    AreLines (xs ++ ys) := by
  intro more hstart hlaid
  obtain ⟨hstart', hlaid'⟩ := hys more hstart hlaid
  rw [List.append_assoc]
  exact hxs (ys ++ more) hstart' hlaid'

/-- Lines for the entries of a list are lines. -/
lemma areLines_flatMap {α : Type} {l : List α} {f : α → List Chunk} (h : ∀ a ∈ l, AreLines (f a)) :
    AreLines (l.flatMap f) := by
  induction l with
  | nil => exact areLines_nil
  | cons a l ih =>
    rw [List.forall_mem_cons] at h
    exact h.1.append (ih h.2)

/-- Characters that stand for themselves may stand in front of what is laid out. -/
lemma IsLaidOut.literal_append {text : String} (htext : ∀ c ∈ text.toList, IsLiteral c)
    {more : List Chunk} (h : IsLaidOut more) : IsLaidOut (literal text ++ more) := by
  unfold literal
  generalize text.toList = cs at htext ⊢
  induction cs with
  | nil => exact h
  | cons c cs ih =>
    rw [List.forall_mem_cons] at htext
    exact .char htext.1 (ih htext.2)

/-- A new line with what may stand in front of other lines is one of these. -/
lemma areLines_newLine {line : List Chunk}
    (h : ∀ more, StartsLine more → IsLaidOut more → IsLaidOut (line ++ more)) :
    AreLines (newLine line) := by
  intro more hstart hlaid
  refine ⟨?_, .char (by decide) (h more hstart hlaid)⟩
  rintro d ⟨⟩
  rfl

/-- An empty line is a line. -/
lemma areLines_blank : AreLines (newLine []) := areLines_newLine fun _ _ hlaid => hlaid

/-- An escaped text behind a lead is a line. -/
lemma areLines_escaped {lead : String} (hlead : ∀ c ∈ lead.toList, IsLiteral c) (text : List Char) :
    AreLines (newLine (literal lead ++ [.escaped text])) := by
  refine areLines_newLine fun more hstart hlaid => ?_
  rw [List.append_assoc]
  exact .literal_append hlead (.escaped hstart hlaid)

/-! ### What is kept of lines -/

/-- What is kept of chunks depends on what stands behind them. -/
lemma kept_append (tail : List Char) (xs ys : List Chunk) :
    Kept tail (xs ++ ys) ↔ Kept (writeAll true ys ++ tail) xs ∧ Kept tail ys := by
  induction xs with
  | nil => exact (and_iff_right trivial).symm
  | cons d xs ih =>
    cases d with
    | char c => exact ih
    | escaped text =>
      rw [List.cons_append, Kept, Kept, ih, writeAll_append, List.append_assoc]
      exact and_assoc.symm
    | styled style text =>
      rw [List.cons_append, Kept, Kept, ih]
      exact and_assoc.symm

/-- Characters that stand for themselves are kept. -/
lemma kept_literal (tail : List Char) (text : String) : Kept tail (literal text) := by
  unfold literal
  induction text.toList with
  | nil => trivial
  | cons c cs ih => exact ih

/-- Characters that stand for themselves close no tag. -/
lemma closesTag_literal {text : String} (htext : ∀ c ∈ text.toList, IsLiteral c) (cs : List Char) :
    closesTag (text.toList ++ cs) = closesTag cs := by
  generalize text.toList = leading at htext ⊢
  induction leading with
  | nil => rfl
  | cons c leading ih =>
    rw [List.forall_mem_cons] at htext
    rw [List.cons_append, closesTag, if_neg htext.1.2.2.1, if_neg htext.1.2.1, ih htext.2]

/-! ### Lists -/

/-- Whether the texts of a list are kept: each by itself, and no bracket that one of them leaves
open is closed in the ones behind it. -/
def ListKeeps : List String → Prop
  | [] => True
  | text :: more =>
    (EscapedKeeps text.toList ∧
      ¬(LeavesOpen text.toList ∧ closesTag (more.flatMap String.toList) = true)) ∧ ListKeeps more

/-- A text by itself closes no bracket that it leaves open. -/
lemma listKeeps_singleton (text : String) : ListKeeps [text] ↔ EscapedKeeps text.toList := by
  rw [ListKeeps, ListKeeps, and_true]
  exact and_iff_left fun h => absurd h.2 Bool.false_ne_true

/-- The lines of a list. -/
def listed (lead : String) (texts : List String) : List Chunk :=
  texts.flatMap fun text => newLine (literal lead ++ [.escaped text.toList])

/-- The lines of a list are lines. -/
lemma areLines_listed {lead : String} (hlead : ∀ c ∈ lead.toList, IsLiteral c)
    (texts : List String) :
    AreLines (listed lead texts) := areLines_flatMap fun text _ =>
      areLines_escaped hlead text.toList

/-- Only brackets of the texts themselves are closed in a list. -/
lemma closesTag_listed {lead : String} (hlead : ∀ c ∈ lead.toList, IsLiteral c)
    (htail : closesTag tail = false) (texts : List String) :
    closesTag (writeAll true (listed lead texts) ++ tail) =
      closesTag (texts.flatMap String.toList) := by
  induction texts with
  | nil => exact htail
  | cons text texts ih =>
    have hwrite : writeAll true (listed lead (text :: texts)) ++ tail = '\n' :: (lead.toList ++
        (escape text.toList ++ (writeAll true (listed lead texts) ++ tail))) := by
      simp [listed, newLine, writeAll, literal, Chunk.write, List.flatMap_map,
        List.flatMap_singleton']
    have hboth : ∀ cs ds : List Char, closesTag cs = closesTag ds →
        closesTag (text.toList ++ cs) = closesTag (text.toList ++ ds) := by
      intro cs ds h
      rw [Bool.eq_iff_iff, closesTag_append_iff, closesTag_append_iff, h]
    rw [hwrite, closesTag, if_neg (by decide), if_neg (by decide), closesTag_literal hlead,
      escape_eq, List.append_assoc, closesTag_escapeFrom, List.flatMap_cons]
    refine hboth _ _ ?_
    rw [closesTag_replicate, ih]

/-- The lines of a list are kept exactly if its texts are. -/
lemma kept_listed {lead : String} (hlead : ∀ c ∈ lead.toList, IsLiteral c)
    (htail : closesTag tail = false) (texts : List String) :
    Kept tail (listed lead texts) ↔ ListKeeps texts := by
  induction texts with
  | nil => exact Iff.rfl
  | cons text texts ih =>
    have hcons : listed lead (text :: texts) =
        newLine (literal lead ++ [.escaped text.toList]) ++ listed lead texts := List.flatMap_cons
    have hnil : writeAll true [] = [] := rfl
    rw [hcons, kept_append, ih, ListKeeps]
    refine and_congr_left' ((kept_append _ (literal lead) [.escaped text.toList]).trans ?_)
    rw [and_iff_right (kept_literal _ lead), Kept, Kept, and_true, hnil, List.nil_append,
      closesTag_listed hlead htail]

/-! ### Blocks of lines -/

/-- Whether chunks are a line in which a text in a style comes before any bracket, and which is kept
under a condition. -/
structure IsHead (line : List Chunk) (P : Prop) : Prop where
  laidOut : ∀ more, StartsLine more → IsLaidOut more → IsLaidOut (line ++ more)
  kept : ∀ tail, Kept tail line ↔ P
  closesNone : ∀ tail, closesTag (writeAll true line ++ tail) = false

variable {line : List Chunk} {lead : String} {style : List Char} {P Q : Prop}

/-- A text in a style is a line by itself. -/
lemma isHead_styled (hstyle : IsOpening style) (hline : '\n' ∉ style) (text : List Char) :
    IsHead [.styled style text] (StyledKeeps text) where
  laidOut _ hstart hlaid := .styled hstyle hline (fun d hd => ⟨'\n', hstart d hd⟩) hlaid
  kept _ := by rw [Kept, Kept, and_true]
  closesNone _ := rfl

/-- A lead in front of a line changes nothing about it. -/
lemma IsHead.literal_append (h : IsHead line P) (hlead : ∀ c ∈ lead.toList, IsLiteral c) :
    IsHead (literal lead ++ line) P where
  laidOut more hstart hlaid := by
    rw [List.append_assoc]
    exact .literal_append hlead (h.laidOut more hstart hlaid)
  kept tail := by rw [kept_append, and_iff_right (kept_literal _ lead), h.kept]
  closesNone tail := by
    rw [writeAll_append, writeAll_literal, List.append_assoc, closesTag_literal hlead, h.closesNone]

/-- A text in a style in front of a line that begins with a character. -/
lemma IsHead.styled_append {c : Char} (h : IsHead (.char c :: line) P) (hstyle : IsOpening style)
    (hline : '\n' ∉ style) (text : List Char) :
    IsHead (.styled style text :: .char c :: line) (StyledKeeps text ∧ P) where
  laidOut more hstart hlaid := by
    refine .styled hstyle hline ?_ (h.laidOut more hstart hlaid)
    rintro d ⟨⟩
    exact ⟨c, rfl⟩
  kept tail := by rw [Kept, h.kept]
  closesNone _ := rfl

/-- Whether chunks are lines that are kept under a condition and close no bracket that is left open
before them, where the text behind them closes none. -/
structure IsBlock (chunks : List Chunk) (P : Prop) : Prop where
  areLines : AreLines chunks
  kept : ∀ {tail}, closesTag tail = false → (Kept tail chunks ↔ P)
  closesNone : ∀ {tail}, closesTag tail = false → closesTag (writeAll true chunks ++ tail) = false

/-- No lines are a block. -/
lemma isBlock_nil : IsBlock [] True where
  areLines := areLines_nil
  kept _ := Iff.rfl
  closesNone h := h

/-- An empty line is a block. -/
lemma isBlock_blank : IsBlock (newLine []) True where
  areLines := areLines_blank
  kept _ := Iff.rfl
  closesNone h := h

/-- Two blocks are one, and kept if both are. -/
lemma IsBlock.append {xs ys : List Chunk} (hxs : IsBlock xs P) (hys : IsBlock ys Q) :
    IsBlock (xs ++ ys) (P ∧ Q) where
  areLines := hxs.areLines.append hys.areLines
  kept h := by rw [kept_append, hxs.kept (hys.closesNone h), hys.kept h]
  closesNone h := by rw [writeAll_append, List.append_assoc, hxs.closesNone (hys.closesNone h)]

/-- A list below a line with a text in a style: what the list closes is closed behind that line. -/
lemma IsHead.isBlock (h : IsHead line P) (hlead : ∀ c ∈ lead.toList, IsLiteral c)
    (texts : List String) :
    IsBlock (newLine line ++ listed lead texts) (P ∧ ListKeeps texts) where
  areLines := (areLines_newLine h.laidOut).append (areLines_listed hlead texts)
  kept {tail} htail := by
    rw [kept_append, kept_listed hlead htail]
    exact and_congr_left' (h.kept _)
  closesNone {tail} _ := by
    rw [writeAll_append, List.append_assoc]
    exact h.closesNone _

/-- Lines that are put together are read as the lines without colour exactly if they are kept. -/
lemma IsBlock.readsAs_iff (h : IsBlock (newLine chunks) P) :
    ReadsAs (writeAll true chunks) (writeAll false chunks) ↔ P := by
  have hlaid := (h.areLines [] nofun .nil).2
  rw [List.append_nil] at hlaid
  cases hlaid with
  | char _ hchunks => exact (Markup.readsAs_iff hchunks).trans (h.kept rfl)

end PromqlGuide.Markup
