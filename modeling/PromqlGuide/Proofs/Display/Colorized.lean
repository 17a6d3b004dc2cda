import PromqlGuide.Proofs.Display.PlainText
import PromqlGuide.Proofs.Lists

/-!
# Text in a style

A style is named by a tag in front of the text and ended by a tag behind it.  Whatever brackets,
backslashes and line ends the text holds, none of it is taken for a tag, and the style reaches from
its first to its last character.  All that reading changes in the text is that a backslash may be
missing in front of a bracket.

Main statement: text that does not end with a backslash is read back from its markup between exactly
two tags (`Markup.pieces_colorize`).
-/
namespace PromqlGuide.Markup

variable {cs ds : List Char}

/-! ### Styles -/

/-- The styles that text is written in: those of headings, remarks and code, and that of each kind
of expression. -/
inductive IsUsed : String → Prop where
  | heading : IsUsed "bold white"
  | remark : IsUsed "dim white"
  | code : IsUsed "cyan"
  | kind (name : String) : IsUsed (kindStyle name)

/-- A style that is used can stand in an opening tag, and is kept under its own name. -/
lemma isOpening_of_isUsed {style : String} (h : IsUsed style) :
    IsOpening style.toList ∧ styleName style.toList = style := by
  have hnames : ∀ name ∈ Style.named.map Prod.fst,
      IsOpening name.toList ∧ styleName name.toList = name := by
    decide +kernel
  refine hnames style ?_
  cases h with
  | heading | remark | code => decide +kernel
  | kind name =>
    exact of_lookup_getD (P := (· ∈ Style.named.map Prod.fst)) (by decide +kernel)
      (by decide +kernel)

/-! ### Missing backslashes -/

/-- Whether a text is another one, in which backslashes directly before opening brackets may be
missing. -/
inductive Thinned : List Char → List Char → Prop where
  | nil : Thinned [] []
  | cons (c : Char) {cs ds : List Char} (h : Thinned cs ds) : Thinned (c :: cs) (c :: ds)
  | lost {cs ds : List Char} (h : Thinned cs ds) : Thinned ('\\' :: '[' :: cs) ('[' :: ds)

/-- What is missing behind a text is missing behind the same text in front. -/
lemma Thinned.append_left (h : Thinned cs ds) (front : List Char) :
    Thinned (front ++ cs) (front ++ ds) := by
  induction front with
  | nil => exact h
  | cons c front ih => exact .cons c ih

/-- In the text itself nothing is missing. -/
lemma Thinned.refl (cs : List Char) : Thinned cs cs := by
  simpa using Thinned.nil.append_left cs

/-- What remains of a text has lost nothing but backslashes directly before brackets. -/
lemma thinned_remains (k : Nat) (cs : List Char) :
    Thinned (List.replicate k '\\' ++ cs) (remains k cs) := by
  induction cs generalizing k with
  | nil =>
    rw [List.append_nil]
    exact .refl _
  | cons c cs ih =>
    by_cases hslash : c = '\\'
    · subst hslash
      have hrun : List.replicate k '\\' ++ '\\' :: cs = List.replicate (k + 1) '\\' ++ cs := by
        rw [List.replicate_succ', List.append_assoc, List.singleton_append]
      rw [hrun]
      exact ih (k + 1)
    have hrest : Thinned cs (remains 0 cs) := ih 0
    rw [remains_cons hslash]
    split_ifs with hbracket
    · obtain ⟨rfl, -⟩ := hbracket
      cases k with
      | zero => exact .cons _ hrest
      | succ k =>
        rw [List.replicate_succ', List.append_assoc]
        exact (Thinned.lost hrest).append_left _
    · exact (hrest.cons c).append_left _

/-! ### Reading -/

/-- Reading characters adds those that can be displayed. -/
lemma foldlM_chars (cs : List Char) (p : Progress) :
    (chars cs).foldlM Progress.step p =
      some { p with
        reversed := (cs.filter fun c => !StyledText.isDropped c).reverse ++ p.reversed
        length := p.length + (cs.filter fun c => !StyledText.isDropped c).length } := by
  induction cs generalizing p with
  | nil => rfl
  | cons c cs ih =>
    rw [chars, List.map_cons, List.foldlM_cons, ← chars, Progress.step]
    cases hdropped : StyledText.isDropped c with
    | true => simp [hdropped, ih]
    | false => simp [hdropped, ih, Nat.add_assoc, Nat.add_comm]

/-- Characters between an opening and a closing tag are read as text with the style on all of it. -/
lemma read_of_pieces {style : List Char} (hstyle : IsOpening style)
    (h : pieces cs = .tag style :: chars ds ++ [.tag ['/']]) :
    ∃ t, read cs = some t ∧ t.plain = ds.filter (fun c => !StyledText.isDropped c) ∧
      t.spans = [⟨0, t.plain.length, styleName style⟩] := by
  obtain ⟨c, name, rfl, -, hslash⟩ := hstyle.head
  have hopen : ∀ p : Progress, p.step (.tag (c :: name)) =
      some { p with opened := ⟨p.length, styleName (c :: name)⟩ :: p.opened } := by
    intro p
    rw [Progress.step]
    rintro _ ⟨⟩
    exact hslash rfl
  have hclose : ∀ p : Progress, p.step (.tag ['/']) = p.close 0 := by
    have hempty : (styleName []).isEmpty = true := by decide +kernel
    intro p
    rw [Progress.step, if_pos hempty]
  rw [read, h, List.cons_append, List.foldlM_cons, hopen]
  simp only [Option.bind_eq_bind, Option.bind_some, List.foldlM_append, foldlM_chars,
    List.foldlM_cons, hclose]
  refine ⟨_, rfl, ?_, ?_⟩
  · simp [Progress.finish]
  · simp [Progress.finish]

/-- Text in a style, whatever stands in it, is read as an opening tag, its characters and a closing
tag.  Only backslashes directly before brackets may be missing then, and characters that cannot be
displayed.  The style reaches over all of the text. -/
theorem pieces_colorize {style text : String} (hstyle : IsUsed style)
    (hend : PlainEnd text.toList) :
    ∃ kept, Thinned text.toList kept ∧
      pieces (colorize text style true).toList =
        .tag style.toList :: chars kept ++ [.tag ['/']] ∧
      ∃ t, read (colorize text style true).toList = some t ∧
        t.plain = kept.filter (fun c => !StyledText.isDropped c) ∧
        t.spans = [⟨0, t.plain.length, style⟩] := by
  obtain ⟨hopening, hname⟩ := isOpening_of_isUsed hstyle
  -- No backslash stands at the end, so none is added there.
  have hrun := endRun_of_plainEnd hend
  have hthinned : Thinned text.toList (keptFrom 0 text.toList) := by
    simpa [remains_of_endRun hrun] using thinned_remains 0 text.toList
  have hpieces : pieces (colorize text style true).toList =
      .tag style.toList :: chars (keptFrom 0 text.toList) ++ [.tag ['/']] := by
    have hstyled := piecesFrom_styled hopening hrun []
    rw [List.append_nil] at hstyled
    rw [colorize, if_pos rfl, String.toList_ofList, pieces, hstyled]
    rfl
  have hread := read_of_pieces hopening hpieces
  rw [hname] at hread
  exact ⟨_, hthinned, hpieces, hread⟩

/-- Brackets that are opened, nested and not closed, with backslashes and line ends between them. -/
def brackets : String := "[red]\\\\[/]\\[5] [b[a\n]\\\n[/"

/-- None of the brackets is a tag. -/
theorem pieces_colorize_brackets :
    IsUsed (kindStyle "StringLiteral") ∧ PlainEnd brackets.toList ∧
      ∃ kept, Thinned brackets.toList kept ∧
        pieces (colorize brackets (kindStyle "StringLiteral") true).toList =
          .tag (kindStyle "StringLiteral").toList :: chars kept ++ [.tag ['/']] ∧
        ∃ t, read (colorize brackets (kindStyle "StringLiteral") true).toList = some t ∧
          t.plain = kept.filter (fun c => !StyledText.isDropped c) ∧
          t.spans = [⟨0, t.plain.length, kindStyle "StringLiteral"⟩] := by
  have hstyle := IsUsed.kind "StringLiteral"
  have hend : PlainEnd brackets.toList := by decide
  exact ⟨hstyle, hend, pieces_colorize hstyle hend⟩

end PromqlGuide.Markup
