import Mathlib.Tactic.MkIffOfInductiveProp
import PromqlGuide.Display.CatalogText
import PromqlGuide.Proofs.Display.Lines
import PromqlGuide.Proofs.Query.Color

/-!
# Catalog texts with and without colour

The text of a catalog entry is put together from its fields, each of which is escaped or put in a
style by itself.  The texts of two fields meet only in the lists of objectives and tips: between all
others stands a text in a style.

Main statement: the text of an entry with colour is read as the one without exactly if every field
is kept, and the objectives and the tips also together (`CatalogText.readsAs_entries`).
-/
namespace PromqlGuide

open Markup

/-! ### Fields that are kept -/

/-- Whether the explanation of a query is kept, if there is one. -/
def CatalogText.ExplanationKeeps (limits : Limits) (query : String) : Prop :=
  ∀ generated, CatalogText.explanationOf limits query = .ok generated → StyledKeeps generated.toList

/-- Whether the texts about a sample query are kept. -/
@[mk_iff]
structure SampleQuery.IsKept (limits : Limits) (s : SampleQuery) : Prop where
  query : StyledKeeps s.query.toList
  description : EscapedKeeps s.description.toList
  explanation : ∀ text ∈ s.explanation, StyledKeeps text.toList
  generated : CatalogText.ExplanationKeeps limits s.query

/-- Whether the texts of a scenario are kept. -/
@[mk_iff]
structure Scenario.IsKept (limits : Limits) (s : Scenario) : Prop where
  title : StyledKeeps s.title.toList
  description : EscapedKeeps s.description.toList
  objectives : ListKeeps s.objectives
  samples : ∀ q ∈ s.samples, q.IsKept limits

/-- Whether the texts of the entry of a function are kept. -/
@[mk_iff]
structure FunctionEntry.IsKept (limits : Limits) (f : FunctionEntry) : Prop where
  name : StyledKeeps (f.name ++ "()").toList
  category : StyledKeeps ("[" ++ f.category ++ "]").toList
  description : EscapedKeeps f.description.toList
  signature : StyledKeeps f.signature.toList
  explanation : EscapedKeeps f.explanation.toList
  sample : StyledKeeps f.sample.toList
  generated : CatalogText.ExplanationKeeps limits f.sample
  tips : ListKeeps f.tips

/-- Whether the texts of a concept are kept. -/
@[mk_iff]
structure Concept.IsKept (limits : Limits) (c : Concept) : Prop where
  title : StyledKeeps c.title.toList
  description : EscapedKeeps c.description.toList
  meaning : EscapedKeeps c.meaning.toList
  usage : EscapedKeeps c.usage.toList
  illustration : EscapedKeeps c.illustration.toList
  query : StyledKeeps c.query.toList
  generated : CatalogText.ExplanationKeeps limits c.query
  tips : ListKeeps c.tips

namespace CatalogText

variable {limits : Limits} {lines shown : Bool → List String} {line : Bool → String} {P Q : Prop}
    {lead text : String}

/-! ### Lines of text -/

/-- Lines behind other text. -/
def behind (lines : List String) : List Char := lines.flatMap fun line => '\n' :: line.toList

/-- Lines stand behind other text one after the other. -/
lemma behind_append (lines more : List String) :
    behind (lines ++ more) = behind lines ++ behind more :=
  List.flatMap_append

/-- Joined lines are the first one and the others behind it. -/
lemma toList_joinLines (line : String) (lines : List String) :
    (joinLines (line :: lines)).toList = line.toList ++ behind lines := by
  induction lines generalizing line with
  | nil => simp [joinLines, behind]
  | cons other lines ih =>
    have hmore := ih other
    unfold joinLines behind at hmore ⊢
    rw [String.intercalate_cons_cons, String.toList_append, hmore]
    simp

/-- Whether a line is written as chunks in which a text in a style comes before any bracket. -/
def IsHeadLine (line : Bool → String) (P : Prop) : Prop :=
  ∃ chunks, (∀ color, (line color).toList = writeAll color chunks) ∧ IsHead chunks P

/-- Whether lines are written as a block of chunks. -/
def AreBlock (lines : Bool → List String) (P : Prop) : Prop :=
  ∃ chunks, (∀ color, behind (lines color) = writeAll color chunks) ∧ IsBlock chunks P

/-- The styles of catalog texts. -/
def styles : List String := ["bold white", "dim white", "cyan"]

/-- The styles of catalog texts can stand in a tag and are on one line. -/
lemma isOpening_of_mem {style : String} (h : style ∈ styles) :
    IsOpening style.toList ∧ '\n' ∉ style.toList := by
  revert style
  decide +kernel

/-- A text in a style is written as one chunk. -/
lemma toList_colorize (text style : String) (color : Bool) :
    (colorize text style color).toList = writeAll color [.styled style.toList text.toList] := by
  cases color <;> simp [colorize, writeAll, Chunk.write]

/-- All other text is written as one chunk that is escaped. -/
lemma toList_body (text : String) (color : Bool) :
    (body text color).toList = writeAll color [.escaped text.toList] := by
  cases color <;> simp [body, escapeText, writeAll, Chunk.write]

/-- A text in a style is a line by itself. -/
lemma isHeadLine_colorize {style : String} (hstyle : style ∈ styles) (text : String) :
    IsHeadLine (colorize text style) (StyledKeeps text.toList) := by
  obtain ⟨hopening, hline⟩ := isOpening_of_mem hstyle
  exact ⟨_, toList_colorize text style, isHead_styled hopening hline text.toList⟩

/-- A heading is a line by itself. -/
lemma isHeadLine_heading (text : String) : IsHeadLine (heading text) (StyledKeeps text.toList) :=
  isHeadLine_colorize (by simp [styles]) text

/-- A remark is a line by itself. -/
lemma isHeadLine_remark (text : String) : IsHeadLine (remark text) (StyledKeeps text.toList) :=
  isHeadLine_colorize (by simp [styles]) text

/-- A query is a line by itself. -/
lemma isHeadLine_code (text : String) : IsHeadLine (code text) (StyledKeeps text.toList) :=
  isHeadLine_colorize (by simp [styles]) text

/-- A lead in front of a line changes nothing about it. -/
lemma IsHeadLine.behindLead (h : IsHeadLine line P) (hlead : ∀ c ∈ lead.toList, IsLiteral c) :
    IsHeadLine (fun color => lead ++ line color) P := by
  obtain ⟨chunks, hchunks, hhead⟩ := h
  refine ⟨literal lead ++ chunks, fun color => ?_, hhead.literal_append hlead⟩
  rw [String.toList_append, writeAll_append, writeAll_literal, hchunks]

/-- A heading with a remark behind it. -/
lemma isHeadLine_remarked (text text' : String) :
    IsHeadLine (fun color => heading text color ++ " " ++ remark text' color)
      (StyledKeeps text.toList ∧ StyledKeeps text'.toList) := by
  obtain ⟨hopening, hline⟩ := isOpening_of_mem (by simp [styles] : "bold white" ∈ styles)
  obtain ⟨hopening', hline'⟩ := isOpening_of_mem (by simp [styles] : "dim white" ∈ styles)
  have hspace : ∀ c ∈ " ".toList, IsLiteral c := by decide
  have hbehind := (isHead_styled hopening' hline' text'.toList).literal_append hspace
  refine ⟨[.styled "bold white".toList text.toList] ++
      (literal " " ++ [.styled "dim white".toList text'.toList]),
    fun color => ?_, hbehind.styled_append hopening hline text.toList⟩
  rw [String.toList_append, String.toList_append, heading, remark, toList_colorize, toList_colorize,
    writeAll_append, writeAll_append, writeAll_literal, List.append_assoc]

/-- No lines are a block. -/
lemma areBlock_nil : AreBlock (fun _ => []) True := ⟨[], fun _ => rfl, isBlock_nil⟩

/-- An empty line is a block. -/
lemma areBlock_blank : AreBlock (fun _ => [""]) True := ⟨newLine [], fun _ => rfl, isBlock_blank⟩

/-- Two blocks are one, and kept if both are. -/
lemma AreBlock.append (h : AreBlock lines P) (h' : AreBlock shown Q) :
    AreBlock (fun color => lines color ++ shown color) (P ∧ Q) := by
  obtain ⟨chunks, hchunks, hblock⟩ := h
  obtain ⟨chunks', hchunks', hblock'⟩ := h'
  refine ⟨chunks ++ chunks', fun color => ?_, hblock.append hblock'⟩
  rw [behind_append, hchunks, hchunks', writeAll_append]

/-- Blocks for the entries of a list are one, and kept if all are. -/
lemma areBlock_flatMap {α : Type} {f : α → Bool → List String} {p : α → Prop} {l : List α}
    (h : ∀ a ∈ l, AreBlock (f a) (p a)) :
    AreBlock (fun color => l.flatMap fun a => f a color) (∀ a ∈ l, p a) := by
  induction l with
  | nil =>
    have hnil : (∀ a ∈ ([] : List α), p a) = True := eq_true (List.forall_mem_nil _)
    rw [hnil]
    exact areBlock_nil
  | cons a l ih =>
    rw [List.forall_mem_cons] at h
    rw [List.forall_mem_cons]
    exact h.1.append (ih h.2)

/-- A list of texts below a line. -/
lemma IsHeadLine.above (h : IsHeadLine line P) (hlead : ∀ c ∈ lead.toList, IsLiteral c)
    (texts : List String) :
    AreBlock (fun color => line color :: texts.map fun t => lead ++ body t color)
      (P ∧ ListKeeps texts) := by
  obtain ⟨chunks, hchunks, hhead⟩ := h
  refine ⟨newLine chunks ++ listed lead texts, fun color => ?_, hhead.isBlock hlead texts⟩
  have hlist : behind (texts.map fun t => lead ++ body t color) =
    writeAll color (listed lead texts) := by
    unfold behind listed
    rw [writeAll, List.flatMap_assoc, List.flatMap_map]
    congr 1
    funext t
    rw [String.toList_append, toList_body, ← writeAll_literal color lead, ← writeAll_append]
    rfl
  rw [behind, List.flatMap_cons, ← behind, hlist, hchunks, writeAll_append]
  rfl

/-- A line is a block. -/
lemma IsHeadLine.areBlock (h : IsHeadLine line P) : AreBlock (fun color => [line color]) P := by
  have habove := h.above (by simp : ∀ c ∈ "".toList, IsLiteral c) []
  rwa [ListKeeps, and_true] at habove

/-- An indented line is a block. -/
lemma IsHeadLine.indented (h : IsHeadLine line P) (hlead : ∀ c ∈ lead.toList, IsLiteral c) :
    AreBlock (fun color => [lead ++ line color]) P := (h.behindLead hlead).areBlock

/-- Lines that are joined are read as without colour exactly if they are kept. -/
lemma AreBlock.readsAs_iff (h : AreBlock (fun color => line color :: lines color) P) :
    ReadsAs (joinLines (line true :: lines true)).toList
      (joinLines (line false :: lines false)).toList ↔
      P := by
  obtain ⟨chunks, hchunks, hblock⟩ := h
  have hjoined : ∀ color, '\n' :: (joinLines (line color :: lines color)).toList =
      writeAll color chunks := by
    intro color
    rw [← hchunks, toList_joinLines]
    rfl
  cases chunks with
  | nil => cases hjoined true
  | cons d chunks =>
    -- the first line begins behind the end of a line too
    obtain rfl : d = .char '\n' := (hblock.areLines [] nofun .nil).1 d (by simp)
    rw [(List.cons.inj (hjoined true)).2, (List.cons.inj (hjoined false)).2]
    exact hblock.readsAs_iff

/-! ### Ends of lines that are left out -/

/-- Whether texts end with equally many ends of lines, with and without colour. -/
def EndAlike (text : Bool → List Char) : Prop :=
  ∃ n, ∀ color, ∃ front c, text color = front ++ [c] ++ List.replicate n '\n' ∧ c ≠ '\n'

/-- What stands in front does not matter for how texts end. -/
lemma EndAlike.append_left {text : Bool → List Char} (h : EndAlike text)
    (front : Bool → List Char) :
    EndAlike fun color => front color ++ text color := by
  obtain ⟨n, hn⟩ := h
  refine ⟨n, fun color => ?_⟩
  obtain ⟨before, c, htext, hc⟩ := hn color
  exact ⟨front color ++ before, c, by simp [htext], hc⟩

/-- A text behind a space ends with equally many ends of lines if it does by itself. -/
lemma endAlike_behindSpace {n : Nat} {text : Bool → List Char}
    (h : ∀ color, ∃ front, text color = front ++ List.replicate n '\n' ∧
      front.getLast? ≠ some '\n') :
    EndAlike fun color => ' ' :: text color := by
  refine ⟨n, fun color => ?_⟩
  obtain ⟨front, htext, hfront⟩ := h color
  rcases List.eq_nil_or_concat front with rfl | ⟨before, c, rfl⟩
  · exact ⟨[], ' ', congrArg (' ' :: ·) htext, by decide⟩
  · rw [List.concat_eq_append, List.getLast?_concat] at hfront
    exact ⟨' ' :: before, c, by simp [htext], fun hc => hfront (congrArg some hc)⟩

/-- An escaped text ends with as many ends of lines as it has, with colour and without. -/
lemma endAlike_body (text : String) : EndAlike fun color => ' ' :: (body text color).toList := by
  obtain ⟨front, front', n, htext, hescape, hfront, hfront'⟩ := exists_lineEnds_escape text.toList
  refine endAlike_behindSpace (n := n) fun color => ?_
  cases color with
  | false => exact ⟨front, htext, hfront⟩
  | true =>
    exact ⟨front', by rw [body, escapeText, if_pos rfl, String.toList_ofList, hescape], hfront'⟩

/-- In front of the end of a line, a text in a style ends with this one end, with colour and
without. -/
lemma endAlike_colorize (htext : CleanEnd text.toList) (style : String) :
    EndAlike fun color => ' ' :: ((colorize text style color).toList ++ ['\n']) := by
  refine endAlike_behindSpace (n := 1) fun color => ?_
  cases color with
  | false => exact ⟨text.toList, rfl, fun hlast => (htext _ hlast).2 rfl⟩
  | true =>
    have hcolored : (colorize text style true).toList = styled style.toList text.toList := by
      rw [colorize, if_pos rfl, String.toList_ofList]
    refine ⟨styled style.toList text.toList, by rw [hcolored]; rfl, ?_⟩
    have hclosing : ['[', '/', ']'].getLast? = some ']' := rfl
    rw [styled, List.getLast?_append_of_ne_nil _ (List.cons_ne_nil _ _), hclosing]
    decide

/-- Without its last ends of lines a text stops at its last other character. -/
lemma toList_withoutLastLineEnds {front : List Char} {c : Char} {n : Nat}
    (htext : text.toList = front ++ [c] ++ List.replicate n '\n') (hc : c ≠ '\n') :
    (withoutLastLineEnds text).toList = front ++ [c] := by
  have hdrop : (List.replicate n '\n' ++ c :: front.reverse).dropWhile (· == '\n') =
      c :: front.reverse := by
    rw [List.dropWhile_append_of_pos (by simp), List.dropWhile_cons_of_neg (by simpa using hc)]
  rw [withoutLastLineEnds, String.toList_ofList, htext, List.reverse_append, List.reverse_append,
    List.reverse_replicate, List.reverse_singleton, List.singleton_append, hdrop, List.reverse_cons,
    List.reverse_reverse]

/-- Where both texts lose equally many ends of lines, this does not matter for how the markup is
read. -/
lemma readsAs_withoutLastLineEnds {text : Bool → String}
    (h : EndAlike fun color => (text color).toList) :
    ReadsAs (withoutLastLineEnds (text true)).toList (withoutLastLineEnds (text false)).toList ↔
      ReadsAs (text true).toList (text false).toList := by
  obtain ⟨n, hn⟩ := h
  obtain ⟨front, c, htext, hc⟩ := hn true
  obtain ⟨front', c', htext', hc'⟩ := hn false
  rw [toList_withoutLastLineEnds htext hc, toList_withoutLastLineEnds htext' hc',
    ← readsAs_append_iff n, ← htext, ← htext']

/-- No message about a query ends with a backslash or the end of a line. -/
lemma cleanEnd_message (f : Query.Failure) : CleanEnd f.message.toList := by
  cases f with
  | numeral cause =>
    cases cause with
    | reading digits =>
      exact Expr.cleanEnd_both (by decide) (Expr.cleanEnd_behind (by decide) (by decide))
    | writing => exact Expr.cleanEnd_behind (by decide) (by decide)
  | _ => exact cleanEnd_ofList (by decide)

/-- What is said about a query ends neither with a backslash nor with the end of a line. -/
lemma cleanEnd_explanationOf {query generated : String}
    (h : explanationOf limits query = .ok generated) :
    CleanEnd generated.toList := by
  unfold explanationOf at h
  split at h
  · next e he => exact (Query.cleanEnds_of_parse he).self.2 generated h
  · next f _ =>
    cases h
    exact Expr.cleanEnd_both (by decide) (cleanEnd_message f)

/-! ### Sections -/

/-- A block may be given by other words for its lines and its condition. -/
lemma AreBlock.congr (h : AreBlock lines P) (hlines : ∀ color, shown color = lines color)
    (hiff : Q ↔ P) :
    AreBlock shown Q := by
  obtain rfl : shown = lines := funext hlines
  rwa [propext hiff]

/-- The line on top of an entry, its description and an empty line are a block. -/
lemma areBlock_opening (h : IsHeadLine line P) (description : String) :
    AreBlock (fun color => [line color, body description color, ""])
      (P ∧ EscapedKeeps description.toList) := by
  have habove := h.above (by simp : ∀ c ∈ "".toList, IsLiteral c) [description]
  refine (habove.append areBlock_blank).congr (fun color => ?_) ?_
  · simp
  · rw [and_true, listKeeps_singleton]

/-- Indentation stands for itself in markup. -/
lemma isLiteral_indent : ∀ c ∈ "  ".toList, IsLiteral c := by decide

/-- A section is kept if its texts are. -/
lemma areBlock_titled {title : String} (htitle : '\\' ∉ (title ++ ":").toList) (texts : List String)
    {more : Bool → List String} (hmore : AreBlock (fun color => (more color).map ("  " ++ ·)) Q) :
    AreBlock (fun color => titled title (texts.map (body · color) ++ more color) color)
      (ListKeeps texts ∧ Q) := by
  have hheading := (isHeadLine_heading (title ++ ":")).above isLiteral_indent texts
  refine ((hheading.append hmore).append areBlock_blank).congr (fun color => ?_) ?_
  · simp [titled]
  · rw [and_true, and_iff_right (styledKeeps_of_not_mem htitle)]

/-- A section with one text that is escaped. -/
lemma areBlock_explained {title : String} (htitle : '\\' ∉ (title ++ ":").toList) (text : String) :
    AreBlock (fun color => titled title [body text color] color) (EscapedKeeps text.toList) := by
  have hnone : AreBlock (fun _ => ([] : List String).map ("  " ++ ·)) True := areBlock_nil
  refine (areBlock_titled htitle [text] hnone).congr (fun color => rfl) ?_
  rw [and_true, listKeeps_singleton]

/-- The tips of an entry are a block. -/
lemma areBlock_tipLines (tips : List String) : AreBlock (tipLines tips) (ListKeeps tips) := by
  cases tips with
  | nil => exact areBlock_nil
  | cons tip tips =>
    have hheading := (isHeadLine_heading "Tips:").above
      (by decide : ∀ c ∈ "  - ".toList, IsLiteral c) (tip :: tips)
    refine hheading.congr (fun color => rfl) ?_
    rw [and_iff_right (styledKeeps_of_not_mem (by decide))]

/-! ### Functions and concepts -/

/-- What an entry ends with: an example and tips. -/
def ending (texts : List String) (query generated : String) (tips : List String) (color : Bool) :
    List String :=
  titled "Example" (texts.map (body · color) ++ [code query color, remark generated color]) color ++
    tipLines tips color

/-- What an entry ends with is a block. -/
lemma areBlock_ending (texts : List String) (query generated : String) (tips : List String) :
    AreBlock (ending texts query generated tips)
      ((ListKeeps texts ∧ StyledKeeps query.toList ∧ StyledKeeps generated.toList) ∧
        ListKeeps tips) := by
  have hquery := (isHeadLine_code query).indented isLiteral_indent
  have hremark := (isHeadLine_remark generated).indented isLiteral_indent
  have hmore : AreBlock (fun color => [code query color, remark generated color].map ("  " ++ ·))
      (StyledKeeps query.toList ∧ StyledKeeps generated.toList) := hquery.append hremark
  exact (areBlock_titled (by decide) texts hmore).append (areBlock_tipLines tips)

/-- What an entry ends with ends alike with colour and without. -/
lemma endAlike_ending {generated : String} (hgenerated : CleanEnd generated.toList)
    (texts : List String)
    (query : String) (tips : List String) :
    EndAlike fun color => behind (ending texts query generated tips color) := by
  rcases List.eq_nil_or_concat tips with rfl | ⟨tips, tip, rfl⟩
  · have hend := (endAlike_colorize hgenerated "dim white").append_left fun color =>
      behind (heading "Example:" color :: (texts.map (body · color) ++ [code query color]).map
        ("  " ++ ·)) ++
        ['\n', ' ']
    refine (congrArg EndAlike (funext fun color => ?_)).mp hend
    simp [ending, titled, tipLines, behind, remark]
  · have hend := (endAlike_body tip).append_left fun color =>
      behind (ending texts query generated [] color ++
        heading "Tips:" color :: tips.map fun t => "  - " ++ body t color) ++ ['\n', ' ', ' ', '-']
    refine (congrArg EndAlike (funext fun color => ?_)).mp hend
    simp [ending, tipLines, behind]

/-- An entry is read as without colour exactly if its texts are kept. -/
lemma readsAs_entry {lines : Bool → List String} {generated : String}
    (h : AreBlock (fun color => line color :: lines color) P)
    (hgenerated : CleanEnd generated.toList)
    (texts : List String) (query : String) (tips : List String) :
    let entry := fun color => withoutLastLineEnds (joinLines
      (line color :: (lines color ++ ending texts query generated tips color)))
    ReadsAs (entry true).toList (entry false).toList ↔
      P ∧ (ListKeeps texts ∧ StyledKeeps query.toList ∧ StyledKeeps generated.toList) ∧
        ListKeeps tips := by
  have hends := (endAlike_ending hgenerated texts query tips).append_left fun color =>
    (line color).toList ++ behind (lines color)
  have hjoined : EndAlike fun color =>
      (joinLines (line color ::
        (lines color ++ ending texts query generated tips color))).toList := by
    refine (congrArg EndAlike (funext fun color => ?_)).mp hends
    rw [toList_joinLines, behind_append, List.append_assoc]
  have hblock := h.append (areBlock_ending texts query generated tips)
  exact (readsAs_withoutLastLineEnds hjoined).trans
    (hblock.congr (fun color => rfl) Iff.rfl).readsAs_iff

/-- Whether both texts are there, and the one with colour is read as the one without exactly under a
condition, or neither is, as one of their queries has no explanation. -/
def ReadsAsIff (limits : Limits) (text : Bool → Except Unexplained String) (queries : List String)
    (P : Prop) : Prop :=
  ((∀ query ∈ queries, ∃ generated, explanationOf limits query = .ok generated) ∧ ∃ colored plain,
    text true = .ok colored ∧ text false = .ok plain ∧ (ReadsAs colored.toList plain.toList ↔ P)) ∨
  ∃ query ∈ queries, ∃ cause, explanationOf limits query = .error cause ∧
    ∀ color, text color = .error cause

/-- If a query has an explanation, it is this one that has to be kept. -/
lemma explanationKeeps_iff {query generated : String}
    (h : explanationOf limits query = .ok generated) :
    ExplanationKeeps limits query ↔ StyledKeeps generated.toList := by
  simp [ExplanationKeeps, h]

/-- The text of an entry that only says more than the explanation of one query. -/
lemma readsAsIff_of_explanation {text : Bool → Except Unexplained String} {query : String}
    {entry : String → Bool → String}
    (htext : ∀ color, text color = explanationOf limits query >>= fun generated =>
      .ok (entry generated color))
    (h : ∀ generated, explanationOf limits query = .ok generated →
      (ReadsAs (entry generated true).toList (entry generated false).toList ↔ P)) :
    ReadsAsIff limits text [query] P := by
  cases hquery : explanationOf limits query with
  | ok generated =>
    refine Or.inl ⟨List.forall_mem_singleton.2 ⟨generated, hquery⟩, entry generated true,
      entry generated false, ?_, ?_, h generated hquery⟩
    all_goals
      rw [htext, hquery]
      rfl
  | error cause =>
    refine Or.inr ⟨query, List.mem_singleton_self query, cause, hquery, fun color => ?_⟩
    rw [htext, hquery]
    rfl

/-- The text of a function is read as without colour exactly if its texts are kept. -/
lemma readsAsIff_function (f : FunctionEntry) :
    ReadsAsIff limits (function limits f) [f.sample] (f.IsKept limits) := by
  have hhead := isHeadLine_remarked (f.name ++ "()") ("[" ++ f.category ++ "]")
  have hsignature : AreBlock (fun color => [code f.signature color].map ("  " ++ ·)) _ :=
    (isHeadLine_code f.signature).indented isLiteral_indent
  have hsyntax := areBlock_titled (by decide : '\\' ∉ ("Syntax" ++ ":").toList) [] hsignature
  have hlines := ((areBlock_opening hhead f.description).append hsyntax).append
    (areBlock_explained (by decide : '\\' ∉ ("How it works" ++ ":").toList) f.explanation)
  refine readsAsIff_of_explanation (fun color => rfl) fun generated hgenerated => ?_
  refine (readsAs_entry hlines (cleanEnd_explanationOf hgenerated) [] f.sample f.tips).trans ?_
  rw [FunctionEntry.isKept_iff, explanationKeeps_iff hgenerated]
  tauto

/-- The text of a concept is read as without colour exactly if its texts are kept. -/
lemma readsAsIff_concept (c : Concept) :
    ReadsAsIff limits (concept limits c) [c.query] (c.IsKept limits) := by
  have hlines := ((areBlock_opening (isHeadLine_heading c.title) c.description).append
    (areBlock_explained (by decide : '\\' ∉ ("What is it?" ++ ":").toList) c.meaning)).append
    (areBlock_explained (by decide : '\\' ∉ ("When to use?" ++ ":").toList) c.usage)
  refine readsAsIff_of_explanation (fun color => rfl) fun generated hgenerated => ?_
  refine (readsAs_entry hlines (cleanEnd_explanationOf hgenerated)
    [c.illustration] c.query c.tips).trans ?_
  rw [Concept.isKept_iff, explanationKeeps_iff hgenerated, listKeeps_singleton]
  tauto

/-! ### Scenarios -/

/-- The lines about a sample query with the given explanation. -/
def sampleBlock (number : Nat) (q : SampleQuery) (generated : String) (color : Bool) :
    List String :=
  let written :=
    match q.explanation with
    | none => []
    | some text => if text.isEmpty then [] else ["     " ++ remark text color]
  [s!"  {number}. " ++ code q.query color, "     " ++ body q.description color] ++ written ++
    ["     " ++ remark generated color]

/-- The lines about a sample query only need its explanation. -/
lemma sampleLines_eq (number : Nat) (q : SampleQuery) (color : Bool) :
    sampleLines limits number q color = (explanationOf limits q.query).map
      (sampleBlock number q · color) := by
  unfold sampleLines
  cases explanationOf limits q.query <;> rfl

/-- A digit stands for itself in markup. -/
lemma isLiteral_of_isDigit {c : Char} (hc : c.isDigit = true) : IsLiteral c := by
  have hne : ∀ d : Char, d.isDigit = false → c ≠ d := by
    rintro d hd rfl
    rw [hc] at hd
    cases hd
  refine ⟨hne _ (by decide), hne _ (by decide), hne _ (by decide), ?_⟩
  rw [StyledText.isDropped]
  simp only [Bool.or_eq_false_iff, beq_eq_false_iff_ne]
  exact ⟨⟨⟨⟨hne _ (by decide), hne _ (by decide)⟩, hne _ (by decide)⟩, hne _ (by decide)⟩,
    hne _ (by decide)⟩

/-- The number in front of a sample query stands for itself in markup. -/
lemma isLiteral_number (number : Nat) : ∀ c ∈ (s!"  {number}. ").toList, IsLiteral c := by
  have hnumber : (toString number).toList = Nat.toDigits 10 number := String.toList_ofList
  have hlead : ∀ c ∈ "  ".toList ++ ". ".toList, IsLiteral c := by decide
  intro c hc
  rw [String.toList_append, String.toList_append, List.mem_append, List.mem_append] at hc
  rcases hc with (hc | hc) | hc
  · exact hlead c (List.mem_append_left _ hc)
  · exact isLiteral_of_isDigit
      (Nat.isDigit_of_mem_toDigits (by decide) (by decide) (hnumber ▸ hc :))
  · exact hlead c (List.mem_append_right _ hc)

/-- The lines about a sample query are a block. -/
lemma areBlock_sample (number : Nat) (q : SampleQuery) {generated : String}
    (hgenerated : explanationOf limits q.query = .ok generated) :
    AreBlock (sampleBlock number q generated) (q.IsKept limits) := by
  have hindent : ∀ c ∈ "     ".toList, IsLiteral c := by decide
  have hquery := ((isHeadLine_code q.query).behindLead (isLiteral_number number)).above hindent
    [q.description]
  have hremark := fun text : String => (isHeadLine_remark text).indented hindent
  have hwritten : AreBlock (fun color =>
      match q.explanation with
      | none => []
      | some text => if text.isEmpty then [] else ["     " ++ remark text color])
      (∀ text ∈ q.explanation, StyledKeeps text.toList) := by
    cases q.explanation with
    | none => exact areBlock_nil.congr (fun color => rfl) (by simp)
    | some text =>
      by_cases hempty : text.isEmpty = true
      · obtain rfl := String.isEmpty_iff.1 hempty
        exact areBlock_nil.congr (fun color => rfl)
          (by simpa using styledKeeps_of_not_mem (by simp))
      · exact (hremark text).congr (fun color => if_neg hempty) (by simp)
  refine ((hquery.append hwritten).append (hremark generated)).congr (fun color => rfl) ?_
  rw [SampleQuery.isKept_iff, explanationKeeps_iff hgenerated, listKeeps_singleton]
  tauto

/-- The text of a scenario with the given lines about its sample queries. -/
def scenarioText (s : Scenario) (samples : List (List String)) (color : Bool) : String :=
  joinLines
    ([heading s.title color, body s.description color, "", heading "Learning objectives:" color] ++
      (s.objectives.map fun o => "  - " ++ body o color) ++
        ["", heading "Sample queries:" color] ++ samples.flatten)

/-- Where all queries are explained, the text of a scenario is read as without colour exactly if its
texts are kept. -/
lemma readsAs_scenarioText (s : Scenario) {numbered : List (Nat × SampleQuery)}
    (hsamples : numbered.map Prod.snd = s.samples) {generated : Nat × SampleQuery → String}
    (hgenerated : ∀ p ∈ numbered, explanationOf limits p.2.query = .ok (generated p)) :
    let text := fun color =>
      scenarioText s (numbered.map fun p => sampleBlock p.1 p.2 (generated p) color) color
    ReadsAs (text true).toList (text false).toList ↔ s.IsKept limits := by
  have hobjectives := (isHeadLine_heading "Learning objectives:").above
    (by decide : ∀ c ∈ "  - ".toList, IsLiteral c) s.objectives
  have hqueries : AreBlock
      (fun color => numbered.flatMap fun p => sampleBlock p.1 p.2 (generated p) color) _ :=
    areBlock_flatMap fun p hp => areBlock_sample p.1 p.2 (hgenerated p hp)
  have hlines := (((areBlock_opening (isHeadLine_heading s.title) s.description).append
    hobjectives).append
      (areBlock_blank.append (isHeadLine_heading "Sample queries:").areBlock)).append
      hqueries
  have hheadings : ∀ text ∈ ["Learning objectives:", "Sample queries:"], StyledKeeps text.toList :=
    fun text htext => styledKeeps_of_not_mem (by revert text; decide)
  refine (hlines.congr (fun color => rfl) Iff.rfl).readsAs_iff.trans ?_
  rw [Scenario.isKept_iff, ← hsamples, List.forall_mem_map]
  simp only [List.forall_mem_cons] at hheadings
  tauto

/-- The text of a scenario is read as without colour exactly if its texts are kept. -/
lemma readsAsIff_scenario (s : Scenario) :
    ReadsAsIff limits (scenario limits s) (s.samples.map SampleQuery.query) (s.IsKept limits) := by
  let numbered := s.samples.mapIdx fun index q => (index + 1, q)
  have hsamples : numbered.map Prod.snd = s.samples :=
    List.ext_getElem (by simp [numbered]) (by simp [numbered])
  have hqueries : s.samples.map SampleQuery.query = numbered.map fun p => p.2.query := by
    rw [← hsamples, List.map_map]
    rfl
  have hscenario : ∀ color, scenario limits s color =
    numbered.mapM (fun p => (explanationOf limits p.2.query).map
      (sampleBlock p.1 p.2 · color)) >>= fun samples => .ok (scenarioText s samples color) := by
    intro color
    simp only [← sampleLines_eq]
    rfl
  rw [hqueries]
  rcases mapM_map_cases (fun p : Nat × SampleQuery => explanationOf limits p.2.query) numbered with
    hok | ⟨p, hp, cause, herror, hmap⟩
  · let generated (p : Nat × SampleQuery) := (explanationOf limits p.2.query).toOption.getD ""
    have hgenerated : ∀ p ∈ numbered, explanationOf limits p.2.query = .ok (generated p) :=
      fun p hp => eq_ok_toOption (hok p hp) ""
    have htext : ∀ color, scenario limits s color =
        .ok (scenarioText s (numbered.map fun p => sampleBlock p.1 p.2 (generated p) color)
          color) := by
      intro color
      rw [hscenario, mapM_eq_pure (g := fun p => sampleBlock p.1 p.2 (generated p) color)]
      · rfl
      · intro p hp
        rw [hgenerated p hp]
        rfl
    exact Or.inl ⟨List.forall_mem_map.2 hok, _, _, htext true, htext false,
      readsAs_scenarioText s hsamples hgenerated⟩
  · refine Or.inr ⟨p.2.query, List.mem_map_of_mem hp, cause, herror, fun color => ?_⟩
    rw [hscenario, hmap]
    rfl

/-! ### Entries -/

/-- The texts of an entry with colour and without are both there, and then the one is read as the
other exactly if the texts of the entry are kept; or neither is, as a query of the entry has no
explanation. -/
theorem readsAs_entries (limits : Limits) (s : Scenario) (f : FunctionEntry) (c : Concept) :
    ReadsAsIff limits (scenario limits s) (s.samples.map SampleQuery.query) (s.IsKept limits) ∧
      ReadsAsIff limits (function limits f) [f.sample] (f.IsKept limits) ∧
      ReadsAsIff limits (concept limits c) [c.query] (c.IsKept limits) :=
  ⟨readsAsIff_scenario s, readsAsIff_function f, readsAsIff_concept c⟩

/-- If the queries are explained and the texts are not kept, both texts are there and differ. -/
lemma ReadsAsIff.not_readsAs {text : Bool → Except Unexplained String} {queries : List String}
    (h : ReadsAsIff limits text queries P) (hnot : ¬P)
    (hqueries : ∀ query ∈ queries, ∃ generated, explanationOf limits query = .ok generated) :
    ∃ colored plain, text true = .ok colored ∧ text false = .ok plain ∧
      ¬ReadsAs colored.toList plain.toList := by
  rcases h with ⟨-, colored, plain, hcolored, hplain, hiff⟩ | ⟨query, hquery, cause, herror, -⟩
  · exact ⟨colored, plain, hcolored, hplain, fun hreads => hnot (hiff.1 hreads)⟩
  · obtain ⟨generated, hgenerated⟩ := hqueries query hquery
    cases herror.symm.trans hgenerated

/-- A scenario in which one objective opens a bracket and the next one closes it. -/
def bracketsApart : Scenario := ⟨"brackets", "Brackets", "Brackets in two lines.", ["[a", "]"], []⟩

/-- A function with a backslash in front of a bracket that does not look like a tag. -/
def escapedDigit : FunctionEntry := ⟨"abs", "math", "abs(v)", "\\[5]", "", "Takes a vector.", []⟩

/-- A concept with a single backslash at the end of its tip. -/
def lastBackslash : Concept :=
  ⟨"escapes", "Escapes", "About escapes.", "A backslash.", "In strings.", "One of them.", "",
    ["\\"]⟩

/-- None of these three is read as without colour: the objectives are lost, the backslash of the
function is lost, and that of the concept is doubled. -/
theorem not_readsAs_entries :
    (∃ colored plain, scenario .usual bracketsApart true = .ok colored ∧
      scenario .usual bracketsApart false = .ok plain ∧ ¬ReadsAs colored.toList plain.toList) ∧
    (∃ colored plain, function .usual escapedDigit true = .ok colored ∧
      function .usual escapedDigit false = .ok plain ∧ ¬ReadsAs colored.toList plain.toList) ∧
    ∃ colored plain, concept .usual lastBackslash true = .ok colored ∧
      concept .usual lastBackslash false = .ok plain ∧ ¬ReadsAs colored.toList plain.toList := by
  have hempty : ∀ query ∈ [""], ∃ generated, explanationOf .usual query = .ok generated :=
    List.forall_mem_singleton.2 ⟨_, rfl⟩
  obtain ⟨hscenario, hfunction, hconcept⟩ := readsAs_entries .usual bracketsApart escapedDigit
    lastBackslash
  refine ⟨hscenario.not_readsAs (fun hkept => ?_) (List.forall_mem_nil _),
    hfunction.not_readsAs (fun hkept => ?_) hempty, hconcept.not_readsAs (fun hkept => ?_) hempty⟩
  · exact hkept.objectives.1.2 ⟨⟨[], ['a'], by decide, by decide, by decide⟩, by decide⟩
  · exact hkept.description.1 ⟨[], ['5', ']'], by decide, by decide⟩
  · exact hkept.tips.1.1.2 (by decide)

end CatalogText
end PromqlGuide
