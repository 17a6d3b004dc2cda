import PromqlGuide.Proofs.Written.Bracketed

/-!
# Spacing

Which gaps may stand between lexemes.  Whether a lexeme runs into what follows it depends on one
character behind it, or for a function name on the parenthesis that it needs; so the text behind the
next lexeme does not matter, and neither does blank text that is added in front of it.  The one gap
that has to be whitespace, without comments, is that behind a function name.

Main statements: lexemes stay laid out in front of another text if the last one does not run into it
(`Lexeme.laidOut_congr`), lexemes with gaps everywhere between them are laid out
(`Lexeme.laidOut_of_spaced`), and so are words that flow, whatever gaps are between them
(`Lexeme.laidOut_of_flows`).
-/
namespace PromqlGuide

open Text

/-! ### The text behind a lexeme -/

namespace Lexical

variable {x : Lexical} {w : List Char}

/-- No lexeme but a function name needs any text behind it. -/
lemma stopsAt_nil (hx : x ≠ .token .functionName) : x.stopsAt w [] = true := by
  cases x with
  | mark m => rfl
  | token t =>
    cases t with
    | functionName => exact absurd rfl hx
    | matchOperator => simp [stopsAt, Terminal.stopsAt, endsBefore]
    | symbol s => cases s <;> rfl
    | _ => rfl

/-- For all lexemes but function names, only the first character behind them counts. -/
lemma stopsAt_cons (hx : x ≠ .token .functionName) (c : Char) (cs ds : List Char) :
    x.stopsAt w (c :: cs) = x.stopsAt w (c :: ds) := by
  cases x with
  | mark m => rfl
  | token t =>
    cases t with
    | functionName => exact absurd rfl hx
    | symbol s => cases s <;> rfl
    | _ => rfl

/-- Characters that no lexeme runs into. -/
lemma stopsAt_apart (hx : x ≠ .token .functionName) {c : Char} (hword : isWordPart c = false)
    (hdigit : isDigit c = false) (hc : c ≠ '.' ∧ c ≠ '~' ∧ c ≠ '=') (cs : List Char) :
    x.stopsAt w (c :: cs) = true := by
  have hname : isNamePart c = false := by
    by_contra hname
    simp [isWordPart, isMetricPart, Bool.not_eq_false _ ▸ hname] at hword
  cases x with
  | mark m => rfl
  | token t =>
    cases t with
    | functionName => exact absurd rfl hx
    | symbol s => cases s <;> simp [stopsAt, Terminal.stopsAt, endsBefore, hc]
    | _ => simp [stopsAt, Terminal.stopsAt, endsBefore, Number.isContinued, Duration.isContinued,
        hword, hdigit, hname, hc]

/-- A lexeme that is no function name does not run into blank text. -/
lemma stopsAt_blank (hx : x ≠ .token .functionName) {c : Char} (hc : isSpace c = true ∨ c = '#')
    (cs : List Char) : x.stopsAt w (c :: cs) = true := by
  rcases hc with hspace | rfl
  · refine stopsAt_apart hx (not_isWordPart_of_isSpace hspace) (not_isDigit_of_isSpace hspace) ?_ cs
    refine ⟨?_, ?_, ?_⟩ <;> rintro rfl <;> revert hspace <;> decide
  · exact stopsAt_apart hx (by decide) (by decide +kernel) (by decide) cs

/-- A lexeme that is no function name does not run into a parenthesis. -/
lemma stopsAt_paren (hx : x ≠ .token .functionName) (cs : List Char) :
    x.stopsAt w ('(' :: cs) = true :=
  stopsAt_apart hx (by decide) (by decide +kernel) (by decide) cs

end Lexical

/-- A visible character opens a call only if it is a parenthesis. -/
lemma opensCall_cons {c : Char} (hc : isSpace c = false) (cs : List Char) :
    Name.opensCall (c :: cs) = true ↔ c = '(' := by
  unfold Name.opensCall
  rw [List.dropWhile_cons_of_neg (by simp [hc])]
  split
  · next heq =>
    cases heq
    exact iff_of_true rfl rfl
  · next hother => exact iff_of_false (by simp) fun heq => hother cs (heq ▸ rfl)

/-- A function name goes on with whitespace and a parenthesis. -/
lemma opensCall_append {gap : List Char} (hgap : isGap gap = true) {c : Char}
    (hc : isSpace c = false) (cs : List Char) :
    Name.opensCall (gap ++ c :: cs) = true ↔ (∀ d ∈ gap, isSpace d = true) ∧ c = '(' := by
  induction gap with
  | nil => simpa using opensCall_cons hc cs
  | cons d gap ih =>
    simp only [isGap, closesBlank] at hgap
    split_ifs at hgap with hspace hmark
    · simpa [Name.opensCall, hspace] using ih hgap
    · have hnone : Name.opensCall (d :: (gap ++ c :: cs)) = true ↔ d = '(' :=
        opensCall_cons (by simpa using hspace) _
      rw [List.cons_append, hnone]
      refine iff_of_false (fun hparen => ?_) fun hall => hspace (hall.1 d List.mem_cons_self)
      rw [hmark] at hparen
      cases hparen

namespace Lexeme

/-- Whether a lexeme runs into what follows depends on the next lexeme, not on the text behind
it. -/
lemma stopsAt_next {x : Lexical} {w : List Char} {m : Lexeme} (hm : m.Proper)
    (rest rest' : List Char) :
    x.stopsAt w (m.gap ++ (m.text ++ rest)) = x.stopsAt w (m.gap ++ (m.text ++ rest')) := by
  obtain ⟨c, cs, htext, hc⟩ := Lexical.opens_of_spells hm.2.2
  rw [htext]
  by_cases hx : x = .token .functionName
  · subst hx
    have hspace := (Lexical.not_blank_of_opens hm.2.1 hc).1
    have hiff := fun ds => opensCall_append hm.1 hspace ds
    exact Bool.eq_iff_iff.2 ((hiff (cs ++ rest)).trans (hiff (cs ++ rest')).symm)
  · cases m.gap with
    | nil => exact Lexical.stopsAt_cons hx c _ _
    | cons d gap => exact Lexical.stopsAt_cons hx d _ _

/-- Lexemes stay laid out in front of another text that the last one does not run into. -/
theorem laidOut_congr {ls : List Lexeme} {rest rest' : List Char} (h : LaidOut ls rest)
    (hlast : ∀ l ∈ ls.getLast?, l.kind.stopsAt l.text rest' = true) : LaidOut ls rest' := by
  induction ls with
  | nil => trivial
  | cons l ls ih =>
    obtain ⟨hproper, hstops, hmore⟩ := h
    cases ls with
    | nil => exact ⟨hproper, hlast l rfl, trivial⟩
    | cons m ls =>
      refine ⟨hproper, ?_, ih hmore fun k hk => hlast k (by simpa using hk)⟩
      simp only [writtenAll_cons, List.append_assoc] at hstops ⊢
      rwa [stopsAt_next hmore.1 _ (writtenAll ls ++ rest)]

/-- Whether there is blank text in front of a lexeme, and in front of a parenthesis only
whitespace. -/
def Spaced (l : Lexeme) : Prop :=
  l.gap ≠ [] ∧ (l.kind = .mark '(' → ∀ c ∈ l.gap, isSpace c = true)

/-- Lexemes with blank text between them are laid out, if function names stand in front of
parentheses. -/
theorem laidOut_of_spaced {ls : List Lexeme} {rest : List Char} (hproper : ∀ l ∈ ls, l.Proper)
    (hspaced : ∀ l ∈ ls.tail, l.Spaced) (hcalls : Calls ls) (hrest : isTail rest = true) :
    LaidOut ls rest := by
  induction ls with
  | nil => trivial
  | cons l ls ih =>
    have hl := hproper l List.mem_cons_self
    have hmore := fun hspaced' hcalls' => ih (fun k hk => hproper k (List.mem_cons_of_mem l hk))
      hspaced' hcalls'
    cases ls with
    | nil =>
      refine ⟨hl, ?_, trivial⟩
      cases rest with
      | nil => exact Lexical.stopsAt_nil hcalls
      | cons c cs => exact Lexical.stopsAt_blank hcalls (head_of_isTail hrest) cs
    | cons m ls =>
      have hm := hproper m (by simp)
      obtain ⟨hgap, hparen⟩ := hspaced m (by simp)
      refine ⟨hl, ?_, hmore (fun k hk => hspaced k (List.mem_of_mem_tail hk)) hcalls.2⟩
      simp only [writtenAll_cons, List.append_assoc]
      by_cases hx : l.kind = .token .functionName
      · have hkind := hcalls.1 hx
        rw [hx, (hm.mark hkind).2]
        exact (opensCall_append hm.1 (by decide) _).2 ⟨hparen hkind, rfl⟩
      · obtain ⟨c, gap, hc⟩ := List.exists_cons_of_ne_nil hgap
        rw [hc]
        exact Lexical.stopsAt_blank hx (head_of_isGap (hc ▸ hm.1)) _

end Lexeme

/-! ### Words that need no gap -/

namespace Word

/-- Whether a word runs into nothing, whatever stands behind it. -/
def IsClosed (w : Word) : Prop := ∀ rest, w.kind.stopsAt w.text rest = true

/-- Whether a word does not run into another one, with or without a gap between them. -/
def Meets (w v : Word) : Prop :=
  ∀ gap rest, isGap gap = true → w.kind.stopsAt w.text (gap ++ (v.text ++ rest)) = true

/-- A word that does not run into the one behind it does not run into a gap either, unless it is a
function name. -/
lemma meets_of_stops {w v : Word} (hw : w.kind ≠ .token .functionName)
    (h : ∀ rest, w.kind.stopsAt w.text (v.text ++ rest) = true) : w.Meets v := by
  intro gap rest hgap
  cases gap with
  | nil => exact h rest
  | cons c gap => exact Lexical.stopsAt_blank hw (head_of_isGap hgap) _

/-- Whether words may stand in front of any text, with or without gaps between them. -/
inductive Flows : List Word → Prop where
  | nil : Flows []
  | closed {w : Word} {ws : List Word} : w.IsClosed → Flows ws → Flows (w :: ws)
  | meets {w v : Word} {ws : List Word} : w.Meets v → Flows (v :: ws) → Flows (w :: v :: ws)

/-- Words that may stand in front of any text may stand in front of further words. -/
lemma Flows.append {ws vs : List Word} (h : Flows ws) (h' : Flows vs) : Flows (ws ++ vs) := by
  induction h with
  | nil => exact h'
  | closed hw _ ih => exact .closed hw ih
  | meets hw _ ih => exact .meets hw ih

end Word

/-- Words that flow are laid out, whatever gaps are between them. -/
theorem Lexeme.laidOut_of_flows {ls : List Lexeme} (hproper : ∀ l ∈ ls, l.Proper)
    (h : Word.Flows (ls.map Lexeme.toWord)) (rest : List Char) : LaidOut ls rest := by
  induction ls with
  | nil => trivial
  | cons l ls ih =>
    rw [List.forall_mem_cons] at hproper
    obtain ⟨hl, hls⟩ := hproper
    cases ls with
    | nil =>
      cases h with
      | closed hclosed _ => exact ⟨hl, hclosed _, trivial⟩
    | cons m ls =>
      cases h with
      | closed hclosed hmore => exact ⟨hl, hclosed _, ih hls hmore⟩
      | meets hmeets hmore =>
        refine ⟨hl, ?_, ih hls hmore⟩
        rw [writtenAll_cons, List.append_assoc, List.append_assoc]
        exact hmeets _ _ (hls m List.mem_cons_self).1

/-! ### The text behind an expression -/

namespace Written

variable {clear : List Written → List Word → Prop} {e : Written} {rest tail : List Char}

/-- No expression ends with the name of a function. -/
lemma last_ne_function (he : Grammatical clear e) :
    ∀ l ∈ e.lexemes.getLast?, l.kind ≠ .token .functionName := by
  intro l hl
  obtain ⟨ls, hls⟩ := List.getLast?_eq_some_iff.1 hl
  have hcalls := (bracketed_of_grammatical he).calls
  rw [hls] at hcalls
  exact hcalls.last_ne_function

/-- An expression stays laid out in front of other text that no lexeme but a function name runs
into. -/
lemma laid_of_stops (he : Grammatical clear e) (h : Laid [e] rest) {rest' : List Char}
    (hstops : ∀ (x : Lexical) (w : List Char), x ≠ .token .functionName →
      x.stopsAt w rest' = true) :
    Laid [e] rest' :=
  Lexeme.laidOut_congr h fun l hl => hstops _ _
    (last_ne_function he l (by simpa [lexemesAll] using hl))

/-- An expression stays laid out at the end of a query, whatever blank text is behind it. -/
lemma laid_tail (he : Grammatical clear e) (h : Laid [e] rest) (htail : isTail tail = true) :
    Laid [e] tail := by
  refine laid_of_stops he h fun x w hx => ?_
  cases tail with
  | nil => exact Lexical.stopsAt_nil hx
  | cons c cs => exact Lexical.stopsAt_blank hx (head_of_isTail htail) cs

end Written

end PromqlGuide
