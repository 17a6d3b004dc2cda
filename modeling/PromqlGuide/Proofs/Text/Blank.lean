import PromqlGuide.Proofs.Text.Gap

/-!
# Whitespace and comments

Blank text the way it is written: whitespace characters and comments, one after the other
(`Text.IsBlank`).  The blank text that the reader skips is the same.  A gap is blank text in which
every comment is ended (`Text.isGap_iff_isBlank`), and at the end of a query the last comment may do
without the end of its line (`Text.isTail_iff_isBlank`).
-/
namespace PromqlGuide.Text

/-- Whitespace characters and comments.  Every comment has the end of its line in the text; only at
the end of a query there may be a last one without it. -/
inductive IsBlank (atEnd : Bool) : List Char → Prop where
  | nil : IsBlank atEnd []
  | space {c : Char} {cs : List Char} : isSpace c = true → IsBlank atEnd cs →
    IsBlank atEnd (c :: cs)
  | comment {body cs : List Char} : '\n' ∉ body → IsBlank atEnd cs →
      IsBlank atEnd ('#' :: (body ++ '\n' :: cs))
  | lastComment {body : List Char} : atEnd = true → '\n' ∉ body → IsBlank atEnd ('#' :: body)

variable {atEnd inComment : Bool} {a b cs : List Char}

/-! ### Blank text at the end of a query -/

/-- A blank run that closes reaches to the end of the text. -/
lemma blankRun_of_closesBlank (h : closesBlank inComment cs = true) :
    blankRun inComment cs = cs.length := by
  have hrun : blankRun inComment (cs ++ []) = cs.length := blankRun_append h rfl
  rwa [List.append_nil] at hrun

/-- What may stand between two lexemes may stand behind the last one too. -/
lemma isTail_of_isGap (h : isGap cs = true) : isTail cs = true :=
  decide_eq_true (blankRun_of_closesBlank h)

/-- Text that is blank from its start on is also blank inside a comment. -/
lemma blankRun_inside (h : blankRun false cs = cs.length) : blankRun true cs = cs.length := by
  induction cs with
  | nil => rfl
  | cons c cs ih =>
    have hrest : blankRun (c != '\n') cs = cs.length := by
      simp only [blankRun] at h
      split_ifs at h with hspace hmark
      · cases hnew : c != '\n' with
        | false => exact Nat.succ.inj h
        | true => exact ih (Nat.succ.inj h)
      · subst hmark
        exact Nat.succ.inj h
    exact congrArg Nat.succ hrest

/-- Two blank texts, the first with no comment open at its end, are one blank text. -/
lemma blankRun_append_of_eq (ha : blankRun inComment a = a.length)
    (hb : blankRun false b = b.length) : blankRun inComment (a ++ b) = (a ++ b).length := by
  induction a generalizing inComment with
  | nil =>
    cases inComment with
    | true => exact blankRun_inside hb
    | false => exact hb
  | cons c a ih =>
    cases inComment with
    | true => exact congrArg Nat.succ (ih (Nat.succ.inj ha))
    | false =>
      simp only [List.cons_append, blankRun, List.length_cons] at ha ⊢
      split_ifs at ha ⊢ with hspace hmark
      · rw [ih (Nat.succ.inj ha)]
      · rw [ih (Nat.succ.inj ha)]

/-- Blank text behind the blank text at the end of a query is blank text at the end. -/
lemma isTail_append (ha : isTail a = true) (hb : isTail b = true) : isTail (a ++ b) = true :=
  decide_eq_true (blankRun_append_of_eq (of_decide_eq_true ha) (of_decide_eq_true hb))

/-- Blank text goes on behind a blank text that no comment is open at the end of. -/
lemma blankRun_append_of_closesBlank (ha : closesBlank inComment a = true) (b : List Char) :
    blankRun inComment (a ++ b) = a.length + blankLength b := by
  induction a generalizing inComment with
  | nil =>
    cases inComment with
    | true => cases ha
    | false => exact (Nat.zero_add _).symm
  | cons c a ih =>
    cases inComment with
    | true =>
      simp only [List.cons_append, blankRun, List.length_cons, ih ha]
      omega
    | false =>
      simp only [closesBlank] at ha
      simp only [List.cons_append, blankRun, List.length_cons]
      split_ifs at ha ⊢ with hspace hmark
      · rw [ih ha]
        omega
      · rw [ih ha]
        omega

/-- Behind a gap, blank text goes on as it would without the gap. -/
lemma blankLength_append_of_isGap (ha : isGap a = true) (b : List Char) :
    blankLength (a ++ b) = a.length + blankLength b := blankRun_append_of_closesBlank ha b

/-! ### What is skipped is blank -/

/-- Whether a text goes on as blank text; the first argument says that a comment is open at its
start. -/
def GoesOnBlank (atEnd : Bool) : Bool → List Char → Prop
  | false, cs => IsBlank atEnd cs
  | true, cs => ∀ body, '\n' ∉ body → IsBlank atEnd ('#' :: (body ++ cs))

/-- A character of a comment, or the end of its line. -/
lemma goesOnBlank_cons {c : Char} (h : GoesOnBlank atEnd (c != '\n') cs) :
    GoesOnBlank atEnd true (c :: cs) := by
  intro body hbody
  by_cases hc : c = '\n'
  · subst hc
    exact .comment hbody h
  · rw [bne_iff_ne.2 hc] at h
    have hlonger : IsBlank atEnd ('#' :: (body ++ [c] ++ cs)) :=
      h (body ++ [c]) (by simpa [hbody] using fun heq => hc heq.symm)
    simpa using hlonger

/-- A blank run to the end of a text goes on as blank text, if it closes or the query ends there. -/
lemma goesOnBlank_of_blankRun (h : blankRun inComment cs = cs.length)
    (hcloses : atEnd = true ∨ closesBlank inComment cs = true) :
    GoesOnBlank atEnd inComment cs := by
  induction cs generalizing inComment with
  | nil =>
    cases inComment with
    | true =>
      intro body hbody
      rw [List.append_nil]
      exact .lastComment (hcloses.resolve_right Bool.false_ne_true) hbody
    | false => exact .nil
  | cons c cs ih =>
    cases inComment with
    | true => exact goesOnBlank_cons (ih (Nat.succ.inj h) hcloses)
    | false =>
      simp only [blankRun] at h
      simp only [closesBlank] at hcloses
      split_ifs at h hcloses with hspace hmark
      · exact .space hspace (ih (Nat.succ.inj h) hcloses)
      · subst hmark
        exact ih (Nat.succ.inj h) hcloses [] List.not_mem_nil

/-! ### Blank text is skipped -/

/-- A comment reaches to the end of a text in which no line ends. -/
lemma blankRun_lastComment {body : List Char} (hbody : '\n' ∉ body) :
    blankRun true body = body.length := by
  induction body with
  | nil => rfl
  | cons c body ih =>
    have hc : (c != '\n') = true := bne_iff_ne.2 fun hnew => hbody (hnew ▸ List.mem_cons_self)
    have hrest := ih fun hmem => hbody (List.mem_cons_of_mem c hmem)
    simpa only [blankRun, hc, List.length_cons, Nat.add_right_cancel_iff] using hrest

/-- A whitespace character is a gap. -/
lemma isGap_singleton {c : Char} (h : isSpace c = true) : isGap [c] = true :=
  isGap_of_isSpace fun _ hd => List.eq_of_mem_singleton hd ▸ h

/-- What may stand between two lexemes are whitespace and ended comments. -/
theorem isGap_iff_isBlank : isGap cs = true ↔ IsBlank false cs := by
  constructor
  · intro h
    exact goesOnBlank_of_blankRun (blankRun_of_closesBlank h) (Or.inr h)
  · intro h
    induction h with
    | nil => rfl
    | @space c cs hspace _ ih => exact isGap_append (isGap_singleton hspace) ih
    | @comment body cs hbody _ ih => simpa using isGap_append (isGap_comment hbody) ih
    | lastComment hend => cases hend

/-- What may stand behind the last lexeme are whitespace and comments. -/
theorem isTail_iff_isBlank : isTail cs = true ↔ IsBlank true cs := by
  constructor
  · intro h
    have hrun : blankRun false cs = cs.length := of_decide_eq_true h
    exact goesOnBlank_of_blankRun hrun (Or.inl rfl)
  · intro h
    induction h with
    | nil => rfl
    | @space c cs hspace _ ih => exact isTail_append (isTail_of_isGap (isGap_singleton hspace)) ih
    | @comment body cs hbody _ ih =>
      simpa using isTail_append (isTail_of_isGap (isGap_comment hbody)) ih
    | lastComment _ hbody => exact decide_eq_true (congrArg Nat.succ (blankRun_lastComment hbody))

end PromqlGuide.Text
