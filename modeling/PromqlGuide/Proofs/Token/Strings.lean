import PromqlGuide.Proofs.Token.Seam
import PromqlGuide.Text.Slice

/-!
# Quoted texts

What may stand between the quotes of a string.  Between double or single quotes a backslash takes
along the character behind it, and no line may end; between backticks everything but a backtick may
stand.

Main statement: a text between quotes is a string exactly if it may stand there
(`Quoted.tokenLength_eq_iff`).
-/
namespace PromqlGuide

namespace Quoted

variable {quote : Char} {cs : List Char}

/-- Whether a text has only quotes that stand behind a backslash, and goes on in the same line. -/
inductive IsEscaped (quote : Char) : List Char → Prop where
  | nil : IsEscaped quote []
  | plain {c : Char} {cs : List Char} : c ≠ quote → c ≠ '\\' → c ≠ '\n' → IsEscaped quote cs →
      IsEscaped quote (c :: cs)
  | escape {c : Char} {cs : List Char} : c ≠ '\n' → IsEscaped quote cs →
      IsEscaped quote ('\\' :: c :: cs)

/-- Whether a text may stand between two quotes. -/
inductive IsBody : Char → List Char → Prop where
  | double {cs : List Char} : IsEscaped '"' cs → IsBody '"' cs
  | single {cs : List Char} : IsEscaped '\'' cs → IsBody '\'' cs
  | raw {cs : List Char} : '\x60' ∉ cs → IsBody '\x60' cs

/-- What stands between two quotes has quotes of three kinds. -/
lemma IsBody.mem_quotes (h : IsBody quote cs) : quote ∈ ['"', '\'', '\x60'] := by
  cases h <;> decide

/-- A text without an open quote in it is read up to the quote behind it. -/
lemma bodyLength_of_isEscaped (hquote : quote ≠ '\\') (h : IsEscaped quote cs) :
    bodyLength quote false (cs ++ [quote]) = some (cs.length + 1) := by
  induction h with
  | nil => simp [bodyLength]
  | plain hc hbackslash hend _ ih =>
    simp [bodyLength, hc, hend, beq_eq_false_iff_ne.2 hbackslash, ih]
  | escape hend _ ih => simp [bodyLength, hquote.symm, hend, ih]

/-- What is in front of the quote that closes a string is escaped, from the start or from the second
character on. -/
lemma isEscaped_of_bodyLength {escaped : Bool}
    (h : bodyLength quote escaped (cs ++ [quote]) = some (cs.length + 1)) :
    if escaped then ∃ c ds, cs = c :: ds ∧ c ≠ '\n' ∧
      IsEscaped quote ds else IsEscaped quote cs := by
  induction cs generalizing escaped with
  | nil =>
    cases escaped with
    | true => simp [bodyLength] at h
    | false => exact .nil
  | cons c cs ih =>
    rw [List.cons_append, List.length_cons] at h
    cases escaped with
    | true =>
      simp only [bodyLength] at h
      split_ifs at h with hend
      exact ⟨c, cs, rfl, hend, by simpa using @ih false (by simpa using h)⟩
    | false =>
      simp only [bodyLength] at h
      split_ifs at h with hquote hend
      · simp at h
      · have hmore := @ih (c == '\\') (by simpa using h)
        by_cases hbackslash : c = '\\'
        · subst hbackslash
          obtain ⟨d, ds, rfl, hd, hds⟩ := hmore
          exact .escape hd hds
        · exact .plain hquote hbackslash hend (by simpa [hbackslash] using hmore)

/-- A raw string is read up to the backtick behind it exactly if there is none in it. -/
lemma rawLength_eq_iff : rawLength (cs ++ ['\x60']) = some (cs.length + 1) ↔ '\x60' ∉ cs := by
  induction cs with
  | nil => simp [rawLength]
  | cons c cs ih =>
    rw [List.cons_append, rawLength, List.length_cons, List.mem_cons, not_or]
    split_ifs with hc
    · exact iff_of_false (by simp) fun hnone => hnone.1 hc.symm
    · rw [← ih]
      simp [Ne.symm hc]

/-- A text between two quotes is a string exactly if it may stand there. -/
theorem tokenLength_eq_iff :
    tokenLength? (quote :: (cs ++ [quote])) = some (cs.length + 2) ↔ IsBody quote cs := by
  constructor
  · intro h
    simp only [tokenLength?] at h
    split_ifs at h with hquote hraw
    · have hbody : bodyLength quote false (cs ++ [quote]) = some (cs.length + 1) := by simpa using h
      have hescaped : IsEscaped quote cs := isEscaped_of_bodyLength hbody
      rcases hquote with rfl | rfl
      · exact .double hescaped
      · exact .single hescaped
    · subst hraw
      exact .raw (rawLength_eq_iff.1 (by simpa using h))
  · intro h
    cases h with
    | double h => simp [tokenLength?, bodyLength_of_isEscaped (by decide) h]
    | single h => simp [tokenLength?, bodyLength_of_isEscaped (by decide) h]
    | raw h => simp [tokenLength?, rawLength_eq_iff.2 h]

end Quoted

/-- A text between quotes. -/
structure QuotedText where
  quote : Char
  body : List Char
  proper : Quoted.IsBody quote body

namespace QuotedText

variable (q : QuotedText)

/-- How a quoted text is written. -/
def text : List Char := q.quote :: (q.body ++ [q.quote])

/-- Without its quotes a quoted text is its body. -/
@[simp] lemma inner_text : Text.inner q.text = q.body := by simp [Text.inner, text]

/-- A quoted text is a string token. -/
lemma spells : Terminal.string.spells q.text = true := by
  have hlength := Quoted.tokenLength_eq_iff.2 q.proper
  exact beq_iff_eq.2 (hlength.trans (by simp [text]))

end QuotedText

end PromqlGuide
