import Mathlib.Tactic.Common
import PromqlGuide.Json.Reader
import PromqlGuide.Json.Writer

/-!
# Strings of JSON texts

A string that was written is read as its characters. The writer escapes quotes, backslashes and
control characters and leaves all others as they are; the reader takes every form back to the
character that it stands for.

Main statement: the text of a string, with anything behind it, is read as the characters of the
string (`Json.readString_escaped`).
-/
namespace PromqlGuide.Json

/-! ### Characters -/

/-- The four hexadecimal digits of a control character name it. -/
lemma hexUnit_hexDigits :
    ∀ n < 0x20, ∃ a b c d, Text.hexDigits 4 n = [a, b, c, d] ∧ hexUnit? a b c d = some n := by
  intro n hn
  refine ⟨_, _, _, _, rfl, ?_⟩
  revert n
  decide

/-- A control character is a code point of its own and no half of a pair. -/
lemma unitPoint_of_control {c : Char} (hc : c.toNat < 0x20) : unitPoint c.toNat = .char c := by
  have hhigh : isHighHalf c.toNat = false := decide_eq_false (by omega)
  have hlow : isLowHalf c.toNat = false := decide_eq_false (by omega)
  simp [unitPoint, hhigh, hlow]

/-- A control character is read from its escape. -/
lemma readString_control {c : Char} (hc : c.toNat < 0x20) (rest : List Char) :
    readString none ('\\' :: 'u' :: Text.hexDigits 4 c.toNat ++ rest) =
      consPoint (.char c) (readString none rest) := by
  obtain ⟨a, b, d, e, hdigits, hunit⟩ := hexUnit_hexDigits c.toNat hc
  have hhigh : isHighHalf c.toNat = false := decide_eq_false (by omega)
  simp [hdigits, readString, hunit, hhigh, unitPoint_of_control hc]

/-- A backslash and a letter are read as the character that the letter stands for. -/
lemma readString_simple {e c : Char} (he : simpleEscape? e = some c) (half : Option Nat)
    (rest : List Char) :
    readString half ('\\' :: e :: rest) =
      consHalf half (consPoint (.char c) (readString none rest)) := by
  rw [readString]
  · simp [he]
  · rintro a b d f rest' ⟨rfl, -⟩
    cases he

/-- A character that needs no escape is read as itself. -/
lemma readString_plain {c : Char} (hquote : c ≠ '"') (hslash : c ≠ '\\') (hc : 0x20 ≤ c.toNat)
    (half : Option Nat) (rest : List Char) :
    readString half (c :: rest) = consHalf half (consPoint (.char c) (readString none rest)) := by
  rw [readString]
  · simp [hslash, Nat.not_lt.2 hc]
  · exact hquote
  · intro a b d e rest' h
    exact absurd h hslash
  · intro e rest' h
    exact absurd h hslash

/-- The reader takes the written form of a character back to the character. -/
lemma readString_escapedChar (c : Char) (rest : List Char) :
    readString none (escapedChar c ++ rest) = consPoint (.char c) (readString none rest) := by
  unfold escapedChar
  by_cases hself : c = '"' ∨ c = '\\'
  · rw [if_pos hself]
    rcases hself with rfl | rfl <;> exact readString_simple rfl none rest
  rw [if_neg hself]
  by_cases hline : c = '\n'
  · subst hline
    exact readString_simple rfl none rest
  by_cases hreturn : c = '\r'
  · subst hreturn
    exact readString_simple rfl none rest
  by_cases htab : c = '\t'
  · subst htab
    exact readString_simple rfl none rest
  by_cases hback : c = '\x08'
  · subst hback
    exact readString_simple rfl none rest
  by_cases hfeed : c = '\x0c'
  · subst hfeed
    exact readString_simple rfl none rest
  rw [if_neg hline, if_neg hreturn, if_neg htab, if_neg hback, if_neg hfeed]
  by_cases hcontrol : c.toNat < 0x20
  · rw [if_pos hcontrol]
    exact readString_control hcontrol rest
  · rw [if_neg hcontrol]
    rw [not_or] at hself
    exact readString_plain hself.1 hself.2 (Nat.le_of_not_lt hcontrol) none rest

/-! ### Whole strings -/

/-- The written characters up to the closing quote are read as these characters. -/
lemma readString_escaped (cs rest : List Char) :
    readString none (cs.flatMap escapedChar ++ '"' :: rest) = .ok (cs.map .char, rest) := by
  induction cs with
  | nil => rfl
  | cons c cs ih =>
    rw [List.flatMap_cons, List.append_assoc, readString_escapedChar, ih]
    rfl

/-- A key is read as itself. -/
lemma keyOf_chars (s : String) : keyOf (s.toList.map .char) = s := by
  have h : (s.toList.map CodePoint.char).map CodePoint.repaired = s.toList := by
    rw [List.map_map]
    exact List.map_id _
  rw [keyOf, h, String.ofList_toList]

/-- A string value is read as itself. -/
lemma ofPoints_toList (s : String) : LooseText.ofPoints (s.toList.map .char) = .plain s := by
  rw [LooseText.ofPoints_chars, String.ofList_toList]

end PromqlGuide.Json
