import PromqlGuide.Text.Printable

/-!
Quoted text in log messages: between single quotes, or between double quotes if the text holds a
single quote and no double quote. The quote around it, backslashes, and characters that are not
printable are escaped.
-/
namespace PromqlGuide.Text

/-- The last `width` hexadecimal digits of a number, in small letters. -/
def hexDigits (width n : Nat) : List Char :=
  match width with
  | 0 => []
  | w + 1 => hexDigits w (n / 16) ++ [Nat.digitChar (n % 16)]

/-- An escape that names the code point. -/
def codePointEscape (n : Nat) : List Char :=
  if n < 0x100 then '\\' :: 'x' :: hexDigits 2 n
  else if n < 0x10000 then '\\' :: 'u' :: hexDigits 4 n
  else '\\' :: 'U' :: hexDigits 8 n

/-- A character inside quotes. -/
def quotedChar (quote c : Char) : List Char :=
  if c = quote ∨ c = '\\' then ['\\', c]
  else if c = '\n' then ['\\', 'n']
  else if c = '\r' then ['\\', 'r']
  else if c = '\t' then ['\\', 't']
  else if isPrintable c then [c]
  else codePointEscape c.toNat

/-- The quote that goes around a text. -/
def quoteFor (cs : List Char) : Char :=
  if cs.contains '\'' && !cs.contains '"' then '"' else '\''

/-- A text between quotes. -/
def quotedChars (cs : List Char) : List Char :=
  let quote := quoteFor cs
  quote :: cs.flatMap (quotedChar quote) ++ [quote]

/-- A text between quotes. -/
def quoted (s : String) : String := String.ofList (quotedChars s.toList)

/-- Printable text without quotes and backslashes is put between single quotes as it is. -/
theorem quotedChars_of_plain {cs : List Char}
    (h : ∀ c ∈ cs, isPrintable c = true ∧ c ≠ '\'' ∧ c ≠ '\\' ∧ c ≠ '\n' ∧ c ≠ '\r' ∧ c ≠ '\t') :
    quotedChars cs = '\'' :: cs ++ ['\''] := by
  have hq : quoteFor cs = '\'' := by
    unfold quoteFor
    rw [if_neg]
    simp only [Bool.and_eq_true, List.contains_iff_mem, not_and]
    intro hm
    exact absurd rfl (h _ hm).2.1
  have hf : cs.flatMap (quotedChar '\'') = cs := by
    clear hq
    induction cs with
    | nil => rfl
    | cons c rest ih =>
      have hc := h c (by simp)
      have : quotedChar '\'' c = [c] := by simp [quotedChar, hc]
      simp [this, ih fun d hd => h d (List.mem_cons_of_mem _ hd)]
  simp [quotedChars, hq, hf]

end PromqlGuide.Text
