import PromqlGuide.Text.Blank
import PromqlGuide.Text.Quoted

/-!
Text in which halves of surrogate pairs may stand alone. A character beyond U+FFFF can be written as
two escapes, each of which names a half of a pair. A half without its partner is no character, and
yet it is kept and shown.

Main statements: code points that are all characters make plain text (`LooseText.ofPoints_chars`),
and they are quoted as that text is (`LooseText.quotedPoints_chars`).
-/
namespace PromqlGuide

/-- A code point: a character, or a half of a surrogate pair that stands alone. -/
inductive CodePoint where
  | char (c : Char)
  | half (number : Nat)
  deriving Repr, DecidableEq

namespace CodePoint

/-- The character that a code point is, if it is one. -/
def char? : CodePoint → Option Char
  | char c => some c
  | half _ => none

/-- The character that stands for a code point where only characters can; a half is replaced. -/
def repaired : CodePoint → Char
  | char c => c
  | half _ => '\ufffd'

/-- A code point inside quotes; a half is not printable. -/
def quoted (quote : Char) : CodePoint → List Char
  | char c => Text.quotedChar quote c
  | half n => Text.codePointEscape n

end CodePoint

/-- Text that is plain, or in which some half of a surrogate pair stands alone. -/
inductive LooseText where
  | plain (s : String)
  | broken (points : List CodePoint)
  deriving Repr, DecidableEq, Inhabited

namespace LooseText

/-- The text of code points. -/
def ofPoints (points : List CodePoint) : LooseText :=
  match points.mapM CodePoint.char? with
  | some cs => plain (String.ofList cs)
  | none => broken points

/-- A text of whole characters is plain. -/
theorem mapM_char? (cs : List Char) : (cs.map CodePoint.char).mapM CodePoint.char? = some cs := by
  induction cs with
  | nil => rfl
  | cons c rest ih => simp [CodePoint.char?, ih]

/-- Code points that are all characters make plain text. -/
theorem ofPoints_chars (cs : List Char) :
    ofPoints (cs.map CodePoint.char) = plain (String.ofList cs) := by
  unfold ofPoints
  rw [mapM_char?]

/-- The text as a string, if no half stands alone in it. -/
def plain? : LooseText → Option String
  | plain s => some s
  | broken _ => none

/-- The text as a string in which every lone half is replaced. -/
def repaired : LooseText → String
  | plain s => s
  | broken points => String.ofList (points.map CodePoint.repaired)

/-- Whether the text is whitespace only; a half is none. -/
def isBlank : LooseText → Bool
  | plain s => (Text.trim s).isEmpty
  | broken _ => false

/-- Code points between quotes. -/
def quotedPoints (points : List CodePoint) : List Char :=
  let quote := Text.quoteFor (points.filterMap CodePoint.char?)
  quote :: points.flatMap (CodePoint.quoted quote) ++ [quote]

/-- A text of whole characters is quoted like plain text. -/
theorem quotedPoints_chars (cs : List Char) :
    quotedPoints (cs.map CodePoint.char) = Text.quotedChars cs := by
  have hf : (cs.map CodePoint.char).filterMap CodePoint.char? = cs := by
    induction cs with
    | nil => rfl
    | cons c rest ih => simp [CodePoint.char?, ih]
  simp [quotedPoints, Text.quotedChars, hf, List.flatMap_map, CodePoint.quoted]

/-- The text between quotes. -/
def quoted : LooseText → String
  | plain s => Text.quoted s
  | broken points => String.ofList (quotedPoints points)

end LooseText

end PromqlGuide
