import PromqlGuide.Text.LowercaseTable
import PromqlGuide.Text.Printable

/-!
Small letters of every script. Most capitals have one small letter; the dotted capital I becomes an
i and a combining dot, and a capital sigma becomes a final sigma at the end of a word.

Main statement: ASCII text is changed letter by letter (`lowercase_of_ascii`).
-/
namespace PromqlGuide.Text

/-- The small letter of a capital; other characters stay as they are. -/
def smallLetter (c : Char) : Char :=
  let n := c.toNat
  if n < 128 then c.toLower
  else
    match capitalRuns.find? fun r =>
        decide (r.first ≤ n) && decide (n < r.first + r.count * r.step) &&
          decide ((n - r.first) % r.step = 0) with
    | none => c
    | some r => Char.ofNat ((n : Int) + r.shift).toNat

/-- Whether the character is passed over when the letters around a sigma are looked for. -/
def isCaseIgnorable (c : Char) : Bool := withinBounds caseIgnorableBounds c.toNat

/-- Whether the first character that is not passed over is a letter with case. -/
def meetsCased (cs : List Char) : Bool :=
  match cs.dropWhile isCaseIgnorable with
  | [] => false
  | c :: _ => withinBounds casedBounds c.toNat

/-- The text in small letters; `before` holds the characters already passed, last one first. -/
def lowercaseFrom (before : List Char) : List Char → List Char
  | [] => []
  | c :: rest =>
    let small :=
      if c = '\u03a3' then
        -- final if a letter with case is in front of it and none behind
        if meetsCased before && !meetsCased rest then ['\u03c2'] else ['\u03c3']
      else if c = '\u0130' then ['i', '\u0307']
      else [smallLetter c]
    small ++ lowercaseFrom (c :: before) rest

/-- The text in small letters. -/
def lowercase (s : String) : String := String.ofList (lowercaseFrom [] s.toList)

/-- In ASCII text no letter depends on what stands around it. -/
theorem lowercaseFrom_of_ascii {cs : List Char} (h : ∀ c ∈ cs, c.toNat < 128)
    (before : List Char) : lowercaseFrom before cs = cs.map Char.toLower := by
  induction cs generalizing before with
  | nil => rfl
  | cons c rest ih =>
    have hc := h c (by simp)
    have h1 : c ≠ '\u03a3' := by rintro rfl; exact absurd hc (by decide)
    have h2 : c ≠ '\u0130' := by rintro rfl; exact absurd hc (by decide)
    simp [lowercaseFrom, h1, h2, smallLetter, hc,
      ih (fun d hd => h d (List.mem_cons_of_mem _ hd))]

/-- In ASCII text every capital becomes its small letter and nothing else changes. -/
theorem lowercase_of_ascii {s : String} (h : ∀ c ∈ s.toList, c.toNat < 128) :
    lowercase s = String.ofList (s.toList.map Char.toLower) := by
  simp [lowercase, lowercaseFrom_of_ascii h]

end PromqlGuide.Text
