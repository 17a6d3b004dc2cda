import Mathlib.Tactic.Common
import PromqlGuide.Token.Length
import PromqlGuide.Proofs.Text.SmallForm
import PromqlGuide.Proofs.Text.Classes

/-!
# Numbers and durations at a seam

Behind a number token no character of a word, digit or point follows.  In front of such a text the
readers of `Number` are *settled*: what they find before the seam does not depend on what is behind
it.  There is one exception.  A sign continues a number behind an exponent mark, so the exponent is
settled only where no exponent mark stands right before the seam; but a number token with such a
mark at its end is hexadecimal, because a decimal number ends in a digit or a point
(`lasts_decimal`).

Main statements: a number token reaches to the seam exactly if it is one by itself
(`Number.tokenLength_append_iff`), and so does a duration (`Duration.tokenLength_append`).
-/
namespace PromqlGuide

open Text

namespace Number

/-- The characters that cannot stand right behind a number. -/
def isContinued (c : Char) : Bool := isWordPart c || isDigit c || c == '.'

/-- Whether a reader finds the same in front of `rest` as at the end of a text, for all texts with a
property. -/
def Settled (P : List Char → Prop) (rest : List Char) (r : Reader) : Prop :=
  ∀ cs, P cs → r (cs ++ rest) = r cs

/-! ### Parts of readers -/

section Parts

variable {P : List Char → Prop} {rest : List Char} {p : Char → Bool} {next : Reader}

/-- A class without the characters that continue numbers has none at the seam. -/
lemma one_seam (hrest : endsBefore isContinued rest = true)
    (hp : ∀ c, p c = true → isContinued c = true) : one p next rest = none := by
  cases rest with
  | nil => rfl
  | cons c rest =>
    have hc : p c = false := by
      by_contra hpc
      simp [endsBefore, hp c (Bool.not_eq_false _ ▸ hpc)] at hrest
    simp [one, hc]

/-- In front of the seam a class of characters that may not follow a number has none to take. -/
lemma many_seam (hrest : endsBefore isContinued rest = true)
    (hp : ∀ c, p c = true → isContinued c = true) : many p next rest = next rest := by
  cases rest with
  | nil => rfl
  | cons c rest =>
    have hc : p c = false := by
      by_contra hpc
      simp [endsBefore, hp c (Bool.not_eq_false _ ▸ hpc)] at hrest
    simp [many, hc]

/-- The end of a word is the same at the seam and at the end of the text. -/
lemma settled_boundary (hrest : endsBefore isContinued rest = true) :
    Settled P rest boundary := by
  intro cs _
  have hpart : endsBefore isWordPart rest = true :=
    endsBefore_mono (fun c hc => by simp [isContinued, hc]) hrest
  rw [boundary, boundary, endsBefore_append hpart]

/-- A reader of one character is settled if the next one is. -/
lemma settled_one (hP : ∀ c cs, P (c :: cs) → P cs) (hrest : endsBefore isContinued rest = true)
    (hp : ∀ c, p c = true → isContinued c = true) (h : Settled P rest next) :
    Settled P rest (one p next) := by
  intro cs hcs
  cases cs with
  | nil => exact one_seam hrest hp
  | cons c cs => simp [one, h cs (hP c cs hcs)]

/-- A reader of any number of characters is settled if the next one is. -/
lemma settled_many (hP : ∀ c cs, P (c :: cs) → P cs) (hrest : endsBefore isContinued rest = true)
    (hp : ∀ c, p c = true → isContinued c = true) (h : Settled P rest next) :
    Settled P rest (many p next) := by
  intro cs hcs
  induction cs with
  | nil => rw [List.nil_append, many_seam hrest hp]; exact h [] hcs
  | cons c cs ih =>
    have hhere := h (c :: cs) hcs
    simp only [List.cons_append] at hhere
    simp [many, ih (hP c cs hcs), hhere]

/-- A reader of some characters is settled if the next one is. -/
lemma settled_many1 (hP : ∀ c cs, P (c :: cs) → P cs) (hrest : endsBefore isContinued rest = true)
    (hp : ∀ c, p c = true → isContinued c = true) (h : Settled P rest next) :
    Settled P rest (many1 p next) := settled_one hP hrest hp (settled_many hP hrest hp h)

/-- A choice is settled if both readers are. -/
lemma settled_either {first second : Reader} (h₁ : Settled P rest first)
    (h₂ : Settled P rest second) : Settled P rest (either first second) := by
  intro cs hcs
  simp [either, h₁ cs hcs, h₂ cs hcs]

/-- A letter in any case cannot stand right behind a number. -/
lemma isContinued_of_foldsTo {a c : Char} (ha : isSmall a = true) (h : foldsTo a c = true) :
    isContinued c = true := by simp [isContinued, isWordPart_of_foldsTo ha h]

/-- A digit cannot stand right behind a number. -/
lemma isContinued_of_isDigit {c : Char} (h : isDigit c = true) : isContinued c = true := by
  simp [isContinued, h]

/-- A reader of a word is settled if the next one is. -/
lemma settled_word (hP : ∀ c cs, P (c :: cs) → P cs) (hrest : endsBefore isContinued rest = true)
    {w : List Char} (hw : isSmallWord w = true) (h : Settled P rest next) :
    Settled P rest (word w next) := by
  induction w with
  | nil => exact h
  | cons a w ih =>
    simp only [isSmallWord, List.all_cons, Bool.and_eq_true] at hw
    exact settled_one hP hrest (fun _ => isContinued_of_foldsTo hw.1) (ih hw.2)

end Parts

/-! ### Numbers -/

/-- Whether no exponent mark stands at the end of a text. -/
def NoMark (cs : List Char) : Prop := ∀ c, cs.getLast? = some c → foldsTo 'e' c = false

/-- No exponent mark stands at the end of what follows a character either. -/
lemma noMark_of_cons {c : Char} {cs : List Char} (h : NoMark (c :: cs)) : NoMark cs := by
  intro d hd
  cases cs with
  | nil => cases hd
  | cons e cs => exact h d (by rw [List.getLast?_cons_cons]; exact hd)

/-- A hexadecimal digit cannot stand right behind a number. -/
lemma isContinued_of_isHexDigit {c : Char} (h : isHexDigit c = true) : isContinued c = true := by
  have hpart : isNamePart c = true := by
    simp only [isHexDigit, Bool.or_eq_true, Bool.and_eq_true, decide_eq_true_eq, Char.le_def,
      UInt32.le_iff_toNat_le] at h
    simp only [isNamePart, Char.isAlphanum, Bool.or_eq_true, isAlpha_iff]
    rcases h with (hdigit | hsmall) | hbig
    · exact Or.inl (Or.inr hdigit)
    · exact Or.inl (Or.inl (Or.inr ⟨hsmall.1, Nat.le_trans hsmall.2 (by decide)⟩))
    · exact Or.inl (Or.inl (Or.inl ⟨hbig.1, Nat.le_trans hbig.2 (by decide)⟩))
  simp [isContinued, isWordPart_of_isMetricPart (isMetricPart_of_isNamePart hpart)]

section Readers

variable {rest : List Char}

/-- A reader of digits is settled. -/
lemma settled_digits {P : List Char → Prop} (hP : ∀ c cs, P (c :: cs) → P cs)
    (hrest : endsBefore isContinued rest = true) : Settled P rest (many1 isDigit boundary) :=
  settled_many1 hP hrest (fun _ => isContinued_of_isDigit) (settled_boundary hrest)

/-- Hexadecimal numbers are settled. -/
lemma settled_hexadecimal (hrest : endsBefore isContinued rest = true) :
    Settled (fun _ => True) rest hexadecimal :=
  settled_word (fun _ _ _ => trivial) hrest (by decide)
    (settled_many1 (fun _ _ _ => trivial) hrest (fun _ => isContinued_of_isHexDigit)
      (settled_boundary hrest))

/-- What follows an exponent mark: a sign, or none, and digits. -/
def afterMark : Reader :=
  either (one (fun c => c == '+' || c == '-') (many1 isDigit boundary)) (many1 isDigit boundary)

/-- An exponent is a mark with what follows it, or nothing. -/
lemma exponent_eq : exponent = either (one (foldsTo 'e') afterMark) boundary := rfl

/-- Behind an exponent mark the seam matters only where it comes at once. -/
lemma afterMark_append (hrest : endsBefore isContinued rest = true) {cs : List Char}
    (hcs : cs ≠ []) : afterMark (cs ++ rest) = afterMark cs := by
  have hdigits := settled_digits (P := fun _ => True) (fun _ _ _ => trivial) hrest
  cases cs with
  | nil => exact absurd rfl hcs
  | cons d ds =>
    have h₁ := hdigits ds trivial
    have h₂ := hdigits (d :: ds) trivial
    simp only [List.cons_append] at h₂
    simp [afterMark, either, one, h₁, h₂]

/-- Exponents are settled where no mark comes last. -/
lemma settled_exponent (hrest : endsBefore isContinued rest = true) :
    Settled NoMark rest exponent := by
  intro cs hcs
  have hbound : boundary (cs ++ rest) = boundary cs := settled_boundary hrest cs hcs
  have hmark : one (foldsTo 'e') afterMark (cs ++ rest) = one (foldsTo 'e') afterMark cs := by
    cases cs with
    | nil => exact one_seam hrest fun _ => isContinued_of_foldsTo (by decide)
    | cons c cs =>
      simp only [List.cons_append, one]
      cases hfold : foldsTo 'e' c with
      | false => rfl
      | true =>
        have hne : cs ≠ [] := by
          rintro rfl
          simp [hcs c rfl] at hfold
        rw [afterMark_append hrest hne]
  simp only [exponent_eq, either, hmark, hbound]

/-- Decimal numbers are settled where no exponent mark comes last. -/
lemma settled_decimal (hrest : endsBefore isContinued rest = true) :
    Settled NoMark rest decimal := by
  have hP : ∀ c cs, NoMark (c :: cs) → NoMark cs := fun _ _ => noMark_of_cons
  have hpoint : ∀ c, (c == '.') = true → isContinued c = true := by
    intro c hc
    simp [isContinued, hc]
  have hdigit : ∀ c, isDigit c = true → isContinued c = true := fun _ => isContinued_of_isDigit
  have hexp := settled_exponent hrest
  exact settled_either
    (settled_many1 hP hrest hdigit
      (settled_either (settled_one hP hrest hpoint (settled_many hP hrest hdigit hexp)) hexp))
    (settled_one hP hrest hpoint (settled_many1 hP hrest hdigit hexp))

end Readers

/-! ### The last character of a number -/

/-- Whether the last character that a reader takes is in a class. -/
def Lasts (p : Char → Bool) (r : Reader) : Prop :=
  ∀ cs n, r cs = some (n + 1) → ∃ c, cs[n]? = some c ∧ p c = true

section Lasts

variable {p q : Char → Bool} {next : Reader}

/-- The end of a word takes no character. -/
lemma lasts_boundary : Lasts p boundary := by
  intro cs n h
  unfold boundary at h
  split_ifs at h
  cases h

/-- The last character is in the class if that of the next reader is and the one that is taken
too. -/
lemma lasts_one (hpq : ∀ c, q c = true → p c = true) (h : Lasts p next) : Lasts p (one q next) := by
  intro cs n hn
  cases cs with
  | nil => cases hn
  | cons c cs =>
    simp only [one] at hn
    split_ifs at hn with hq
    obtain ⟨m, hm, hmn⟩ := Option.map_eq_some_iff.1 hn
    obtain rfl : m = n := by omega
    cases m with
    | zero => exact ⟨c, rfl, hpq c hq⟩
    | succ m => simpa using h cs m hm

/-- Where the reader behind it never takes nothing, the class of a character does not matter. -/
lemma lasts_one_of_advancing (hnext : Advancing next) (h : Lasts p next) :
    Lasts p (one q next) := by
  intro cs n hn
  cases cs with
  | nil => cases hn
  | cons c cs =>
    simp only [one] at hn
    split_ifs at hn with hq
    obtain ⟨m, hm, hmn⟩ := Option.map_eq_some_iff.1 hn
    obtain rfl : m = n := by omega
    cases m with
    | zero => exact absurd (hnext cs 0 hm).1 (Nat.lt_irrefl 0)
    | succ m => simpa using h cs m hm

/-- The last character is in the class if that of the next reader is and those that are taken
too. -/
lemma lasts_many (hpq : ∀ c, q c = true → p c = true) (h : Lasts p next) :
    Lasts p (many q next) := by
  intro cs
  induction cs with
  | nil => exact fun n hn => h [] n hn
  | cons c cs ih =>
    intro n hn
    simp only [many] at hn
    split_ifs at hn with hq
    · rcases eq_some_of_orElse hn with hl | hr
      · obtain ⟨m, hm, hmn⟩ := Option.map_eq_some_iff.1 hl
        obtain rfl : m = n := by omega
        cases m with
        | zero => exact ⟨c, rfl, hpq c hq⟩
        | succ m => simpa using ih m hm
      · exact h _ n hr
    · exact h _ n hn

/-- The last character of a choice is in the class if that of both readers is. -/
lemma lasts_either {first second : Reader} (h₁ : Lasts p first) (h₂ : Lasts p second) :
    Lasts p (either first second) := by
  intro cs n hn
  rcases eq_some_of_orElse hn with hl | hr
  · exact h₁ cs n hl
  · exact h₂ cs n hr

end Lasts

/-- A decimal number ends in a digit or a point. -/
lemma lasts_decimal : Lasts (fun c => isDigit c || c == '.') decimal := by
  have hdigit : ∀ c, isDigit c = true → (isDigit c || c == '.') = true := fun c hc => by simp [hc]
  have hpoint : ∀ c, (c == '.') = true → (isDigit c || c == '.') = true := fun c hc => by simp [hc]
  have hdigits : Lasts (fun c => isDigit c || c == '.') (many1 isDigit boundary) :=
    lasts_one hdigit (lasts_many hdigit lasts_boundary)
  have hadv : Advancing (many1 isDigit boundary) := many1_advancing boundary_within
  have hafter : Lasts (fun c => isDigit c || c == '.') afterMark :=
    lasts_either (lasts_one_of_advancing hadv hdigits) hdigits
  have hafterAdv : Advancing afterMark :=
    either_advancing (one_advancing hadv.within) hadv
  have hexp : Lasts (fun c => isDigit c || c == '.') exponent :=
    lasts_either (lasts_one_of_advancing hafterAdv hafter) lasts_boundary
  exact lasts_either
    (lasts_one hdigit (lasts_many hdigit
      (lasts_either (lasts_one hpoint (lasts_many hdigit hexp)) hexp)))
    (lasts_one hpoint (lasts_one hdigit (lasts_many hdigit hexp)))

/-- A word ends in a variant of its last letter. -/
lemma lasts_word {a : Char} {w : List Char} :
    Lasts (foldsTo a) (word (w ++ [a]) boundary) := by
  have hadv : ∀ v : List Char, Advancing (word (v ++ [a]) boundary) := by
    intro v
    induction v with
    | nil => exact one_advancing boundary_within
    | cons b v ih => exact one_advancing ih.within
  induction w with
  | nil => exact lasts_one (fun _ h => h) lasts_boundary
  | cons b w ih => exact lasts_one_of_advancing (hadv w) ih

/-! ### Number tokens -/

/-- Behind an exponent mark at the end of a text, the seam is no place for a reader to stop whose
last character is no such mark. -/
lemma Lasts.ne_of_mark {p : Char → Bool} {r : Reader} (h : Lasts p r)
    (hp : ∀ c, p c = true → foldsTo 'e' c = false) {cs : List Char} (hcs : ¬ NoMark cs)
    (rest : List Char) : r (cs ++ rest) ≠ some cs.length := by
  intro hr
  unfold NoMark at hcs
  push Not at hcs
  obtain ⟨c, hlast, hfold⟩ := hcs
  cases hlen : cs.length with
  | zero => simp [List.length_eq_zero_iff.1 hlen] at hlast
  | succ n =>
    rw [hlen] at hr
    obtain ⟨d, hd, hpd⟩ := h _ n hr
    rw [List.getElem?_append_left (by omega)] at hd
    rw [List.getLast?_eq_getElem?, hlen, Nat.add_sub_cancel, hd, Option.some.injEq] at hlast
    subst hlast
    exact hfold (hp d hpd)

/-- The numbers that are not hexadecimal. -/
def plain : Reader :=
  either decimal (either (word ['i', 'n', 'f'] boundary) (word ['n', 'a', 'n'] boundary))

/-- A number is hexadecimal or not. -/
lemma tokenLength_eq : tokenLength? = either hexadecimal plain := rfl

/-- No number but a hexadecimal one ends with an exponent mark. -/
lemma plain_ne_of_mark {cs : List Char} (hcs : ¬ NoMark cs) (rest : List Char) :
    plain (cs ++ rest) ≠ some cs.length := by
  have hdecimal : ∀ c, (isDigit c || c == '.') = true → foldsTo 'e' c = false := by
    intro c hc
    by_contra hfold
    rcases foldsTo_cases (Bool.not_eq_false _ ▸ hfold) with
      rfl | ⟨_, rfl | ⟨h, -⟩ | ⟨h, -⟩ | ⟨h, -⟩⟩
    · revert hc; decide
    · revert hc; decide
    all_goals exact absurd h (by decide)
  have hletter : ∀ a, isSmall a = true → a ≠ 'e' → ∀ c, foldsTo a c = true →
      foldsTo 'e' c = false := by
    intro a ha hne c hc
    by_contra hfold
    have h₁ := smallForm_of_foldsTo ha hc
    have h₂ := smallForm_of_foldsTo (by decide) (Bool.not_eq_false _ ▸ hfold)
    exact hne (h₁.symm.trans h₂)
  intro h
  rcases eq_some_of_orElse h with h | h
  · exact lasts_decimal.ne_of_mark hdecimal hcs rest h
  · rcases eq_some_of_orElse h with h | h
    · exact (lasts_word (w := ['i', 'n'])).ne_of_mark (hletter 'f' (by decide) (by decide)) hcs rest
        h
    · exact (lasts_word (w := ['n', 'a'])).ne_of_mark (hletter 'n' (by decide) (by decide)) hcs rest
        h

/-- Numbers that are not hexadecimal are settled where no exponent mark comes last. -/
lemma settled_plain {rest : List Char} (hrest : endsBefore isContinued rest = true) :
    Settled NoMark rest plain :=
  settled_either (settled_decimal hrest)
    (settled_either
      (settled_word (fun _ _ => noMark_of_cons) hrest (by decide) (settled_boundary hrest))
      (settled_word (fun _ _ => noMark_of_cons) hrest (by decide) (settled_boundary hrest)))

/-- Where nothing continues a number behind the seam, a number token reaches to the seam exactly if
it is one by itself. -/
lemma tokenLength_append_iff {cs rest : List Char} (hrest : endsBefore isContinued rest = true) :
    tokenLength? (cs ++ rest) = some cs.length ↔ tokenLength? cs = some cs.length := by
  have hhex : hexadecimal (cs ++ rest) = hexadecimal cs := settled_hexadecimal hrest cs trivial
  simp only [tokenLength_eq, either, hhex]
  by_cases hcs : NoMark cs
  · rw [settled_plain hrest cs hcs]
  · have h₁ := plain_ne_of_mark hcs rest
    have h₂ := plain_ne_of_mark hcs []
    rw [List.append_nil] at h₂
    cases hexadecimal cs with
    | some n => exact Iff.rfl
    | none => exact iff_of_false h₁ h₂

/-- Whether a reader stops only where no character of a word follows. -/
def Bounded (r : Reader) : Prop :=
  ∀ cs n, r cs = some n → endsBefore isWordPart (cs.drop n) = true

section Bounded

variable {p : Char → Bool} {next : Reader}

/-- The end of a word is where no character of a word follows. -/
lemma bounded_boundary : Bounded boundary := by
  intro cs n h
  unfold boundary at h
  split_ifs at h with hends
  cases h
  exact hends

/-- A reader of one character stops at the end of a word if the next one does. -/
lemma bounded_one (h : Bounded next) : Bounded (one p next) := by
  intro cs n hn
  cases cs with
  | nil => cases hn
  | cons c cs =>
    simp only [one] at hn
    split_ifs at hn
    obtain ⟨m, hm, rfl⟩ := Option.map_eq_some_iff.1 hn
    exact h cs m hm

/-- A reader of any number of characters stops at the end of a word if the next one does. -/
lemma bounded_many (h : Bounded next) : Bounded (many p next) := by
  intro cs
  induction cs with
  | nil => exact fun n hn => h [] n hn
  | cons c cs ih =>
    intro n hn
    simp only [many] at hn
    split_ifs at hn
    · rcases eq_some_of_orElse hn with hl | hr
      · obtain ⟨m, hm, rfl⟩ := Option.map_eq_some_iff.1 hl
        exact ih m hm
      · exact h _ n hr
    · exact h _ n hn

/-- A choice stops at the end of a word if both readers do. -/
lemma bounded_either {first second : Reader} (h₁ : Bounded first) (h₂ : Bounded second) :
    Bounded (either first second) := by
  intro cs n hn
  rcases eq_some_of_orElse hn with hl | hr
  · exact h₁ cs n hl
  · exact h₂ cs n hr

/-- A reader of a word stops at the end of a word if the next one does. -/
lemma bounded_word {w : List Char} (h : Bounded next) : Bounded (word w next) := by
  induction w with
  | nil => exact h
  | cons a w ih => exact bounded_one ih

end Bounded

/-- A number stops where no character of a word follows. -/
lemma bounded_tokenLength : Bounded tokenLength? := by
  have hdigits : Bounded (many1 isDigit boundary) := bounded_one (bounded_many bounded_boundary)
  have hexp : Bounded exponent :=
    bounded_either (bounded_one (bounded_either (bounded_one hdigits) hdigits)) bounded_boundary
  have hdecimal : Bounded decimal :=
    bounded_either
      (bounded_one (bounded_many
        (bounded_either (bounded_one (bounded_many hexp)) hexp)))
      (bounded_one (bounded_one (bounded_many hexp)))
  exact bounded_either (bounded_word (bounded_one (bounded_many bounded_boundary)))
    (bounded_either hdecimal
      (bounded_either (bounded_word bounded_boundary) (bounded_word bounded_boundary)))

/-- A number token is over at the seam. -/
lemma endsBefore_of_tokenLength {cs rest : List Char}
    (h : tokenLength? (cs ++ rest) = some cs.length) : endsBefore isWordPart rest = true := by
  simpa using bounded_tokenLength _ _ h

end Number

/-! ### Durations -/

namespace Duration

/-- The characters that cannot stand right behind a duration. -/
def isContinued (c : Char) : Bool := isNamePart c || isDigit c

/-- A unit is written in characters of names. -/
lemma isNamePart_of_first? {c : Char} (h : (TimeUnit.first? [c]).isSome = true) :
    isNamePart c = true := by
  unfold TimeUnit.first? at h
  split at h <;> simp_all <;> decide

/-- What is read of a part, except where the letters of the shortest unit stand. -/
lemma tokenRun_cons {inRun : Bool} {c : Char} {cs : List Char}
    (h : c = 'm' → cs.head? ≠ some 's') :
    tokenRun inRun (c :: cs) =
      if isDigit c then (tokenRun true cs).map (· + 1)
      else if inRun && (TimeUnit.first? [c]).isSome then
        (tokenRun.endOr cs (tokenRun false cs)).map (· + 1)
      else none := by
  rw [tokenRun.eq_def]
  split
  · next heq => cases heq
  · next heq =>
    cases heq
    exact absurd rfl (h rfl)
  · next heq =>
    cases heq
    rfl

/-- At the seam no further part of a duration starts. -/
lemma tokenRun_seam {inRun : Bool} {rest : List Char} (hrest : endsBefore isContinued rest = true) :
    tokenRun inRun rest = none := by
  cases rest with
  | nil => rw [tokenRun]
  | cons c rest =>
    simp only [endsBefore, isContinued, Bool.not_eq_true', Bool.or_eq_false_iff] at hrest
    have hm : c ≠ 'm' := by
      rintro rfl
      exact absurd hrest.1 (by decide)
    have hunit : (TimeUnit.first? [c]).isSome = false := by
      by_contra hsome
      simp [isNamePart_of_first? (Bool.not_eq_false _ ▸ hsome)] at hrest
    rw [tokenRun_cons fun hc => absurd hc hm]
    simp [hrest.2, hunit]

/-- Whether a duration may end is the same in front of the seam and at the end of the text. -/
lemma endOr_append {rest : List Char} (hrest : endsBefore isNamePart rest = true) (cs : List Char)
    (further : Option Nat) :
    tokenRun.endOr (cs ++ rest) further = tokenRun.endOr cs further := by
  unfold tokenRun.endOr
  rw [endsBefore_append hrest]

/-- Where nothing continues a duration behind the seam, the reader does not look there. -/
lemma tokenRun_append {inRun : Bool} {cs rest : List Char}
    (hrest : endsBefore isContinued rest = true) :
    tokenRun inRun (cs ++ rest) = tokenRun inRun cs := by
  have hpart : endsBefore isNamePart rest = true :=
    endsBefore_mono (fun c hc => by simp [isContinued, hc]) hrest
  -- A final `m` is no start of `ms`, because no `s` stands behind the seam.
  have apart : ∀ {c : Char} {ds : List Char}, (∀ es, c = 'm' → ds = 's' :: es → False) →
      c = 'm' → (ds ++ rest).head? ≠ some 's' := by
    intro c ds h hc hhead
    cases ds with
    | nil =>
      cases rest with
      | nil => cases hhead
      | cons r rest =>
        cases hhead
        revert hpart
        simp only [endsBefore]
        decide
    | cons d ds =>
      cases hhead
      exact h ds hc rfl
  fun_induction tokenRun inRun cs with
  | case1 => rw [List.nil_append, tokenRun_seam hrest]
  | case2 ds ih => simp only [List.cons_append, tokenRun, if_true, ih, endOr_append hpart]
  | case3 inRun ds h => simp [tokenRun, h]
  | case4 inRun c ds h hdigit ih =>
    rw [List.cons_append, tokenRun_cons (apart h), if_pos hdigit, ih]
  | case5 inRun c ds h hdigit hunit ih =>
    rw [List.cons_append, tokenRun_cons (apart h), if_neg hdigit, if_pos hunit, ih,
      endOr_append hpart]
  | case6 inRun c ds h hdigit hunit =>
    rw [List.cons_append, tokenRun_cons (apart h), if_neg hdigit, if_neg hunit]

/-- A duration is read in front of the seam as at the end of the text. -/
lemma tokenLength_append {cs rest : List Char} (hrest : endsBefore isContinued rest = true) :
    tokenLength? (cs ++ rest) = tokenLength? cs := tokenRun_append hrest

/-- A duration is over where the reader stops. -/
lemma endsBefore_of_tokenRun {inRun : Bool} {cs : List Char} {n : Nat}
    (h : tokenRun inRun cs = some n) : endsBefore isNamePart (cs.drop n) = true := by
  have stop : ∀ (ds : List Char) {m : Nat},
      (∀ k, tokenRun false ds = some k → endsBefore isNamePart (ds.drop k) = true) →
      tokenRun.endOr ds (tokenRun false ds) = some m →
        endsBefore isNamePart (ds.drop m) = true := by
    intro ds m ih hm
    unfold tokenRun.endOr at hm
    split at hm
    · next heq => cases hm; exact ih _ heq
    · split_ifs at hm with hends
      cases hm
      exact hends
  fun_induction tokenRun inRun cs generalizing n with
  | case1 => cases h
  | case2 ds ih =>
    obtain ⟨m, hm, rfl⟩ := Option.map_eq_some_iff.1 h
    exact stop ds (fun k hk => ih hk) hm
  | case3 => cases h
  | case4 _ _ _ _ _ ih =>
    obtain ⟨m, hm, rfl⟩ := Option.map_eq_some_iff.1 h
    exact ih hm
  | case5 _ _ ds _ _ _ ih =>
    obtain ⟨m, hm, rfl⟩ := Option.map_eq_some_iff.1 h
    exact stop ds (fun k hk => ih hk) hm
  | case6 => cases h

/-- No character of a name stands behind a duration. -/
lemma endsBefore_of_tokenLength {cs rest : List Char}
    (h : tokenLength? (cs ++ rest) = some cs.length) : endsBefore isNamePart rest = true := by
  simpa using endsBefore_of_tokenRun h

end Duration

end PromqlGuide
