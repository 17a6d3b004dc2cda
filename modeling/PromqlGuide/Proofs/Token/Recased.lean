import PromqlGuide.Proofs.Text.Recased
import PromqlGuide.Proofs.Token.Seam

/-!
# Tokens in another letter case

All words of the query language are read in any letter case, and the classes that names, numbers and
strings are made of hold letters in both cases or in neither.  So the readers of all kinds of token
but one do not tell recased texts apart (`Terminal.length_of_recased`).  The exception is the
duration, whose units are written small.
-/
namespace PromqlGuide

open Text

/-- Whether a reader finds the same in recased texts. -/
def ReadsAnyCase (r : List Char → Option Nat) : Prop := ∀ cs ds, Recased cs ds → r cs = r ds

/-! ### Numbers -/

namespace Number

section

variable {p : Char → Bool} {next first second : Reader}

/-- Recased texts are over, or go on with no word, together. -/
lemma readsAnyCase_boundary : ReadsAnyCase boundary := by
  intro cs ds h
  rw [boundary, boundary, h.endsBefore_eq ignoresCase_isWordPart]

/-- A reader of one character ignores case if its class and the next reader do. -/
lemma readsAnyCase_one (hp : IgnoresCase p) (h : ReadsAnyCase next) :
    ReadsAnyCase (one p next) := by
  intro cs ds hcs
  cases hcs with
  | nil => rfl
  | cons hcd hcs => rw [one, one, hp _ _ hcd, h _ _ hcs]

/-- A reader of any number of characters ignores case if its class and the next reader do. -/
lemma readsAnyCase_many (hp : IgnoresCase p) (h : ReadsAnyCase next) :
    ReadsAnyCase (many p next) := by
  intro cs ds hcs
  induction hcs with
  | nil => rfl
  | cons hcd hcs ih => rw [many, many, hp _ _ hcd, ih, h _ _ (.cons hcd hcs)]

/-- A reader of some characters ignores case if its class and the next reader do. -/
lemma readsAnyCase_many1 (hp : IgnoresCase p) (h : ReadsAnyCase next) :
    ReadsAnyCase (many1 p next) := readsAnyCase_one hp (readsAnyCase_many hp h)

/-- A choice ignores case if both readers do. -/
lemma readsAnyCase_either (h : ReadsAnyCase first) (h' : ReadsAnyCase second) :
    ReadsAnyCase (either first second) := by
  intro cs ds hcs
  rw [either, either, h cs ds hcs, h' cs ds hcs]

/-- A reader of a small word ignores case if the next reader does. -/
lemma readsAnyCase_word {w : List Char} (hw : isSmallWord w = true) (h : ReadsAnyCase next) :
    ReadsAnyCase (word w next) := by
  induction w with
  | nil => exact h
  | cons a w ih =>
    simp only [isSmallWord, List.all_cons, Bool.and_eq_true] at hw
    exact readsAnyCase_one (ignoresCase_foldsTo hw.1) (ih hw.2)

end

/-- Exponents are read in any letter case. -/
lemma readsAnyCase_exponent : ReadsAnyCase exponent := by
  have hdigits : ReadsAnyCase (many1 isDigit boundary) :=
    readsAnyCase_many1 ignoresCase_isDigit readsAnyCase_boundary
  have hsign : IgnoresCase fun c => c == '+' || c == '-' := ignoresCase_of_smallLetters (by decide)
  exact readsAnyCase_either
    (readsAnyCase_one (ignoresCase_foldsTo (by decide))
      (readsAnyCase_either (readsAnyCase_one hsign hdigits) hdigits)) readsAnyCase_boundary

/-- Decimal numbers are read in any letter case. -/
lemma readsAnyCase_decimal : ReadsAnyCase decimal := by
  have hpoint : IgnoresCase (· == '.') := ignoresCase_beq (by decide)
  exact readsAnyCase_either
    (readsAnyCase_many1 ignoresCase_isDigit
      (readsAnyCase_either
        (readsAnyCase_one hpoint (readsAnyCase_many ignoresCase_isDigit readsAnyCase_exponent))
        readsAnyCase_exponent))
    (readsAnyCase_one hpoint (readsAnyCase_many1 ignoresCase_isDigit readsAnyCase_exponent))

/-- Hexadecimal numbers are read in any letter case. -/
lemma readsAnyCase_hexadecimal : ReadsAnyCase hexadecimal := by
  have hhex : IgnoresCase isHexDigit := ignoresCase_of_smallLetters (by decide)
  exact readsAnyCase_word (by decide) (readsAnyCase_many1 hhex readsAnyCase_boundary)

/-- Numbers are read in any letter case. -/
lemma readsAnyCase_tokenLength : ReadsAnyCase tokenLength? :=
  readsAnyCase_either readsAnyCase_hexadecimal
    (readsAnyCase_either readsAnyCase_decimal
      (readsAnyCase_either (readsAnyCase_word (by decide) readsAnyCase_boundary)
        (readsAnyCase_word (by decide) readsAnyCase_boundary)))

end Number

/-! ### Strings -/

namespace Quoted

/-- Where a string ends is decided by quotes, backslashes and newlines. -/
lemma bodyLength_of_recased {quote : Char} (hquote : quote.isAlpha = false) {escaped : Bool}
    {cs ds : List Char} (h : Recased cs ds) :
    bodyLength quote escaped cs = bodyLength quote escaped ds := by
  induction h generalizing escaped with
  | nil => cases escaped <;> rfl
  | @cons c d cs ds hcd _ ih =>
    cases escaped with
    | true => simp only [bodyLength, hcd.eq_iff (a := '\n') (by decide), ih]
    | false =>
      have hbackslash : (c == '\\') = (d == '\\') := ignoresCase_beq (by decide) c d hcd
      simp only [bodyLength, hcd.eq_iff hquote, hcd.eq_iff (a := '\n') (by decide), hbackslash, ih]

/-- Recased raw strings are equally long. -/
lemma rawLength_of_recased {cs ds : List Char} (h : Recased cs ds) :
    rawLength cs = rawLength ds := by
  induction h with
  | nil => rfl
  | @cons c d cs ds hcd _ ih =>
    simp only [rawLength, hcd.eq_iff (a := '\x60') (by decide), ih]

/-- Strings are read in any letter case. -/
lemma readsAnyCase_tokenLength : ReadsAnyCase tokenLength? := by
  intro cs ds h
  cases h with
  | nil => rfl
  | @cons c d cs ds hcd h =>
    simp only [tokenLength?, hcd.eq_iff (a := '"') (by decide), hcd.eq_iff (a := '\'') (by decide),
      hcd.eq_iff (a := '\x60') (by decide), rawLength_of_recased h]
    split
    · next hquote =>
      have hsame : c = d ∧ d.isAlpha = false := by
        rcases hquote with rfl | rfl
        · exact ⟨(hcd.eq_iff (by decide)).2 rfl, by decide⟩
        · exact ⟨(hcd.eq_iff (by decide)).2 rfl, by decide⟩
      rw [hsame.1, bodyLength_of_recased hsame.2 h]
    · rfl

end Quoted

/-! ### Names and words -/

namespace Text

/-- Recased texts start with the same small words. -/
lemma startsWithWord_of_recased {w cs ds : List Char} (hw : isSmallWord w = true)
    (h : Recased cs ds) : startsWithWord w cs = startsWithWord w ds := by
  induction w generalizing cs ds with
  | nil => rfl
  | cons a w ih =>
    simp only [isSmallWord, List.all_cons, Bool.and_eq_true] at hw
    cases h with
    | nil => rfl
    | cons hcd h => rw [startsWithWord, startsWithWord, ignoresCase_foldsTo hw.1 _ _ hcd, ih hw.2 h]

end Text

namespace Name

variable {cs ds : List Char}

/-- A run ignores case if both of its classes do. -/
lemma readsAnyCase_runLength {start part : Char → Bool} (hstart : IgnoresCase start)
    (hpart : IgnoresCase part) : ReadsAnyCase (runLength? start part) := by
  intro cs ds h
  cases h with
  | nil => rfl
  | cons hcd h => simp only [runLength?, hstart _ _ hcd, Recased.length_takeWhile_eq h hpart]

/-- Label names are read in any letter case. -/
lemma readsAnyCase_labelLength : ReadsAnyCase labelLength? :=
  readsAnyCase_runLength ignoresCase_isNameStart ignoresCase_isNamePart

/-- Recased texts start with the same reserved words. -/
lemma startsWithReserved_of_recased {words : List (List Char)}
    (hwords : ∀ w ∈ words, isSmallWord w = true) (h : Recased cs ds) :
    startsWithReserved words cs = startsWithReserved words ds := by
  unfold startsWithReserved
  induction words with
  | nil => rfl
  | cons w words ih =>
    rw [List.any_cons, List.any_cons, ih fun v hv => hwords v (List.mem_cons_of_mem w hv),
      startsWithWord_of_recased (hwords w List.mem_cons_self) h,
      (h.drop w.length).endsBefore_eq ignoresCase_isMetricPart]

/-- Metric names are read in any letter case. -/
lemma readsAnyCase_metricLength {reserved : List (List Char)}
    (hreserved : ∀ w ∈ reserved, isSmallWord w = true) : ReadsAnyCase (metricLength? reserved) := by
  intro cs ds h
  rw [metricLength?, metricLength?, startsWithReserved_of_recased hreserved h,
    readsAnyCase_runLength ignoresCase_isMetricStart ignoresCase_isMetricPart cs ds h]

/-- A parenthesis comes next in both of two recased texts or in neither. -/
lemma opensCall_of_recased (h : Recased cs ds) : opensCall cs = opensCall ds := by
  have hmore := h.dropWhile ignoresCase_isSpace
  unfold opensCall
  rcases hmore.starts_cases (a := '(') (by decide) with ⟨es, fs, hes, hfs, -⟩ | ⟨hcs, hds⟩
  · simp only [hes, hfs]
  · split
    · next heq => exact absurd heq (hcs _)
    · rfl

/-- Function names are read in any letter case. -/
lemma readsAnyCase_functionLength {reserved : List (List Char)}
    (hreserved : ∀ w ∈ reserved, isSmallWord w = true) :
    ReadsAnyCase (functionLength? reserved) := by
  intro cs ds h
  rw [functionLength?, functionLength?, startsWithReserved_of_recased hreserved h,
    readsAnyCase_labelLength cs ds h]
  split
  · rfl
  · cases labelLength? ds with
    | none => rfl
    | some n => simp only [opensCall_of_recased (h.drop n)]

/-- Small words are read in any letter case. -/
lemma readsAnyCase_wordLength {w : List Char} (hw : isSmallWord w = true) :
    ReadsAnyCase (wordLength? w) := by
  intro cs ds h
  rw [wordLength?, wordLength?, startsWithWord_of_recased hw h,
    (h.drop w.length).endsBefore_eq ignoresCase_isWordPart]

/-- Lists of small words are read in any letter case. -/
lemma readsAnyCase_anyWordLength {words : List (List Char)}
    (hwords : ∀ w ∈ words, isSmallWord w = true) : ReadsAnyCase (anyWordLength? words) := by
  intro cs ds h
  unfold anyWordLength?
  induction words with
  | nil => rfl
  | cons w words ih =>
    rw [List.findSome?_cons, List.findSome?_cons, ih fun v hv =>
      hwords v (List.mem_cons_of_mem w hv), readsAnyCase_wordLength (hwords w List.mem_cons_self) cs
        ds h]

/-- Small words with empty parentheses are read in any letter case. -/
lemma readsAnyCase_emptyCallLength {w : List Char} (hw : isSmallWord w = true) :
    ReadsAnyCase (emptyCallLength? w) := by
  intro cs ds h
  have hopening := (h.drop w.length).dropWhile ignoresCase_isSpace
  rw [emptyCallLength?, emptyCallLength?, startsWithWord_of_recased hw h]
  rcases hopening.starts_cases (a := '(') (by decide) with ⟨es, fs, hes, hfs, hinside⟩ | ⟨hcs, hds⟩
  · have hclosing := hinside.dropWhile ignoresCase_isSpace
    rcases hclosing.starts_cases (a := ')') (by decide) with ⟨es', fs', hes', hfs', hrest⟩ |
      ⟨hes', hfs'⟩
    · simp only [hes, hfs, hes', hfs', h.length_eq, hrest.length_eq]
    · simp only [hes, hfs]
  · split
    · split
      · next heq => exact absurd heq (hcs _)
      · rfl
    · rfl

end Name

/-! ### All tokens -/

namespace Terminal

/-- Literal text without letters is found in any letter case. -/
lemma readsAnyCase_literalLength {literal : List Char} (hl : ∀ a ∈ literal, a.isAlpha = false) :
    ReadsAnyCase (literalLength? literal) := by
  intro cs ds h
  have hprefix : literal.isPrefixOf cs = literal.isPrefixOf ds := by
    induction literal generalizing cs ds with
    | nil => simp
    | cons a literal ih =>
      cases h with
      | nil => rfl
      | @cons c d cs ds hcd h =>
        have ha : (a == c) = (a == d) := by
          rw [Bool.eq_iff_iff, beq_iff_eq, beq_iff_eq, eq_comm,
            hcd.eq_iff (hl a List.mem_cons_self), eq_comm]
        rw [List.isPrefixOf, List.isPrefixOf, ha,
          ih (fun b hb => hl b (List.mem_cons_of_mem a hb)) cs ds h]
  rw [literalLength?, literalLength?, hprefix]

/-- No symbol is written with letters. -/
lemma not_isAlpha_symbol (s : Symbol) : ∀ a ∈ s.letters, a.isAlpha = false := by cases s <;> decide

/-- Match operators are read in any letter case. -/
lemma readsAnyCase_matchOperator : ReadsAnyCase matchOperator.length? := by
  have signs : ∀ w ∈ matchOperators, ∀ a ∈ w, a.isAlpha = false := by decide
  intro cs ds h
  simp only [length?]
  generalize matchOperators = operators at signs
  induction operators with
  | nil => rfl
  | cons w operators ih =>
    rw [List.findSome?_cons, List.findSome?_cons, ih fun v hv =>
      signs v (List.mem_cons_of_mem w hv), readsAnyCase_literalLength
        (signs w List.mem_cons_self) cs ds h]

/-- All tokens but durations are read in any letter case. -/
theorem length_of_recased {t : Terminal} (ht : t ≠ duration) {cs ds : List Char}
    (h : Recased cs ds) :
    t.length? cs = t.length? ds := by
  suffices ReadsAnyCase t.length? from this cs ds h
  cases t with
  | number => exact Number.readsAnyCase_tokenLength
  | timestamp => exact Number.readsAnyCase_tokenLength
  | string => exact Quoted.readsAnyCase_tokenLength
  | duration => exact absurd rfl ht
  | labelName => exact Name.readsAnyCase_labelLength
  | metricName => exact Name.readsAnyCase_metricLength isSmallWord_reserved
  | functionName => exact Name.readsAnyCase_functionLength isSmallWord_aggregationOperators
  | matchOperator => exact readsAnyCase_matchOperator
  | aggregationOperator => exact Name.readsAnyCase_anyWordLength isSmallWord_aggregationOperators
  | startOrEnd =>
    intro cs ds h
    simp only [length?, Name.readsAnyCase_emptyCallLength (w := ['s', 't', 'a', 'r', 't'])
      (by decide) cs ds h, Name.readsAnyCase_emptyCallLength (w := ['e', 'n', 'd'])
      (by decide) cs ds h]
  | keyword k => exact Name.readsAnyCase_wordLength (isSmallWord_keyword k)
  | symbol s => exact readsAnyCase_literalLength (not_isAlpha_symbol s)

/-- Whether the tokens of a kind are written with keywords and numbers only. -/
def isCaseless : Terminal → Bool
  | number | timestamp | aggregationOperator | startOrEnd | keyword _ => true
  | _ => false

/-- What is a token by itself is one in any letter case, unless it is a duration. -/
lemma spells_of_recased {t : Terminal} (ht : t ≠ duration) {v w : List Char} (h : Recased v w) :
    t.spells v = t.spells w := by
  unfold spells
  split
  · rw [length_of_recased (by decide) (h.append (.cons rfl .nil)), h.length_eq]
  · rw [length_of_recased ht h, h.length_eq]

/-- Whether a text runs into a token in front of it does not depend on its letter case. -/
lemma stopsAt_of_recased (t : Terminal) {v w rest rest' : List Char} (h : Recased v w)
    (hrest : Recased rest rest') : t.stopsAt v rest = t.stopsAt w rest' := by
  have hword : endsBefore isWordPart rest = endsBefore isWordPart rest' :=
    hrest.endsBefore_eq ignoresCase_isWordPart
  have hnumber : endsBefore Number.isContinued rest = endsBefore Number.isContinued rest' :=
    hrest.endsBefore_eq (ignoresCase_of_smallLetters (by decide))
  have hsign : ∀ a : Char, a.isAlpha = false →
    endsBefore (· == a) rest = endsBefore (· == a) rest' :=
    fun a ha => hrest.endsBefore_eq (ignoresCase_beq ha)
  cases t with
  | number => exact hnumber
  | timestamp => exact hnumber
  | duration => exact hrest.endsBefore_eq (ignoresCase_of_smallLetters (by decide))
  | labelName => exact hrest.endsBefore_eq ignoresCase_isNamePart
  | metricName | aggregationOperator | keyword k => exact hword
  | functionName => exact Name.opensCall_of_recased hrest
  | matchOperator =>
    have hw : v = ['='] ↔ w = ['='] := h.eq_iff (by decide)
    have hne : (v != ['=']) = (w != ['=']) := by
      rw [Bool.eq_iff_iff, bne_iff_ne, bne_iff_ne, ne_eq, hw]
    rw [stopsAt, stopsAt, hne, hsign '~' (by decide)]
  | symbol s => cases s <;> first | rfl | exact hsign '=' (by decide)
  | string | startOrEnd => rfl

end Terminal

end PromqlGuide
