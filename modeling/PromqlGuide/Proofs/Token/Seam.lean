import Mathlib.Tactic.Common
import PromqlGuide.Proofs.Token.Words
import PromqlGuide.Proofs.Token.Numbers

/-!
# Tokens at a seam

A token by itself (`Terminal.spells`) is read as a whole in front of a text that does not run into
it (`Terminal.stopsAt`), and a token that is read as a whole is one by itself and is not run into.
Both conditions are about spelling only, so they survive when a text is cut out of its surroundings
or blank text is put between tokens.

Four kinds of token need a little help in the second direction: nothing that could belong to a
number, and no case variant of a letter, may stand right behind them.  The grammar has nothing of
this kind behind an operand.
-/
namespace PromqlGuide

open Text

/-! ### Strings -/

namespace Quoted

/-- A string has at least the quote that closes it. -/
lemma bodyLength_pos {quote : Char} {escaped : Bool} {cs : List Char} {n : Nat}
    (h : bodyLength quote escaped cs = some n) : 0 < n := by
  cases cs with
  | nil => cases escaped <;> cases h
  | cons c cs =>
    cases escaped with
    | true =>
      simp only [bodyLength] at h
      split_ifs at h
      obtain ⟨m, -, rfl⟩ := Option.map_eq_some_iff.1 h
      exact Nat.succ_pos m
    | false =>
      simp only [bodyLength] at h
      split_ifs at h
      · cases h; exact Nat.one_pos
      · obtain ⟨m, -, rfl⟩ := Option.map_eq_some_iff.1 h
        exact Nat.succ_pos m

/-- The closing quote of a string decides where it ends, whatever follows. -/
lemma bodyLength_append_iff {quote : Char} {escaped : Bool} {cs rest : List Char} :
    bodyLength quote escaped (cs ++ rest) = some cs.length ↔
      bodyLength quote escaped cs = some cs.length := by
  induction cs generalizing escaped with
  | nil =>
    have never : ∀ ds, bodyLength quote escaped ds ≠ some 0 :=
      fun ds h => absurd (bodyLength_pos h) (Nat.lt_irrefl 0)
    exact iff_of_false (never rest) (never [])
  | cons c cs ih =>
    cases escaped with
    | true =>
      simp only [List.cons_append, bodyLength, List.length_cons]
      split_ifs
      · exact Iff.rfl
      · simp [Option.map_eq_some_iff, ih]
    | false =>
      simp only [List.cons_append, bodyLength, List.length_cons]
      split_ifs
      · exact Iff.rfl
      · exact Iff.rfl
      · simp [Option.map_eq_some_iff, ih]

/-- What follows a raw string does not matter to it. -/
lemma rawLength_append_iff {cs rest : List Char} :
    rawLength (cs ++ rest) = some cs.length ↔ rawLength cs = some cs.length := by
  have never : ∀ ds, rawLength ds ≠ some 0 := by
    intro ds h
    cases ds with
    | nil => cases h
    | cons d ds =>
      simp only [rawLength] at h
      split_ifs at h
      · cases h
      · obtain ⟨m, -, hm⟩ := Option.map_eq_some_iff.1 h
        exact absurd hm (Nat.succ_ne_zero m)
  induction cs with
  | nil => exact iff_of_false (never rest) (never [])
  | cons c cs ih =>
    simp only [List.cons_append, rawLength, List.length_cons]
    split_ifs
    · exact Iff.rfl
    · simp [Option.map_eq_some_iff, ih]

/-- What follows a string does not matter to it. -/
lemma tokenLength_append_iff {cs rest : List Char} (hcs : cs ≠ []) :
    tokenLength? (cs ++ rest) = some cs.length ↔ tokenLength? cs = some cs.length := by
  cases cs with
  | nil => exact absurd rfl hcs
  | cons c cs =>
    simp only [List.cons_append, tokenLength?, List.length_cons]
    split_ifs
    · simp [Option.map_eq_some_iff, bodyLength_append_iff]
    · simp [Option.map_eq_some_iff, rawLength_append_iff]
    · exact Iff.rfl

end Quoted

namespace Terminal

/-! ### Literal text -/

/-- What follows a literal does not matter to it. -/
lemma literalLength_append_iff {literal w rest : List Char} :
    literalLength? literal (w ++ rest) = some w.length ↔ w = literal := by
  constructor
  · intro h
    unfold literalLength? at h
    split_ifs at h with hp
    have hlen : literal.length = w.length := by simpa using h
    obtain ⟨t, ht⟩ := List.isPrefixOf_iff_prefix.1 hp
    exact (List.append_inj_left ht hlen).symm
  · rintro rfl
    simp [literalLength?]

/-- A literal is spelled by itself only. -/
lemma literalLength_iff {literal w : List Char} :
    literalLength? literal w = some w.length ↔ w = literal := by
  have happend : literalLength? literal (w ++ []) = some w.length ↔ w = literal :=
    literalLength_append_iff
  simpa using happend

/-- The operators of label matchers, as they are found: `=` only where no `=~` stands. -/
lemma matchOperator_append_iff {w rest : List Char} :
    matchOperator.length? (w ++ rest) = some w.length ↔
      w ∈ matchOperators ∧ (w = ['='] → endsBefore (· == '~') rest = true) := by
  constructor
  · intro h
    obtain ⟨literal, hmem, hliteral⟩ := List.exists_of_findSome?_eq_some h
    obtain rfl := literalLength_append_iff.1 hliteral
    refine ⟨hmem, ?_⟩
    rintro rfl
    cases rest with
    | nil => rfl
    | cons c rest =>
      simp only [endsBefore, Bool.not_eq_true', beq_eq_false_iff_ne]
      rintro rfl
      simp [length?, matchOperators, literalLength?] at h
  · rintro ⟨hmem, hends⟩
    simp only [matchOperators, List.mem_cons, List.not_mem_nil, or_false] at hmem
    rcases hmem with rfl | rfl | rfl | rfl
    · rfl
    · rfl
    · rfl
    · have hrest := hends rfl
      cases rest with
      | nil => rfl
      | cons c rest =>
        simp only [endsBefore, Bool.not_eq_true', beq_eq_false_iff_ne] at hrest
        simp [length?, matchOperators, literalLength?, Ne.symm hrest]

/-- A text that is read as a match operator is one of them. -/
lemma mem_of_matchOperator {w : List Char} (h : matchOperator.length? w = some w.length) :
    w ∈ matchOperators := by
  have happend : matchOperator.length? (w ++ []) = some w.length := by simpa using h
  exact (matchOperator_append_iff.1 happend).1

/-- `start` and `end` exclude each other at the start of a text. -/
lemma startOrEnd_eq_some_iff {cs : List Char} {n : Nat} :
    startOrEnd.length? cs = some n ↔
      Name.emptyCallLength? ['s', 't', 'a', 'r', 't'] cs = some n ∨
        Name.emptyCallLength? ['e', 'n', 'd'] cs = some n := by
  have starts : ∀ {w : List Char} {m : Nat}, Name.emptyCallLength? w cs = some m →
      startsWithWord w cs = true := by
    intro w m h
    unfold Name.emptyCallLength? at h
    split_ifs at h with hw
    exact hw
  constructor
  · exact eq_some_of_orElse
  · rintro (h | h)
    · simp [length?, h]
    · cases hs : Name.emptyCallLength? ['s', 't', 'a', 'r', 't'] cs with
      | none => simp [length?, hs, h]
      | some m =>
        rcases prefix_or_prefix_of_startsWithWord (by decide) (by decide) (starts hs)
          (starts h) with
          hp | hp <;> exact absurd (List.isPrefixOf_iff_prefix.2 hp) (by decide)

/-- What follows a start or end does not matter to it. -/
lemma startOrEnd_append_iff {w rest : List Char} :
    startOrEnd.length? (w ++ rest) = some w.length ↔ startOrEnd.length? w = some w.length := by
  simp only [startOrEnd_eq_some_iff, Name.emptyCallLength_append_iff]

/-! ### Spelling -/

/-- Whether a text is a token of a kind by itself.  A function name is one in front of a
parenthesis. -/
def spells (t : Terminal) (w : List Char) : Bool :=
  match t with
  | functionName => functionName.length? (w ++ ['(']) == some w.length
  | _ => t.length? w == some w.length

/-- Whether a text does not run into a token `w` of a kind that stands in front of it. -/
def stopsAt : Terminal → List Char → List Char → Bool
  | number, _, rest | timestamp, _, rest => endsBefore Number.isContinued rest
  | duration, _, rest => endsBefore Duration.isContinued rest
  | labelName, _, rest => endsBefore isNamePart rest
  | metricName, _, rest | aggregationOperator, _, rest | keyword _, _, rest =>
    endsBefore isWordPart rest
  | functionName, _, rest => Name.opensCall rest
  | matchOperator, w, rest => w != ['='] || endsBefore (· == '~') rest
  | symbol .lss, _, rest | symbol .gtr, _, rest => endsBefore (· == '=') rest
  | string, _, _ | startOrEnd, _, _ | symbol _, _, _ => true

/-- Whether the reader of a kind may stop in front of a character that the grammar never has
there. -/
def isOpenEnded : Terminal → Bool
  | number | timestamp | duration | metricName => true
  | _ => false

/-- The characters that the grammar never has right behind an operand. -/
def isStray (c : Char) : Bool := isVariant c || isDigit c || c == '.'

/-- A token that is read is not empty. -/
lemma ne_nil_of_length {t : Terminal} {w rest : List Char}
    (h : t.length? (w ++ rest) = some w.length) : w ≠ [] := by
  rintro rfl
  exact absurd (length_pos h) (Nat.lt_irrefl 0)

/-- A token is not empty. -/
lemma ne_nil_of_spells {t : Terminal} {w : List Char} (h : t.spells w = true) : w ≠ [] := by
  unfold spells at h
  split at h
  · exact ne_nil_of_length (beq_iff_eq.1 h)
  · have hlength : t.length? (w ++ []) = some w.length := by simpa using h
    exact ne_nil_of_length hlength

/-- Keywords are written small. -/
lemma isSmallWord_keyword (k : Keyword) : isSmallWord k.letters = true := by cases k <;> decide

/-- Aggregation operators are written small. -/
lemma isSmallWord_aggregationOperators : ∀ w ∈ aggregationOperators, isSmallWord w = true := by
  decide

/-- Reserved words are written small. -/
lemma isSmallWord_reserved : ∀ w ∈ Keyword.reserved.map Keyword.letters, isSmallWord w = true := by
  decide

/-- A run of either of two classes ends where both do. -/
lemma endsBefore_or {p q : Char → Bool} {cs : List Char} (hp : endsBefore p cs = true)
    (hq : endsBefore q cs = true) : endsBefore (fun c => p c || q c) cs = true := by
  cases cs with
  | nil => rfl
  | cons c cs => simp_all [endsBefore]

/-- A token in front of a text that does not run into it is read as a whole. -/
theorem length_append {t : Terminal} {w rest : List Char} (hw : t.spells w = true)
    (hrest : t.stopsAt w rest = true) : t.length? (w ++ rest) = some w.length := by
  have hne := ne_nil_of_spells hw
  unfold spells at hw
  split at hw
  · exact (Name.functionLength_append_iff hne isSmallWord_aggregationOperators).2
      ⟨((Name.functionLength_append_iff hne isSmallWord_aggregationOperators).1
        (beq_iff_eq.1 hw)).1,
        ((Name.functionLength_append_iff hne isSmallWord_aggregationOperators).1
          (beq_iff_eq.1 hw)).2.1, hrest⟩
  · next ht =>
    have hw := beq_iff_eq.1 hw
    cases t with
    | number => exact (Number.tokenLength_append_iff hrest).2 hw
    | timestamp => exact (Number.tokenLength_append_iff hrest).2 hw
    | string => exact (Quoted.tokenLength_append_iff hne).2 hw
    | duration => exact (Duration.tokenLength_append hrest).trans hw
    | labelName => exact (Name.runLength_append_iff hne).2 ⟨hw, hrest⟩
    | metricName => exact (Name.metricLength_append hne isSmallWord_reserved hrest).trans hw
    | functionName => exact absurd rfl ht
    | matchOperator =>
      have hmem := mem_of_matchOperator hw
      refine matchOperator_append_iff.2 ⟨hmem, ?_⟩
      rintro rfl
      exact hrest
    | aggregationOperator =>
      exact (Name.anyWordLength_append isSmallWord_aggregationOperators hrest).trans hw
    | startOrEnd => exact startOrEnd_append_iff.2 hw
    | keyword k => exact (Name.wordLength_append (isSmallWord_keyword k) hrest).trans hw
    | symbol s => exact literalLength_append_iff.2 (literalLength_iff.1 hw)

/-- A token that is read as a whole is not run into. -/
theorem stopsAt_of_length {t : Terminal} {w rest : List Char}
    (h : t.length? (w ++ rest) = some w.length)
    (hstray : t.isOpenEnded = true → endsBefore isStray rest = true)
    (hequal : t = .symbol .lss ∨ t = .symbol .gtr → endsBefore (· == '=') rest = true) :
    t.stopsAt w rest = true := by
  have hne := ne_nil_of_length h
  have stray : ∀ {p : Char → Bool}, t.isOpenEnded = true → (∀ c, p c = true → isStray c = true) →
      endsBefore p rest = true := fun ht hp => endsBefore_mono hp (hstray ht)
  have continued : t.isOpenEnded = true → endsBefore isWordPart rest = true →
      endsBefore Number.isContinued rest = true := by
    intro ht hword
    refine endsBefore_or (endsBefore_or hword (stray ht ?_)) (stray ht ?_) <;>
      intro c hc <;> simp [isStray, hc]
  cases t with
  | number => exact continued rfl (Number.endsBefore_of_tokenLength h)
  | timestamp => exact continued rfl (Number.endsBefore_of_tokenLength h)
  | duration =>
    refine endsBefore_or (Duration.endsBefore_of_tokenLength h) (stray rfl ?_)
    intro c hc
    simp [isStray, hc]
  | labelName => exact ((Name.runLength_append_iff hne).1 h).2
  | metricName =>
    have hvariant : endsBefore isVariant rest = true := stray rfl fun c hc => by simp [isStray, hc]
    refine endsBefore_mono (fun c hc => ?_)
      (endsBefore_or (Name.endsBefore_of_metricLength hne h) hvariant)
    rwa [isWordPart_eq] at hc
  | functionName =>
    exact ((Name.functionLength_append_iff hne isSmallWord_aggregationOperators).1 h).2.2
  | matchOperator =>
    by_cases hw : w = ['=']
    · simpa [stopsAt, hw] using (matchOperator_append_iff.1 h).2 hw
    · simp [stopsAt, hw]
  | aggregationOperator => exact Name.endsBefore_of_anyWordLength h
  | keyword k => exact Name.endsBefore_of_wordLength h
  | symbol s => cases s <;> first | rfl | exact hequal (by decide)
  | string => rfl
  | startOrEnd => rfl

/-- A token that is read as a whole is one by itself. -/
theorem spells_of_length {t : Terminal} {w rest : List Char}
    (h : t.length? (w ++ rest) = some w.length)
    (hstray : t.isOpenEnded = true → endsBefore isStray rest = true) : t.spells w = true := by
  have hne := ne_nil_of_length h
  have hstops := fun hequal => stopsAt_of_length h hstray hequal
  unfold spells
  split
  · have hname := (Name.functionLength_append_iff hne isSmallWord_aggregationOperators).1 h
    exact beq_iff_eq.2 ((Name.functionLength_append_iff hne isSmallWord_aggregationOperators).2
      ⟨hname.1, hname.2.1, rfl⟩)
  · next ht =>
    rw [beq_iff_eq]
    cases t with
    | number => exact (Number.tokenLength_append_iff (hstops (by simp))).1 h
    | timestamp => exact (Number.tokenLength_append_iff (hstops (by simp))).1 h
    | string => exact (Quoted.tokenLength_append_iff hne).1 h
    | duration => exact (Duration.tokenLength_append (hstops (by simp))).symm.trans h
    | labelName => exact ((Name.runLength_append_iff hne).1 h).1
    | metricName =>
      exact (Name.metricLength_append hne isSmallWord_reserved (hstops (by simp))).symm.trans h
    | functionName => exact absurd rfl ht
    | matchOperator =>
      have hmem := (matchOperator_append_iff.1 h).1
      have hself : matchOperator.length? (w ++ []) = some w.length :=
        matchOperator_append_iff.2 ⟨hmem, fun _ => rfl⟩
      rwa [List.append_nil] at hself
    | aggregationOperator =>
      exact (Name.anyWordLength_append isSmallWord_aggregationOperators
        (hstops (by simp))).symm.trans h
    | startOrEnd => exact startOrEnd_append_iff.1 h
    | keyword k =>
      exact (Name.wordLength_append (isSmallWord_keyword k) (hstops (by simp))).symm.trans h
    | symbol s => exact literalLength_iff.2 (literalLength_append_iff.1 h)

end Terminal

end PromqlGuide
