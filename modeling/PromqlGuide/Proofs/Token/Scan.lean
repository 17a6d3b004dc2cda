import PromqlGuide.Proofs.Text.Scan
import PromqlGuide.Proofs.Token.Wordy

/-!
# Scanning tokens

A token that is no string holds neither a comment mark nor a quote, and a string ends at its closing
quote.  So behind a token the scanner stands outside of comments and strings again, and inside a
token it never stands outside in front of a comment mark (`Terminal.isScanned_of_spells`).  The last
character of a token is visible (`IsTokenText.not_isSpace_getLast`), and no backslash.
-/
namespace PromqlGuide

open Text ScanState

/-! ### Numbers -/

namespace Number

variable {p q : Char → Bool} {next : Reader}

/-- Whether all characters that a reader takes are in a class. -/
def Takes (p : Char → Bool) (r : Reader) : Prop :=
  ∀ cs n, r cs = some n → ∀ c ∈ cs.take n, p c = true

/-- The end of a word takes no character. -/
lemma takes_boundary : Takes p boundary := by
  intro cs n h
  unfold boundary at h
  split_ifs at h
  cases h
  simp

/-- A reader of one character keeps to a class if that character and the next reader do. -/
lemma takes_one (hpq : ∀ c, q c = true → p c = true) (h : Takes p next) : Takes p (one q next) := by
  intro cs n hone
  cases cs with
  | nil => cases hone
  | cons c cs =>
    simp only [one] at hone
    split_ifs at hone with hc
    obtain ⟨m, hm, rfl⟩ := Option.map_eq_some_iff.1 hone
    rw [List.take_succ_cons]
    exact List.forall_mem_cons.2 ⟨hpq c hc, h cs m hm⟩

/-- A reader of any number of characters keeps to a class if these and the next reader do. -/
lemma takes_many (hpq : ∀ c, q c = true → p c = true) (h : Takes p next) :
    Takes p (many q next) := by
  intro cs
  induction cs with
  | nil => exact h []
  | cons c cs ih =>
    intro n hmany
    simp only [many] at hmany
    split_ifs at hmany with hc
    · rcases eq_some_of_orElse hmany with hmany | hnext
      · obtain ⟨m, hm, rfl⟩ := Option.map_eq_some_iff.1 hmany
        rw [List.take_succ_cons]
        exact List.forall_mem_cons.2 ⟨hpq c hc, ih m hm⟩
      · exact h _ _ hnext
    · exact h _ _ hmany

/-- A reader of some characters keeps to a class if these and the next reader do. -/
lemma takes_many1 (hpq : ∀ c, q c = true → p c = true) (h : Takes p next) :
    Takes p (many1 q next) :=
  takes_one hpq (takes_many hpq h)

/-- A choice keeps to a class if both readers do. -/
lemma takes_either {first second : Reader} (h₁ : Takes p first) (h₂ : Takes p second) :
    Takes p (either first second) := fun cs n h =>
  (eq_some_of_orElse h).elim (h₁ cs n) (h₂ cs n)

/-- A reader of a word keeps to a class that has all variants of its letters, if the next reader
does. -/
lemma takes_word {w : List Char} (hw : ∀ a ∈ w, ∀ c, foldsTo a c = true → p c = true)
    (h : Takes p next) : Takes p (word w next) := by
  induction w with
  | nil => exact h
  | cons a w ih =>
    exact takes_one (hw a List.mem_cons_self) (ih fun b hb => hw b (List.mem_cons_of_mem a hb))

/-- The characters of numbers. -/
def isNumberPart (c : Char) : Bool := isContinued c || c == '+' || c == '-'

/-- Whitespace is no part of a number. -/
lemma not_isNumberPart_of_isSpace {c : Char} (h : isSpace c = true) : isNumberPart c = false := by
  simp only [isNumberPart, isContinued, not_isWordPart_of_isSpace h, not_isDigit_of_isSpace h,
    Bool.false_or, Bool.or_eq_false_iff, beq_eq_false_iff_ne]
  refine ⟨⟨?_, ?_⟩, ?_⟩ <;> rintro rfl <;> cases h

/-- A number has only characters of numbers. -/
lemma takes_tokenLength : Takes isNumberPart tokenLength? := by
  have continued : ∀ {q : Char → Bool}, (∀ c, q c = true → isContinued c = true) →
      ∀ c, q c = true → isNumberPart c = true := fun hq c hc => by simp [isNumberPart, hq c hc]
  have small : ∀ {w : List Char}, isSmallWord w = true → ∀ a ∈ w, ∀ c, foldsTo a c = true →
      isNumberPart c = true := fun hw a ha =>
    continued fun c hc => isContinued_of_foldsTo (List.all_eq_true.1 hw a ha) hc
  have digits : ∀ {next : Reader}, Takes isNumberPart next →
      Takes isNumberPart (many1 isDigit next) :=
    takes_many1 (continued fun _ => isContinued_of_isDigit)
  have hexponent : Takes isNumberPart exponent := by
    refine takes_either (takes_one (small (w := ['e']) (by decide) 'e' (by simp)) ?_) takes_boundary
    refine takes_either (takes_one (fun c hc => ?_) (digits takes_boundary)) (digits takes_boundary)
    rcases Bool.or_eq_true_iff.1 hc with hc | hc <;> simp [isNumberPart, hc]
  have hpoint : ∀ c, (c == '.') = true → isNumberPart c = true :=
    continued fun c hc => by simp [isContinued, hc]
  have hfraction : Takes isNumberPart fraction :=
    takes_either
      (takes_one hpoint (takes_many (continued fun _ => isContinued_of_isDigit) hexponent))
      hexponent
  have hhexadecimal : Takes isNumberPart hexadecimal :=
    takes_word (small (by decide))
      (takes_many1 (continued fun _ => isContinued_of_isHexDigit) takes_boundary)
  have hdecimal : Takes isNumberPart decimal :=
    takes_either (digits hfraction) (takes_one hpoint (digits hexponent))
  exact takes_either hhexadecimal (takes_either hdecimal
    (takes_either (takes_word (small (by decide)) takes_boundary)
      (takes_word (small (by decide)) takes_boundary)))

end Number

/-! ### Durations -/

namespace Duration

/-- A duration ends behind its further parts, or here. -/
lemma endOr_cases {rest : List Char} {further : Option Nat} {n : Nat}
    (h : tokenRun.endOr rest further = some n) : further = some n ∨ n = 0 := by
  unfold tokenRun.endOr at h
  split at h
  · exact Or.inl h
  · split_ifs at h
    exact Or.inr (Option.some.inj h).symm

/-- The characters of a duration are those that continue one. -/
lemma isContinued_of_tokenRun {inRun : Bool} {cs : List Char} {n : Nat}
    (h : tokenRun inRun cs = some n) : ∀ c ∈ cs.take n, isContinued c = true := by
  have behind : ∀ {rest : List Char} {m : Nat},
      (∀ k, tokenRun false rest = some k → ∀ c ∈ rest.take k, isContinued c = true) →
      tokenRun.endOr rest (tokenRun false rest) = some m →
        ∀ c ∈ rest.take m, isContinued c = true := by
    intro rest m ih hm
    rcases endOr_cases hm with hfurther | rfl
    · exact ih m hfurther
    · simp
  fun_induction tokenRun inRun cs generalizing n with
  | case1 | case3 | case6 => cases h
  | case2 rest ih =>
    obtain ⟨m, hm, rfl⟩ := Option.map_eq_some_iff.1 h
    simp only [List.take_succ_cons, List.forall_mem_cons]
    exact ⟨by decide, by decide, behind (fun k => ih) hm⟩
  | case4 inRun c rest _ hdigit ih =>
    obtain ⟨m, hm, rfl⟩ := Option.map_eq_some_iff.1 h
    simp only [List.take_succ_cons, List.forall_mem_cons]
    exact ⟨by simp [isContinued, hdigit], ih hm⟩
  | case5 inRun c rest _ _ hunit ih =>
    obtain ⟨m, hm, rfl⟩ := Option.map_eq_some_iff.1 h
    simp only [List.take_succ_cons, List.forall_mem_cons]
    exact ⟨by simp [isContinued, isNamePart_of_first? (Bool.and_eq_true_iff.1 hunit).2],
      behind (fun k => ih) hm⟩

end Duration

/-! ### Strings -/

namespace Quoted

/-- Whether the scanner, inside of a string, comes to stand outside exactly at the end of a text. -/
def EndsAt (s : ScanState) (cs : List Char) : Prop :=
  s.scan cs = outside ∧ ∀ us vs, cs = us ++ vs → vs ≠ [] → s.scan us ≠ outside

/-- A string ends where what follows its first character does. -/
lemma endsAt_cons {s : ScanState} {c : Char} {cs : List Char} (hs : s ≠ outside)
    (h : EndsAt (s.step c) cs) : EndsAt s (c :: cs) := by
  refine ⟨h.1, fun us vs heq hvs => ?_⟩
  cases us with
  | nil => exact hs
  | cons u us =>
    obtain ⟨rfl, hrest⟩ := List.cons.inj heq
    exact h.2 us vs hrest hvs

/-- A string ends at the character that leads outside. -/
lemma endsAt_singleton {s : ScanState} {c : Char} (hs : s ≠ outside) (h : s.step c = outside) :
    EndsAt s [c] :=
  endsAt_cons hs ⟨h, fun _ _ heq hvs => absurd (List.append_eq_nil_iff.1 heq.symm).2 hvs⟩

/-- A string in quotes ends where the scanner comes outside. -/
lemma endsAt_of_bodyLength {quote : Char} {escaped : Bool} {cs : List Char}
    (h : bodyLength quote escaped cs = some cs.length) : EndsAt (.quoted quote escaped) cs := by
  induction cs generalizing escaped with
  | nil => exact absurd (bodyLength_pos h) (Nat.lt_irrefl 0)
  | cons c cs ih =>
    cases escaped with
    | true =>
      simp only [bodyLength, List.length_cons] at h
      split_ifs at h
      simp only [Option.map_eq_some_iff, Nat.add_right_cancel_iff, exists_eq_right] at h
      exact endsAt_cons (by simp) (ih h)
    | false =>
      simp only [bodyLength, List.length_cons] at h
      split_ifs at h with hquote
      · obtain rfl : cs = [] := by simpa using h
        exact endsAt_singleton (by simp) (by simp [step, hquote])
      · simp only [Option.map_eq_some_iff, Nat.add_right_cancel_iff, exists_eq_right] at h
        refine endsAt_cons (by simp) ?_
        rw [step, if_neg hquote]
        exact ih h

/-- A raw string ends where the scanner comes outside. -/
lemma endsAt_of_rawLength {cs : List Char} (h : rawLength cs = some cs.length) :
    EndsAt .raw cs := by
  induction cs with
  | nil => cases h
  | cons c cs ih =>
    simp only [rawLength, List.length_cons] at h
    split_ifs at h with hquote
    · obtain rfl : cs = [] := by simpa using h
      exact endsAt_singleton (by simp) (by simp [step, hquote])
    · simp only [Option.map_eq_some_iff, Nat.add_right_cancel_iff, exists_eq_right] at h
      refine endsAt_cons (by simp) ?_
      rw [step, if_neg hquote]
      exact ih h

/-- A string in quotes ends with its quote. -/
lemma exists_body_of_bodyLength {quote : Char} {escaped : Bool} {cs : List Char}
    (h : bodyLength quote escaped cs = some cs.length) : ∃ body, cs = body ++ [quote] := by
  induction cs generalizing escaped with
  | nil => cases escaped <;> cases h
  | cons c cs ih =>
    cases escaped with
    | true =>
      simp only [bodyLength, List.length_cons] at h
      split_ifs at h
      simp only [Option.map_eq_some_iff, Nat.add_right_cancel_iff, exists_eq_right] at h
      obtain ⟨body, rfl⟩ := ih h
      exact ⟨c :: body, rfl⟩
    | false =>
      simp only [bodyLength, List.length_cons] at h
      split_ifs at h with hquote
      · obtain rfl : cs = [] := by simpa using h
        exact ⟨[], by rw [hquote]; rfl⟩
      · simp only [Option.map_eq_some_iff, Nat.add_right_cancel_iff, exists_eq_right] at h
        obtain ⟨body, rfl⟩ := ih h
        exact ⟨c :: body, rfl⟩

/-- A raw string ends with a backtick. -/
lemma exists_body_of_rawLength {cs : List Char} (h : rawLength cs = some cs.length) :
    ∃ body, cs = body ++ ['\x60'] := by
  induction cs with
  | nil => cases h
  | cons c cs ih =>
    simp only [rawLength, List.length_cons] at h
    split_ifs at h with hquote
    · obtain rfl : cs = [] := by simpa using h
      exact ⟨[], by rw [hquote]; rfl⟩
    · simp only [Option.map_eq_some_iff, Nat.add_right_cancel_iff, exists_eq_right] at h
      obtain ⟨body, rfl⟩ := ih h
      exact ⟨c :: body, rfl⟩

/-- A string stands between two quotes that are the same. -/
lemma exists_quote_of_tokenLength {w : List Char} (h : tokenLength? w = some w.length) :
    ∃ quote ∈ ['"', '\'', '\x60'], ∃ body, w = quote :: (body ++ [quote]) := by
  cases w with
  | nil => cases h
  | cons c w =>
    simp only [tokenLength?, List.length_cons] at h
    split_ifs at h with hquote hraw
    · simp only [Option.map_eq_some_iff, Nat.add_right_cancel_iff, exists_eq_right] at h
      obtain ⟨body, rfl⟩ := exists_body_of_bodyLength h
      refine ⟨c, ?_, body, rfl⟩
      rcases hquote with rfl | rfl <;> simp
    · simp only [Option.map_eq_some_iff, Nat.add_right_cancel_iff, exists_eq_right] at h
      obtain ⟨body, rfl⟩ := exists_body_of_rawLength h
      exact ⟨'\x60', by simp, body, by rw [hraw]⟩

end Quoted

/-! ### Scanned texts -/

/-- Whether the scanner passes a text from outside to outside, and stands inside in front of every
comment mark in it. -/
def IsScanned (w : List Char) : Prop :=
  outside.scan w = outside ∧ ∀ us vs, w = us ++ '#' :: vs → outside.scan us ≠ outside

/-- The scanner passes a text without comment marks and quotes. -/
lemma isScanned_of_quiet {w : List Char} (h : ∀ c ∈ w, c ∉ openers) : IsScanned w := by
  refine ⟨scan_outside h, fun us vs heq => absurd (h '#' ?_) (by decide)⟩
  simp [heq]

/-- The scanner passes a text of characters that open nothing. -/
lemma isScanned_of_class {p : Char → Bool} (hp : openers.any p = false) {w : List Char}
    (h : ∀ c ∈ w, p c = true) : IsScanned w :=
  isScanned_of_quiet fun c hc => not_mem_openers hp (h c hc)

/-- The scanner passes a string, and stands inside in front of every comment mark in it. -/
lemma isScanned_string {w : List Char} (h : Quoted.tokenLength? w = some w.length) :
    IsScanned w := by
  cases w with
  | nil => cases h
  | cons c w =>
    have hends : outside.step c ≠ outside ∧ Quoted.EndsAt (outside.step c) w ∧ c ≠ '#' := by
      simp only [Quoted.tokenLength?, List.length_cons] at h
      split_ifs at h with hquote hraw
      · simp only [Option.map_eq_some_iff, Nat.add_right_cancel_iff, exists_eq_right] at h
        have hmark : c ≠ '#' := by rcases hquote with rfl | rfl <;> decide
        have hstep : outside.step c = .quoted c false := by simp [step, hmark, hquote]
        rw [hstep]
        exact ⟨by simp, Quoted.endsAt_of_bodyLength h, hmark⟩
      · simp only [Option.map_eq_some_iff, Nat.add_right_cancel_iff, exists_eq_right] at h
        subst hraw
        exact ⟨by decide, Quoted.endsAt_of_rawLength h, by decide⟩
    obtain ⟨hinside, hends, hmark⟩ := hends
    refine ⟨hends.1, fun us vs heq => ?_⟩
    cases us with
    | nil => exact absurd (List.cons.inj heq).1 hmark
    | cons u us =>
      obtain ⟨rfl, hrest⟩ := List.cons.inj heq
      exact hends.2 us _ hrest (by simp)

/-- A word with empty parentheses. -/
lemma isScanned_emptyCall {word w : List Char} (hword : isSmallWord word = true)
    (h : Name.emptyCallLength? word w = some w.length) : IsScanned w := by
  obtain ⟨first, s₁, s₂, rest, rfl, hlength, hfirst, hs₁, hs₂, hrest⟩ :=
    Name.emptyCallLength_eq_some_iff.1 h
  obtain rfl : rest = [] := by simpa using hrest
  have hquiet := Name.isWord_of_startsWithWord hword hfirst hlength.symm
  refine isScanned_of_class (p := fun c => isWordPart c || isSpace c || c == '(' || c == ')')
    (by decide) ?_
  simp only [List.forall_mem_append, List.forall_mem_cons]
  exact ⟨fun c hc => by simp [List.all_eq_true.1 hquiet c hc], fun c hc => by simp [hs₁ c hc], rfl,
    fun c hc => by simp [hs₂ c hc], rfl, nofun⟩

/-! ### Characters of tokens -/

/-- The signs that operators are written with. -/
def operatorSigns : List Char := ['+', '-', '*', '/', '%', '^', '=', '!', '<', '>', '@', '~']

/-- The characters of tokens that are neither strings nor words with empty parentheses. -/
def isTokenPart (c : Char) : Bool := Number.isNumberPart c || decide (c ∈ operatorSigns)

/-- A character of a number is one of a token. -/
lemma isTokenPart_of_isNumberPart {c : Char} (h : Number.isNumberPart c = true) :
    isTokenPart c = true := by
  simp [isTokenPart, h]

/-- A character of a word is one of a token. -/
lemma isTokenPart_of_isWordPart {c : Char} (h : isWordPart c = true) : isTokenPart c = true :=
  isTokenPart_of_isNumberPart (by simp [Number.isNumberPart, Number.isContinued, h])

/-- Whether all characters of a text are visible ones that start neither a comment nor a string. -/
def IsPlain (w : List Char) : Prop := ∀ c ∈ w, c ∉ openers ∧ isSpace c = false

/-- A text of characters of tokens is plain. -/
lemma isPlain_of_isTokenPart {w : List Char} (h : ∀ c ∈ w, isTokenPart c = true) : IsPlain w := by
  have hvisible : ∀ c ∈ operatorSigns, isSpace c = false := by decide
  intro c hc
  refine ⟨not_mem_openers (p := isTokenPart) (by decide +kernel) (h c hc), ?_⟩
  cases hblank : isSpace c with
  | false => rfl
  | true =>
    have hpart := h c hc
    rw [isTokenPart, Number.not_isNumberPart_of_isSpace hblank, Bool.false_or] at hpart
    rw [← hblank, hvisible c (of_decide_eq_true hpart)]

/-- What a token is: plain text, a string, or a word with empty parentheses. -/
inductive IsTokenText (w : List Char) : Prop where
  | plain : IsPlain w → IsTokenText w
  | string : Quoted.tokenLength? w = some w.length → IsTokenText w
  | emptyCall {word : List Char} : isSmallWord word = true →
      Name.emptyCallLength? word w = some w.length → IsTokenText w

namespace Terminal

variable {t : Terminal} {w rest : List Char}

/-- A number, a duration and a metric name have only characters of tokens. -/
lemma isTokenPart_of_openEnded (ht : t.isOpenEnded = true)
    (h : t.length? (w ++ rest) = some w.length) : ∀ c ∈ w, isTokenPart c = true := by
  cases t with
  | number | timestamp =>
    have htakes := Number.takes_tokenLength (w ++ rest) w.length h
    rw [List.take_left] at htakes
    exact fun c hc => isTokenPart_of_isNumberPart (htakes c hc)
  | duration =>
    have htakes := Duration.isContinued_of_tokenRun h
    rw [List.take_left] at htakes
    intro c hc
    rcases Bool.or_eq_true_iff.1 (htakes c hc) with hname | hdigit
    · exact isTokenPart_of_isWordPart (Name.isWordPart_of_isNamePart hname)
    · exact isTokenPart_of_isNumberPart (by simp [Number.isNumberPart, Number.isContinued, hdigit])
  | metricName =>
    have hname : Name.metricLength? _ (w ++ rest) = some w.length := h
    unfold Name.metricLength? at hname
    split_ifs at hname
    have hrun := ((Name.runLength_append_iff (ne_nil_of_length h)).1 hname).1
    have hword := Name.isWord_of_runLength
      (fun _ hc => isWordPart_of_isMetricPart (isMetricPart_of_isMetricStart hc))
      (fun _ => isWordPart_of_isMetricPart) hrun
    exact fun c hc => isTokenPart_of_isWordPart (List.all_eq_true.1 hword c hc)
  | string | labelName | functionName | matchOperator | aggregationOperator | startOrEnd
  | keyword k | symbol s => cases ht

/-- A token is made of the characters of names, numbers and operators, or else is a string or a word
with empty parentheses. -/
lemma isTokenPart_of_spells (h : t.spells w = true) : (∀ c ∈ w, isTokenPart c = true) ∨
    Quoted.tokenLength? w = some w.length ∨
      ∃ word, isSmallWord word = true ∧ Name.emptyCallLength? word w = some w.length := by
  by_cases hwordy : t.isWordy = true ∧ t ≠ .number ∧ t ≠ .timestamp
  · have hword := isWord_of_name hwordy.1 hwordy.2.1 hwordy.2.2 h
    exact Or.inl fun c hc => isTokenPart_of_isWordPart (List.all_eq_true.1 hword c hc)
  have hlength : t ≠ .functionName → t.length? (w ++ []) = some w.length := by
    intro hname
    rw [List.append_nil]
    unfold spells at h
    split at h
    · exact absurd rfl hname
    · exact beq_iff_eq.1 h
  cases t with
  | number | timestamp | duration =>
    exact Or.inl (isTokenPart_of_openEnded (by rfl) (hlength nofun))
  | string => exact Or.inr (Or.inl (beq_iff_eq.1 h))
  | matchOperator =>
    have hsigns : ∀ v ∈ matchOperators, ∀ c ∈ v, isTokenPart c = true := by decide
    exact Or.inl (hsigns w (mem_of_matchOperator (beq_iff_eq.1 h)))
  | startOrEnd =>
    rcases startOrEnd_eq_some_iff.1 (beq_iff_eq.1 h) with h | h
    · exact Or.inr (Or.inr ⟨_, by decide, h⟩)
    · exact Or.inr (Or.inr ⟨_, by decide, h⟩)
  | symbol s =>
    rw [literalLength_iff.1 (beq_iff_eq.1 h)]
    have hsigns : ∀ s ∈ Symbol.all, ∀ c ∈ s.letters, isTokenPart c = true := by decide
    exact Or.inl (hsigns s (by cases s <;> decide))
  | labelName | metricName | functionName | aggregationOperator | keyword k =>
    exact absurd ⟨rfl, nofun, nofun⟩ hwordy

/-- What spells a token is plain, a string, or a word with empty parentheses. -/
lemma isTokenText_of_spells (h : t.spells w = true) : IsTokenText w := by
  rcases isTokenPart_of_spells h with hpart | hstring | ⟨word, hword, hcall⟩
  · exact .plain (isPlain_of_isTokenPart hpart)
  · exact .string hstring
  · exact .emptyCall hword hcall

/-- A text that is read as a token, in front of whatever else, is made of what tokens are made
of. -/
lemma isTokenText_of_length (h : t.length? (w ++ rest) = some w.length) : IsTokenText w := by
  by_cases ht : t.isOpenEnded = true
  · exact .plain (isPlain_of_isTokenPart (isTokenPart_of_openEnded ht h))
  · exact isTokenText_of_spells (spells_of_length h fun hopen => absurd hopen ht)

end Terminal

/-- What a token is made of is scanned from outside to outside. -/
theorem IsTokenText.isScanned {w : List Char} (h : IsTokenText w) : IsScanned w := by
  cases h with
  | plain hplain => exact isScanned_of_quiet fun c hc => (hplain c hc).1
  | string hstring => exact isScanned_string hstring
  | emptyCall hword hcall => exact isScanned_emptyCall hword hcall

/-- A string ends with a quote. -/
lemma mem_quotes_of_getLast {w : List Char} (h : Quoted.tokenLength? w = some w.length) :
    ∀ c ∈ w.getLast?, c ∈ ['"', '\'', '\x60'] := by
  intro c hc
  obtain ⟨quote, hquote, body, rfl⟩ := Quoted.exists_quote_of_tokenLength h
  rw [← List.cons_append, List.getLast?_concat] at hc
  exact Option.some.inj hc ▸ hquote

/-- A word with empty parentheses ends with a parenthesis. -/
lemma eq_parenthesis_of_getLast {word w : List Char}
    (h : Name.emptyCallLength? word w = some w.length) : ∀ c ∈ w.getLast?, c = ')' := by
  intro c hc
  obtain ⟨first, s₁, s₂, rest, rfl, -, -, -, -, hrest⟩ := Name.emptyCallLength_eq_some_iff.1 h
  obtain rfl : rest = [] := by simpa using hrest
  have hend : first ++ (s₁ ++ '(' :: (s₂ ++ [')'])) = (first ++ s₁ ++ '(' :: s₂) ++ [')'] := by
    simp
  rw [hend, List.getLast?_concat] at hc
  exact (Option.some.inj hc).symm

/-- A token ends with a visible character. -/
theorem IsTokenText.not_isSpace_getLast {w : List Char} (h : IsTokenText w) :
    ∀ c ∈ w.getLast?, isSpace c = false := by
  intro c hc
  cases h with
  | plain hplain => exact (hplain c (List.mem_of_getLast? hc)).2
  | string hstring =>
    have hvisible : ∀ quote ∈ ['"', '\'', '\x60'], isSpace quote = false := by decide
    exact hvisible c (mem_quotes_of_getLast hstring c hc)
  | emptyCall hword hcall =>
    rw [eq_parenthesis_of_getLast hcall c hc]
    decide

/-- A token ends neither with a backslash nor with the end of a line. -/
theorem Terminal.ne_of_getLast {t : Terminal} {w : List Char} (h : t.spells w = true) :
    ∀ c ∈ w.getLast?, c ≠ '\\' ∧ c ≠ '\n' := by
  intro c hc
  have hslash : c ≠ '\\' := by
    rintro rfl
    rcases isTokenPart_of_spells h with hpart | hstring | ⟨word, -, hcall⟩
    · exact absurd (hpart '\\' (List.mem_of_getLast? hc)) (by decide)
    · exact absurd (mem_quotes_of_getLast hstring '\\' hc) (by decide)
    · exact absurd (eq_parenthesis_of_getLast hcall '\\' hc) (by decide)
  have hline : c ≠ '\n' := by
    rintro rfl
    exact absurd ((isTokenText_of_spells h).not_isSpace_getLast '\n' hc) (by decide)
  exact ⟨hslash, hline⟩

/-- A token is scanned from outside to outside. -/
theorem Terminal.isScanned_of_spells {t : Terminal} {w : List Char} (h : t.spells w = true) :
    IsScanned w :=
  (isTokenText_of_spells h).isScanned

end PromqlGuide
