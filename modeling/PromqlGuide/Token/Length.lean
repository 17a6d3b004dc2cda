import PromqlGuide.Token.Terminal

/-!
Lengths of tokens. A reader that finds nothing but tokens inside the text stays `Within` it; if no
token is empty, it is `Advancing`. Both properties pass from the parts of a reader to the whole.

Main statements: a token lies inside the text (`Terminal.length_le`) and is never empty
(`Terminal.length_pos`).
-/
namespace PromqlGuide

open Text

/-- Whether a reader takes no more than there is. -/
def Within (r : List Char → Option Nat) : Prop := ∀ cs n, r cs = some n → n ≤ cs.length

/-- Whether a reader takes something, and no more than there is. -/
def Advancing (r : List Char → Option Nat) : Prop :=
  ∀ cs n, r cs = some n → 0 < n ∧ n ≤ cs.length

/-- A reader that takes at least one character stays in the text. -/
theorem Advancing.within {r : List Char → Option Nat} (h : Advancing r) : Within r :=
  fun cs n hn => (h cs n hn).2

/-- What the first of two readers finds, or else the second, is found by one of them. -/
theorem eq_some_of_orElse {a b : Option Nat} {n : Nat} (h : (a <|> b) = some n) :
    a = some n ∨ b = some n := by
  cases a with
  | none => exact Or.inr h
  | some m => exact Or.inl h

/-! ### Numbers -/

namespace Number

/-- The check for a boundary takes nothing. -/
theorem boundary_within : Within boundary := by
  intro cs n h
  unfold boundary at h
  split at h
  · cases h; exact Nat.zero_le _
  · cases h

/-- A reader that starts with a character takes at least that one. -/
theorem one_advancing {p : Char → Bool} {next : Reader} (h : Within next) :
    Advancing (one p next) := by
  intro cs n hn
  cases cs with
  | nil => cases hn
  | cons c rest =>
    simp only [one] at hn
    split at hn
    · obtain ⟨m, hm, rfl⟩ := Option.map_eq_some_iff.1 hn
      have := h rest m hm
      exact ⟨by omega, by simpa using this⟩
    · cases hn

/-- Any number of characters are taken from the text. -/
theorem many_within {p : Char → Bool} {next : Reader} (h : Within next) :
    Within (many p next) := by
  intro cs
  induction cs with
  | nil => exact fun n hn => h [] n hn
  | cons c rest ih =>
    intro n hn
    simp only [many] at hn
    split at hn
    · rcases eq_some_of_orElse hn with hl | hr
      · obtain ⟨m, hm, rfl⟩ := Option.map_eq_some_iff.1 hl
        simpa using ih m hm
      · exact h _ n hr
    · exact h _ n hn

/-- A reader that starts with characters takes at least one. -/
theorem many1_advancing {p : Char → Bool} {next : Reader} (h : Within next) :
    Advancing (many1 p next) := one_advancing (many_within h)

/-- Of two readers that take something the one that is used takes something. -/
theorem either_advancing {first second : Reader} (h : Advancing first) (h' : Advancing second) :
    Advancing (either first second) := by
  intro cs n hn
  rcases eq_some_of_orElse hn with hl | hr
  · exact h cs n hl
  · exact h' cs n hr

/-- Of two readers that stay in the text the one that is used stays in it. -/
theorem either_within {first second : Reader} (h : Within first) (h' : Within second) :
    Within (either first second) := by
  intro cs n hn
  rcases eq_some_of_orElse hn with hl | hr
  · exact h cs n hl
  · exact h' cs n hr

/-- A word is taken from the text. -/
theorem word_within {next : Reader} (h : Within next) (w : List Char) :
    Within (word w next) := by
  induction w with
  | nil => exact h
  | cons c w ih => exact (one_advancing ih).within

/-- A word that is not empty takes something. -/
theorem word_advancing {next : Reader} (h : Within next) (c : Char) (w : List Char) :
    Advancing (word (c :: w) next) := one_advancing (word_within h w)

/-- An exponent is taken from the text. -/
theorem exponent_within : Within exponent := by
  have digits := many1_advancing (p := isDigit) boundary_within
  have signed := (one_advancing (p := fun c => c == '+' || c == '-') digits.within).within
  exact either_within (one_advancing (either_within signed digits.within)).within boundary_within

/-- A fraction is taken from the text. -/
theorem fraction_within : Within fraction :=
  either_within (one_advancing (many_within exponent_within)).within exponent_within

/-- A decimal number has at least one character. -/
theorem decimal_advancing : Advancing decimal :=
  either_advancing (many1_advancing fraction_within)
    (one_advancing (many1_advancing exponent_within).within)

/-- A hexadecimal number has at least one character. -/
theorem hexadecimal_advancing : Advancing hexadecimal :=
  word_advancing (many1_advancing boundary_within).within _ _

/-- A number has at least one character. -/
theorem tokenLength_advancing : Advancing tokenLength? :=
  either_advancing hexadecimal_advancing
    (either_advancing decimal_advancing
      (either_advancing (word_advancing boundary_within _ _)
        (word_advancing boundary_within _ _)))

end Number

/-! ### Strings -/

namespace Quoted

/-- The rest of a quoted string ends in the text. -/
theorem bodyLength_le {quote : Char} {escaped : Bool} {cs : List Char} {n : Nat}
    (h : bodyLength quote escaped cs = some n) : n ≤ cs.length := by
  induction cs generalizing escaped n with
  | nil => cases escaped <;> simp [bodyLength] at h
  | cons c rest ih =>
    cases escaped with
    | true =>
      simp only [bodyLength] at h
      split at h
      · cases h
      · obtain ⟨m, hm, rfl⟩ := Option.map_eq_some_iff.1 h
        simpa using ih hm
    | false =>
      simp only [bodyLength] at h
      split at h
      · cases h; simp
      · split at h
        · cases h
        · obtain ⟨m, hm, rfl⟩ := Option.map_eq_some_iff.1 h
          simpa using ih hm

/-- The rest of a raw string ends in the text. -/
theorem rawLength_le {cs : List Char} {n : Nat} (h : rawLength cs = some n) : n ≤ cs.length := by
  induction cs generalizing n with
  | nil => cases h
  | cons c rest ih =>
    simp only [rawLength] at h
    split at h
    · cases h; simp
    · obtain ⟨m, hm, rfl⟩ := Option.map_eq_some_iff.1 h
      simpa using ih hm

/-- A string has at least one character. -/
theorem tokenLength_advancing : Advancing tokenLength? := by
  intro cs n h
  cases cs with
  | nil => cases h
  | cons c rest =>
    simp only [tokenLength?] at h
    split at h
    · obtain ⟨m, hm, rfl⟩ := Option.map_eq_some_iff.1 h
      exact ⟨by omega, by simpa using bodyLength_le hm⟩
    · split at h
      · obtain ⟨m, hm, rfl⟩ := Option.map_eq_some_iff.1 h
        exact ⟨by omega, by simpa using rawLength_le hm⟩
      · cases h

end Quoted

/-! ### Durations -/

namespace Duration

/-- A run of parts ends in the text, be it here or further on. -/
theorem endOr_le {rest : List Char} {further : Option Nat} {n : Nat}
    (hf : ∀ m, further = some m → m ≤ rest.length) (h : tokenRun.endOr rest further = some n) :
    n ≤ rest.length := by
  unfold tokenRun.endOr at h
  split at h
  · cases h; exact hf _ rfl
  · split at h
    · cases h; exact Nat.zero_le _
    · cases h

/-- A run of parts has at least one character and ends in the text. -/
theorem tokenRun_bounds {inRun : Bool} {cs : List Char} {n : Nat}
    (h : tokenRun inRun cs = some n) : 0 < n ∧ n ≤ cs.length := by
  fun_induction tokenRun inRun cs generalizing n with
  | case1 => cases h
  | case2 rest ih =>
    obtain ⟨m, hm, rfl⟩ := Option.map_eq_some_iff.1 h
    have := endOr_le (fun k hk => (ih hk).2) hm
    exact ⟨by omega, by simpa using this⟩
  | case3 => cases h
  | case4 _ _ _ _ _ ih =>
    obtain ⟨m, hm, rfl⟩ := Option.map_eq_some_iff.1 h
    exact ⟨by omega, by simpa using (ih hm).2⟩
  | case5 _ _ _ _ _ _ ih =>
    obtain ⟨m, hm, rfl⟩ := Option.map_eq_some_iff.1 h
    have := endOr_le (fun k hk => (ih hk).2) hm
    exact ⟨by omega, by simpa using this⟩
  | case6 => cases h

/-- A duration has at least one character. -/
theorem tokenLength_advancing : Advancing tokenLength? := fun _ _ h => tokenRun_bounds h

end Duration

/-! ### Names and words -/

namespace Name

/-- A run of name characters has at least one. -/
theorem runLength_advancing (start part : Char → Bool) : Advancing (runLength? start part) := by
  intro cs n h
  cases cs with
  | nil => cases h
  | cons c rest =>
    simp only [runLength?] at h
    split at h
    · cases h
      exact ⟨by omega, by simpa using (List.takeWhile_prefix part).length_le⟩
    · cases h

/-- The name of a metric has at least one character. -/
theorem metricLength_advancing (reserved : List (List Char)) :
    Advancing (metricLength? reserved) := by
  intro cs n h
  unfold metricLength? at h
  split at h
  · cases h
  · exact runLength_advancing _ _ cs n h

/-- The name of a function has at least one character. -/
theorem functionLength_advancing (reserved : List (List Char)) :
    Advancing (functionLength? reserved) := by
  intro cs n h
  unfold functionLength? at h
  split at h
  · cases h
  · split at h
    · cases h
    · next hm =>
      split at h
      · cases h
        exact runLength_advancing _ _ cs _ hm
      · cases h

/-- A word that is found has its own length. -/
theorem wordLength_bounds {w cs : List Char} {n : Nat} (h : wordLength? w cs = some n) :
    n = w.length ∧ n ≤ cs.length := by
  unfold wordLength? at h
  split at h
  · next hw =>
    cases h
    exact ⟨rfl, startsWithWord_length (Bool.and_eq_true_iff.1 hw).1⟩
  · cases h

/-- A word that is not empty takes something. -/
theorem wordLength_advancing {w : List Char} (hw : w ≠ []) : Advancing (wordLength? w) := by
  intro cs n h
  obtain ⟨rfl, hle⟩ := wordLength_bounds h
  exact ⟨List.length_pos_iff.2 hw, hle⟩

/-- One of several words takes something if none of them is empty. -/
theorem anyWordLength_advancing {words : List (List Char)} (hw : ∀ w ∈ words, w ≠ []) :
    Advancing (anyWordLength? words) := by
  intro cs n h
  obtain ⟨w, hmem, hn⟩ := List.exists_of_findSome?_eq_some h
  exact wordLength_advancing (hw w hmem) cs n hn

/-- A call without arguments has at least its parentheses. -/
theorem emptyCallLength_advancing (w : List Char) : Advancing (emptyCallLength? w) := by
  intro cs n h
  unfold emptyCallLength? at h
  split at h
  · split at h
    · next inside hi =>
      split at h
      · next rest hr =>
        cases h
        have h1 := (List.dropWhile_suffix (l := cs.drop w.length) isSpace).length_le
        have h2 := (List.dropWhile_suffix (l := inside) isSpace).length_le
        rw [hi] at h1
        rw [hr] at h2
        simp only [List.length_cons, List.length_drop] at h1 h2
        exact ⟨by omega, by omega⟩
      · cases h
    · cases h
  · cases h

end Name

/-! ### All tokens -/

namespace Terminal

/-- A literal that is not empty takes something. -/
theorem literalLength_advancing {literal : List Char} (hl : literal ≠ []) :
    Advancing (literalLength? literal) := by
  intro cs n h
  unfold literalLength? at h
  split at h
  · next hp =>
    cases h
    exact ⟨List.length_pos_iff.2 hl, (List.isPrefixOf_iff_prefix.1 hp).length_le⟩
  · cases h

/-- No keyword is empty. -/
theorem keyword_letters_ne_nil (k : Keyword) : k.letters ≠ [] := by
  cases k <;> simp [Keyword.letters]

/-- No symbol is empty. -/
theorem symbol_letters_ne_nil (s : Symbol) : s.letters ≠ [] := by
  cases s <;> simp [Symbol.letters]

/-- The reader of every token takes something, and no more than there is. -/
theorem length_advancing (t : Terminal) : Advancing t.length? := by
  cases t with
  | number => exact Number.tokenLength_advancing
  | timestamp => exact Number.tokenLength_advancing
  | string => exact Quoted.tokenLength_advancing
  | duration => exact Duration.tokenLength_advancing
  | labelName => exact Name.runLength_advancing _ _
  | metricName => exact Name.metricLength_advancing _
  | functionName => exact Name.functionLength_advancing _
  | matchOperator =>
    intro cs n h
    obtain ⟨w, hmem, hn⟩ := List.exists_of_findSome?_eq_some h
    exact literalLength_advancing (by rintro rfl; revert hmem; decide) cs n hn
  | aggregationOperator => exact Name.anyWordLength_advancing (by decide)
  | startOrEnd =>
    intro cs n h
    rcases eq_some_of_orElse h with hl | hr
    · exact Name.emptyCallLength_advancing _ cs n hl
    · exact Name.emptyCallLength_advancing _ cs n hr
  | keyword k => exact Name.wordLength_advancing (keyword_letters_ne_nil k)
  | symbol s => exact literalLength_advancing (symbol_letters_ne_nil s)

/-- A token is never empty. -/
theorem length_pos {t : Terminal} {cs : List Char} {n : Nat} (h : t.length? cs = some n) :
    0 < n := (length_advancing t cs n h).1

/-- A token lies inside the text. -/
theorem length_le {t : Terminal} {cs : List Char} {n : Nat} (h : t.length? cs = some n) :
    n ≤ cs.length := (length_advancing t cs n h).2

end Terminal

end PromqlGuide
