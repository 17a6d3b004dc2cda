import PromqlGuide.Proofs.Grammar.Parallel
import PromqlGuide.Proofs.Query.Answers
import PromqlGuide.Proofs.Written.Comment

/-!
# Where queries are rejected

The *boundaries* of a query are the positions that its tokens and marks lead to, one after the other
from its start, whichever of them the grammar would have at a place.  A query is rejected at one of
them, or where the text behind one of them starts, and never in the middle of the blank text behind
one (`Query.boundary_of_rejected`).

The reader stands at a boundary all the time, which is a fact about tokens and marks alone.  That
boundaries keep out of blank text is told by the scanner: at a boundary it stands outside of
comments and strings, and no token ends with whitespace.
-/
namespace PromqlGuide

open Text ScanState

/-- Where the text behind a position starts that is no blank text. -/
def visibleFrom (query : List Char) (position : Nat) : Nat :=
  position + blankLength (query.drop position)

/-- The positions that the tokens and marks of a query lead to. -/
inductive Boundary (query : List Char) : Nat → Prop where
  | start : Boundary query 0
  | behind {i n : Nat} {x : Lexical} : Boundary query i → x.isUsed = true →
      x.length? (query.drop (visibleFrom query i)) = some n →
      Boundary query (visibleFrom query i + n)

namespace Lexical

variable {x : Lexical} {cs : List Char} {n : Nat}

/-- A lexeme has at least one character and ends in the text. -/
lemma length_advancing (h : x.length? cs = some n) : 0 < n ∧ n ≤ cs.length := by
  cases x with
  | token t => exact Terminal.length_advancing t cs n h
  | mark c => exact Terminal.literalLength_advancing (by simp) cs n h

/-- What is read of a lexeme is its text. -/
lemma isTokenText_of_length (hx : x.isUsed = true) (h : x.length? cs = some n) :
    IsTokenText (cs.take n) := by
  have hlength : (cs.take n).length = n := by
    rw [List.length_take, Nat.min_eq_left (length_advancing h).2]
  have hfound : x.length? (cs.take n ++ cs.drop n) = some (cs.take n).length := by
    rw [List.take_append_drop, hlength, h]
  cases x with
  | token t => exact Terminal.isTokenText_of_length hfound
  | mark c =>
    rw [Terminal.literalLength_append_iff.1 hfound]
    have hplain : ∀ d ∈ marks, ∀ e ∈ [d], e ∉ openers ∧ isSpace e = false := by decide
    exact .plain (hplain c (of_decide_eq_true hx))

end Lexical

/-! ### Blank text -/

namespace Text

/-- A gap ends with whitespace. -/
lemma isSpace_getLast_of_closesBlank {inComment : Bool} {cs : List Char}
    (h : closesBlank inComment cs = true) : ∀ c ∈ cs.getLast?, isSpace c = true := by
  induction cs generalizing inComment with
  | nil => simp
  | cons d cs ih =>
    intro c hc
    cases cs with
    | nil =>
      obtain rfl : d = c := by simpa using hc
      cases inComment with
      | true =>
        simp only [closesBlank] at h
        cases hnew : d != '\n' with
        | false =>
          rw [bne_eq_false_iff_eq.1 hnew]
          decide
        | true => rw [hnew] at h; cases h
      | false =>
        simp only [closesBlank] at h
        split_ifs at h with hspace
        exact hspace
    | cons e cs =>
      rw [List.getLast?_cons_cons] at hc
      cases inComment with
      | true => exact ih h c hc
      | false =>
        rw [closesBlank] at h
        split_ifs at h
        · exact ih h c hc
        · exact ih h c hc

end Text

/-! ### Boundaries -/

section

variable {query : List Char} {i p n : Nat} {x : Lexical}

/-- Up to the next visible position stand the text up to the position and blank text. -/
lemma take_visibleFrom (query : List Char) (i : Nat) : query.take (visibleFrom query i) =
    query.take i ++ (query.drop i).take (blankLength (query.drop i)) :=
  List.take_add

/-- From the next visible position on stands the text behind the blank text. -/
lemma drop_visibleFrom (query : List Char) (i : Nat) : query.drop (visibleFrom query i) =
    (query.drop i).drop (blankLength (query.drop i)) :=
  List.drop_drop.symm

/-- Blank text that something follows is a gap. -/
lemma isGap_blank (h : query.drop (visibleFrom query i) ≠ []) :
    isGap ((query.drop i).take (blankLength (query.drop i))) = true :=
  isGap_take (drop_visibleFrom query i ▸ h)

/-- Outside of strings and comments, the next visible position is outside of them, too. -/
lemma scan_visibleFrom (hi : outside.scan (query.take i) = outside)
    (h : query.drop (visibleFrom query i) ≠ []) :
    outside.scan (query.take (visibleFrom query i)) = outside := by
  rw [take_visibleFrom, scan_append, hi, scan_of_isGap (isGap_blank h)]

namespace Boundary

/-- At a boundary the scanner stands outside of comments and strings. -/
lemma scan_take (h : Boundary query p) : outside.scan (query.take p) = outside := by
  induction h with
  | start => rfl
  | @behind i n x hi hx hlength ih =>
    have hmore : query.drop (visibleFrom query i) ≠ [] := by
      intro hnil
      rw [hnil, Lexical.length_nil] at hlength
      cases hlength
    rw [List.take_add, scan_append, scan_visibleFrom ih hmore]
    exact (Lexical.isTokenText_of_length hx hlength).isScanned.1

/-- No whitespace stands in front of a boundary. -/
lemma not_isSpace_getLast (h : Boundary query p) :
    ∀ c ∈ (query.take p).getLast?, isSpace c = false := by
  cases h with
  | start => simp
  | @behind i n x hi hx hlength =>
    have htoken := Lexical.isTokenText_of_length hx hlength
    have hne : (query.drop (visibleFrom query i)).take n ≠ [] := by
      have hbounds := Lexical.length_advancing hlength
      rw [ne_eq, List.take_eq_nil_iff, ← List.length_eq_zero_iff]
      omega
    rw [List.take_add, List.getLast?_append_of_ne_nil _ hne]
    exact htoken.not_isSpace_getLast

end Boundary

/-- Where the scanner stands outside, the blank text in front of a place is a gap. -/
lemma isGap_between (hi : outside.scan (query.take i) = outside)
    (hp : outside.scan (query.take p) = outside) (hip : i ≤ p) (hpv : p ≤ visibleFrom query i) :
    isGap ((query.drop i).take (p - i)) = true := by
  have htake : query.take p = query.take i ++ (query.drop i).take (p - i) := by
    rw [← List.take_add, Nat.add_sub_cancel' hip]
  rw [htake, scan_append, hi] at hp
  refine closesBlank_of_scan ((query.drop i).drop (p - i)) ?_ hp
  rw [List.take_append_drop, List.length_take]
  have hblank : p - i ≤ blankLength (query.drop i) := by
    unfold visibleFrom at hpv
    omega
  exact Nat.le_trans (Nat.min_le_left _ _) hblank

/-- A position inside blank text is inside the query. -/
lemma lt_length_of_between (hip : i < p) (hpv : p < visibleFrom query i) : p < query.length := by
  have hle := blankLength_le (query.drop i)
  rw [List.length_drop] at hle
  unfold visibleFrom at hpv
  omega

namespace Boundary

/-- No boundary lies in the middle of the blank text behind another one. -/
lemma not_between (hi : Boundary query i) (hp : Boundary query p) :
    ¬ (i < p ∧ p < visibleFrom query i) := by
  rintro ⟨hip, hpv⟩
  have hlt := lt_length_of_between hip hpv
  have hgap := isGap_between hi.scan_take hp.scan_take (Nat.le_of_lt hip) (Nat.le_of_lt hpv)
  have hne : (query.drop i).take (p - i) ≠ [] := by
    rw [ne_eq, List.take_eq_nil_iff, List.drop_eq_nil_iff]
    omega
  -- The gap would end with whitespace, and the token in front of the boundary with something
  -- visible.
  obtain ⟨c, hc⟩ := Option.ne_none_iff_exists'.1 (mt List.getLast?_eq_none_iff.1 hne)
  have hspace := isSpace_getLast_of_closesBlank hgap c hc
  have hvisible := hp.not_isSpace_getLast c
  rw [← Nat.add_sub_cancel' (Nat.le_of_lt hip), List.take_add,
    List.getLast?_append_of_ne_nil _ hne] at hvisible
  rw [hvisible hc] at hspace
  cases hspace

/-- No end of the blank text behind a boundary lies in the middle of that behind another one. -/
lemma not_between_visible {j : Nat} (hi : Boundary query i) (hj : Boundary query j) :
    ¬ (i < visibleFrom query j ∧ visibleFrom query j < visibleFrom query i) := by
  rintro ⟨hij, hji⟩
  have hlt := lt_length_of_between hij hji
  have hmore : query.drop (visibleFrom query j) ≠ [] := by
    rw [ne_eq, List.drop_eq_nil_iff]
    omega
  have hgap := isGap_between hi.scan_take (scan_visibleFrom hj.scan_take hmore) (Nat.le_of_lt hij)
    (Nat.le_of_lt hji)
  -- The gap would be all of the blank text behind the other boundary.
  have hvisible : startsVisible ((query.drop i).drop (visibleFrom query j - i)) = true := by
    rw [List.drop_drop, Nat.add_sub_cancel' (Nat.le_of_lt hij), drop_visibleFrom]
    exact blankLength_drop _
  have hlength := blankLength_append hgap hvisible
  rw [List.take_append_drop, List.length_take] at hlength
  unfold visibleFrom at hji hij hlength
  omega

end Boundary

end

/-! ### Rejected queries -/

/-- While a query is read, the cursor stands at its boundaries. -/
lemma steady_boundary (query : List Char) :
    Steady (fun c => c.rest = query.drop c.position ∧ Boundary query c.position)
      (Boundary query) := by
  refine ⟨fun c hc => hc.2, ?_⟩
  rintro ⟨position, rest⟩ x n ⟨hrest, hc⟩ hx hlength
  obtain rfl : rest = query.drop position := hrest
  simp only [Cursor.skipBlank, Cursor.advance] at hlength ⊢
  rw [← drop_visibleFrom] at hlength ⊢
  exact ⟨List.drop_drop, .behind hc hx hlength⟩

namespace Query

/-- Whether the expression of a query is read up to a position, and the end of the query is looked
for behind it. -/
def ReadsTo (limits : Limits) (query : List Char) (position : Nat) : Prop :=
  ∃ items next stuck, (Form.optional (.rule .expression)).read (Rule.read limits.rules)
    (.start query) =
    .done items next stuck ∧ next.position = position

/-- Where a rejected query is rejected. -/
lemma position_of_rejected {query : List Char} {stuck : Stuck}
    (h : Reading.ofQuery limits query = .rejected stuck) :
    (Boundary query stuck.position ∨ ∃ i, Boundary query i ∧ stuck.position = visibleFrom query i) ∧
      ∀ e, ReadsTo limits query e → visibleFrom query e ≤ stuck.position := by
  have hkeeps := (steady_boundary query).query limits.rules (c := .start query) ⟨rfl, .start⟩
  unfold Reading.ofQuery Reading.within at h
  unfold ReadsTo
  generalize (Form.optional (.rule .expression)).read (Rule.read limits.rules) (.start query) =
    outcome
    at h hkeeps
  cases outcome with
  | done its next further =>
    obtain ⟨⟨hrest, hnext⟩, hfurther⟩ := hkeeps
    have hhere : next.skipBlank.position = visibleFrom query next.position := by
      simp only [Cursor.skipBlank, Cursor.advance, visibleFrom, hrest]
    simp only [Reading.ofOutcome] at h
    split at h
    · cases h
    · cases h
      obtain ⟨hle, hposition⟩ := Stuck.mergeOption_position further
        ⟨next.skipBlank.position, [.endOfQuery]⟩
      constructor
      · rcases hposition with heq | ⟨s, hs, heq⟩
        · exact Or.inr ⟨next.position, hnext, heq.trans hhere⟩
        · exact Or.inl (heq ▸ hfurther s hs)
      · rintro e ⟨its', next', further', hdone, rfl⟩
        cases hdone
        exact hhere ▸ hle
  | failed further =>
    cases h
    exact ⟨Or.inl hkeeps, by simp⟩
  | tooDeep => cases h

/-- A query is rejected at a boundary or where the text behind one starts, not before the text
behind what was read of it starts, and never in the middle of blank text. -/
theorem boundary_of_rejected {query : List Char} {p : Nat}
    (h : (parseChars limits query).outcome = .error (.rejected p)) :
    (Boundary query p ∨ ∃ i, Boundary query i ∧ p = visibleFrom query i) ∧
      (∀ e, ReadsTo limits query e → visibleFrom query e ≤ p) ∧
      ∀ i, Boundary query i → ¬ (i < p ∧ p < visibleFrom query i) := by
  obtain ⟨stuck, hread, rfl⟩ := outcome_eq_rejected_iff.1 h
  obtain ⟨hposition, hbehind⟩ := position_of_rejected hread
  refine ⟨hposition, hbehind, fun i hi => ?_⟩
  rcases hposition with hp | ⟨j, hj, hp⟩
  · exact hi.not_between hp
  · rw [hp]
    exact hi.not_between_visible hj

/-- In `a  b` the second name is what should not be there: the query is rejected at it, where the
text behind the first name starts. -/
theorem boundary_twoNames :
    (parseChars .usual ['a', ' ', ' ', 'b']).outcome = .error (.rejected 3) ∧
      (Boundary ['a', ' ', ' ', 'b'] 3 ∨
        ∃ i, Boundary ['a', ' ', ' ', 'b'] i ∧ 3 = visibleFrom ['a', ' ', ' ', 'b'] i) ∧
      (∀ e, ReadsTo .usual ['a', ' ', ' ', 'b'] e → visibleFrom ['a', ' ', ' ', 'b'] e ≤ 3) ∧
      ∀ i, Boundary ['a', ' ', ' ', 'b'] i →
        ¬ (i < 3 ∧ 3 < visibleFrom ['a', ' ', ' ', 'b'] i) := by
  have hrejected : (parseChars .usual ['a', ' ', ' ', 'b']).outcome = .error (.rejected 3) := rfl
  exact ⟨hrejected, boundary_of_rejected hrejected⟩

end Query

end PromqlGuide
