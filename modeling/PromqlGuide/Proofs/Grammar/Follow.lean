import PromqlGuide.Proofs.Grammar.Neighbours

/-!
# What follows

Optional parts and repetitions end where the lexemes that would continue them are `Absent`.  At a
place where one kind of lexeme is found, most other kinds are absent (`Lexical.apart`), so what
follows an expression decides what is read of it.

`Stops k` says of a text that nothing in it continues an expression of level `k`: no operator of
this or a higher level, and no postfix.  Main statement: an operator of a lower level in front of a
text stops expressions of every higher one (`stops_of_follower`).
-/
namespace PromqlGuide

open Text

namespace Lexical

/-- The characters that lexemes of a kind start with, for kinds with few of them. -/
def heads? : Lexical → Option (List Char)
  | mark c => some [c]
  | token (.symbol s) => some (s.letters.take 1)
  | token .string => some ['"', '\'', '\x60']
  | token .matchOperator => some ['=', '!']
  | token _ => none

/-- Whether no text starts with lexemes of both kinds, as far as their first characters and, for
keywords, all their letters tell. -/
def apart (x y : Lexical) : Bool :=
  match x, y with
  | token (.keyword k), token (.keyword k') =>
    !k.letters.isPrefixOf k'.letters && !k'.letters.isPrefixOf k.letters
  | _, _ =>
    (x.heads?.any fun cs => cs.all fun c => !y.opens c) ||
      (y.heads?.any fun cs => cs.all fun c => !x.opens c)

/-- A lexeme starts with one of the characters that its kind is known to start with. -/
lemma mem_heads_of_opens {x : Lexical} {cs : List Char} {c : Char} (hcs : x.heads? = some cs)
    (h : x.opens c = true) : c ∈ cs := by
  cases x with
  | mark m =>
    cases hcs
    simpa using (beq_iff_eq.1 h).symm
  | token t =>
    cases t with
    | symbol s =>
      cases hcs
      have hs : s.letters.head? = some c := by simpa [opens, Terminal.opens] using h
      cases s <;> cases hs <;> decide
    | string =>
      cases hcs
      simpa [opens, Terminal.opens, or_assoc] using h
    | matchOperator =>
      cases hcs
      simpa [opens, Terminal.opens] using h
    | _ => cases hcs

/-- Where a lexeme of one kind is found, there is none of a kind that starts with other
characters. -/
lemma length_eq_none_of_heads {x y : Lexical} {cs : List Char} {n : Nat}
    (h : (x.heads?.any fun ds => ds.all fun d => !y.opens d) = true)
    (hx : x.length? cs = some n) : y.length? cs = none := by
  obtain ⟨ds, hds, hall⟩ := (Option.any_eq_true _ _).1 h
  obtain ⟨c, rest, rfl, hc⟩ := opens_of_length hx
  have hy := List.all_eq_true.1 hall c (mem_heads_of_opens hds hc)
  exact length_eq_none (by simpa using hy) rest

/-- At a text that starts with a lexeme of one kind, those of kinds apart from it are not found. -/
theorem length_eq_none_of_apart {x y : Lexical} {cs : List Char} {n : Nat}
    (h : x.apart y = true) (hx : x.length? cs = some n) : y.length? cs = none := by
  unfold apart at h
  split at h
  · next k k' =>
    rw [Bool.and_eq_true, Bool.not_eq_true', Bool.not_eq_true'] at h
    have hk : ¬ k.letters <+: k'.letters := fun hp => by
      simp [List.isPrefixOf_iff_prefix.2 hp] at h
    have hk' : ¬ k'.letters <+: k.letters := fun hp => by
      simp [List.isPrefixOf_iff_prefix.2 hp] at h
    exact Name.wordLength_eq_none_of_startsWithWord (Terminal.isSmallWord_keyword k)
      (Terminal.isSmallWord_keyword k') hk hk' (Name.startsWithWord_of_wordLength hx)
  · rcases Bool.or_eq_true _ _ ▸ h with h | h
    · exact length_eq_none_of_heads h hx
    · cases hy : y.length? cs with
      | none => rfl
      | some m =>
        rw [length_eq_none_of_heads h hy] at hx
        cases hx

end Lexical

/-! ### Absent lexemes -/

/-- Whether no lexeme of a kind is found behind the blank text at the start of a text. -/
def Absent (x : Lexical) (cs : List Char) : Prop := x.length? (cs.drop (blankLength cs)) = none

/-- Whether one of some marks is found behind the blank text at the start of a text. -/
def Before (marks : List Char) (cs : List Char) : Prop :=
  ∃ c ∈ marks, ∃ n, (Lexical.mark c).length? (cs.drop (blankLength cs)) = some n

/-- What is found behind the blank text is the text of the lexeme. -/
lemma Lexeme.Found.length {l : Lexeme} {rest : List Char} (h : l.Found rest) :
    l.kind.length? ((l.gap ++ (l.text ++ rest)).drop (blankLength (l.gap ++ (l.text ++ rest)))) =
      some l.text.length := by
  rw [drop_blankLength_append h.1 h.visible]
  exact h.2.2

/-- Where a lexeme is found, there is none of a kind apart from its own. -/
lemma absent_of_found {l : Lexeme} {x : Lexical} {rest : List Char} (h : l.Found rest)
    (hx : l.kind.apart x = true) : Absent x (l.gap ++ (l.text ++ rest)) :=
  Lexical.length_eq_none_of_apart hx h.length

/-- In front of marks there is no lexeme of a kind apart from them. -/
lemma absent_of_before {marks : List Char} {x : Lexical} {cs : List Char} (h : Before marks cs)
    (hx : ∀ c ∈ marks, (Lexical.mark c).apart x = true) : Absent x cs := by
  obtain ⟨c, hc, n, hn⟩ := h
  exact Lexical.length_eq_none_of_apart (hx c hc) hn

/-- A mark that is found stands in front. -/
lemma before_of_found {marks : List Char} {c : Char} {l : Lexeme} {rest : List Char}
    (h : l.Found rest) (hkind : l.kind = .mark c) (hc : c ∈ marks) :
    Before marks (l.gap ++ (l.text ++ rest)) :=
  ⟨c, hc, l.text.length, hkind ▸ h.length⟩

/-- What stands in front of some marks stands in front of more marks. -/
lemma Before.mono {marks marks' : List Char} (hsub : marks ⊆ marks') {cs : List Char}
    (h : Before marks cs) : Before marks' cs := by
  obtain ⟨c, hc, hn⟩ := h
  exact ⟨c, hsub hc, hn⟩

/-- In blank text up to the end of a query there is no lexeme. -/
lemma absent_of_isTail {cs : List Char} (h : isTail cs = true) (x : Lexical) : Absent x cs := by
  have hlen : blankLength cs = cs.length := of_decide_eq_true h
  rw [Absent, hlen, List.drop_length, Lexical.length_nil]

/-- Lexemes that are laid out are found one after the other. -/
lemma Lexeme.foundAll_of_laidOut {ls : List Lexeme} {rest : List Char} (h : LaidOut ls rest) :
    FoundAll ls rest := by
  induction ls with
  | nil => trivial
  | cons l ls ih =>
    obtain ⟨hproper, hstops, hmore⟩ := h
    exact ⟨⟨hproper.1, hproper.2.1, Lexical.length_append hproper.2.2 hstops⟩, ih hmore⟩

/-- The first of lexemes that are laid out is found. -/
lemma Lexeme.found_of_laidOut {l : Lexeme} {ls : List Lexeme} {rest : List Char}
    (h : LaidOut (l :: ls) rest) : l.Found (writtenAll ls ++ rest) := (foundAll_of_laidOut h).1

namespace Form

variable {call : Rule → Cursor → Outcome}

/-- Whether a form reads nothing before one of its first lexemes; the argument says whether rules
count as such forms. -/
def guarded (rules : Bool) : Form → Bool
  | token _ | mark _ => true
  | nothing | many _ => false
  | seq f _ | graft f _ => f.guarded rules
  | choice f g => f.guarded rules && g.guarded rules
  | phrase _ body => body.guarded rules
  | rule _ => rules

/-- A form that starts with a lexeme reads some text. -/
lemma advances_of_guarded {rules : Bool} {f : Form} (h : f.guarded rules = true) :
    f.advances = true := by
  induction f with
  | token t | mark m | rule r => rfl
  | nothing | many f => cases h
  | seq f g ihf ihg => simp [advances, ihf h]
  | choice f g ihf ihg =>
    obtain ⟨hf, hg⟩ := Bool.and_eq_true_iff.1 h
    simp [advances, ihf hf, ihg hg]
  | phrase p body ih => exact ih h
  | graft f g ihf ihg => exact ihf h

/-- A lexeme that is absent is not read. -/
lemma readLexeme_fails {expectation : Expectation} {x : Lexical} {build : Nat → Nat → Item}
    {cs : List Char} (h : Absent x cs) : Fails (readLexeme expectation x.length? build) cs :=
  fun position => ⟨⟨position, [expectation]⟩, by
    have hnone : x.length? (cs.drop (blankLength cs)) = none := h
    simp [readLexeme, Cursor.skipBlank, Cursor.advance, hnone]⟩

/-- A sequence fails where its first form does. -/
lemma fails_seq {f g : Form} {cs : List Char} (h : Fails (f.read call) cs) :
    Fails ((seq f g).read call) cs := by
  intro position
  obtain ⟨stuck, hfailed⟩ := h position
  exact ⟨stuck, by simp [read, hfailed]⟩

/-- A choice fails where both forms do. -/
lemma fails_choice {f g : Form} {cs : List Char} (hf : Fails (f.read call) cs)
    (hg : Fails (g.read call) cs) : Fails ((choice f g).read call) cs := by
  intro position
  obtain ⟨stuck, hfailed⟩ := hf position
  obtain ⟨further, hfailed'⟩ := hg position
  exact ⟨stuck.merge further, by simp [read, hfailed, hfailed', Outcome.afterFailure]⟩

/-- A phrase fails where its body does. -/
lemma fails_phrase {p : Phrase} {body : Form} {cs : List Char} (h : Fails (body.read call) cs) :
    Fails ((phrase p body).read call) cs := by
  intro position
  obtain ⟨stuck, hfailed⟩ := h position
  exact ⟨stuck, by simp [read, hfailed, Outcome.mapItems]⟩

/-- A graft fails where its first form does. -/
lemma fails_graft {f g : Form} {cs : List Char} (h : Fails (f.read call) cs) :
    Fails ((graft f g).read call) cs := by
  intro position
  obtain ⟨stuck, hfailed⟩ := h position
  exact ⟨stuck, by simp [read, hfailed]⟩

/-- A sequence fails where its first form reads something behind which its second one fails. -/
lemma fails_seq_of_reads {f g : Form} {ps : List Written} {rest : List Char}
    (hf : Reads (f.read call) ps rest) (hg : Fails (g.read call) rest) :
    Fails ((seq f g).read call) (Written.textAll ps ++ rest) := by
  intro position
  obtain ⟨stuck, hdone⟩ := hf position
  obtain ⟨further, hfailed⟩ := hg (position + (Written.textAll ps).length)
  exact ⟨Stuck.mergeOption stuck further, by simp [read, hdone, hfailed, Outcome.after]⟩

/-- A guarded form fails where all its first lexemes are absent. -/
theorem fails_of_absent {rules : Bool} {f : Form} {cs : List Char}
    (hrules : rules = true → ∀ r, (∀ x ∈ Rule.starters, Absent x cs) → Fails (call r) cs)
    (hf : f.guarded rules = true) (h : ∀ x ∈ f.first, Absent x cs) : Fails (f.read call) cs := by
  induction f with
  | token t => exact readLexeme_fails (x := .token t) (h _ List.mem_cons_self)
  | mark m => exact readLexeme_fails (x := .mark m) (h _ List.mem_cons_self)
  | nothing | many f => cases hf
  | seq f g ihf ihg =>
    simp only [first, advances_of_guarded (f := f) hf, if_true] at h
    exact fails_seq (ihf hf h)
  | choice f g ihf ihg =>
    obtain ⟨hf, hg⟩ := Bool.and_eq_true_iff.1 hf
    exact fails_choice (ihf hf fun x hx => h x (List.mem_append_left _ hx))
      (ihg hg fun x hx => h x (List.mem_append_right _ hx))
  | phrase p body ih => exact fails_phrase (ih hf h)
  | graft f g ihf ihg =>
    simp only [first, advances_of_guarded (f := f) hf, if_true] at h
    exact fails_graft (ihf hf h)
  | rule r => exact hrules hf r h

/-- The same for a form whose first lexemes are none of a rule. -/
lemma fails_of_absent_of_plain {f : Form} {cs : List Char} (hf : f.guarded false = true)
    (h : ∀ x ∈ f.first, Absent x cs) : Fails (f.read call) cs :=
  fails_of_absent (fun hfalse => by cases hfalse) hf h

end Form

namespace Rule

open Form

/-- A rule that may go down two steps fails where nothing starts that an expression can start
with. -/
theorem fails_of_absent {depth : Nat} (hdepth : 2 ≤ depth) (r : Rule) {cs : List Char}
    (h : ∀ x ∈ starters, Absent x cs) : Fails (Rule.read depth r) cs := by
  obtain ⟨d, rfl⟩ := Nat.exists_eq_add_of_le' hdepth
  have hsigned : ∀ d, Fails (Rule.read (d + 1) .signed) cs := fun d =>
    Form.fails_of_absent_of_plain rfl fun x hx => h x (first_form_subset .signed hx)
  cases r with
  | signed => exact hsigned (d + 1)
  | expression =>
    refine fails_graft (fails_graft (fails_graft (fails_graft (fails_graft ?_))))
    exact hsigned d

end Rule

/-! ### Followers of an expression -/

/-- The kinds of lexeme that continue an expression, each with the level of expressions that it
continues.  The first four go on with an expression that is still being read; the next three start
postfixes. -/
def followers : List (Lexical × Nat) :=
  [(.mark '\x7b', 8), (.mark '(', 8), (.token (.keyword .byWord), 8),
    (.token (.keyword .without), 8), (.mark '[', 7), (.token (.symbol .atSign), 7),
    (.token (.keyword .offset), 7), (.token (.symbol .pow), 6), (.token (.symbol .mul), 4),
    (.token (.symbol .div), 4), (.token (.symbol .mod), 4), (.token (.keyword .atan2), 4),
    (.token (.symbol .add), 3), (.token (.symbol .sub), 3), (.token (.symbol .eql), 2),
    (.token (.symbol .neq), 2), (.token (.symbol .lte), 2), (.token (.symbol .lss), 2),
    (.token (.symbol .gte), 2), (.token (.symbol .gtr), 2), (.token (.keyword .and), 1),
    (.token (.keyword .unlessWord), 1), (.token (.keyword .or), 0)]

/-- Whether nothing at the start of a text continues an expression of a level. -/
def Stops (k : Nat) (cs : List Char) : Prop := ∀ p ∈ followers, k ≤ p.2 → Absent p.1 cs

/-- What continues no expression of a level continues none of a higher level. -/
lemma Stops.mono {j k : Nat} (hjk : j ≤ k) {cs : List Char} (h : Stops j cs) : Stops k cs :=
  fun p hp hk => h p hp (Nat.le_trans hjk hk)

/-- What continues an expression of one level stops those of every higher level. -/
theorem stops_of_follower {l : Lexeme} {j k : Nat} {rest : List Char} (h : l.Found rest)
    (hl : (l.kind, j) ∈ followers) (hjk : j < k) : Stops k (l.gap ++ (l.text ++ rest)) := by
  have levels : ∀ p ∈ followers, ∀ q ∈ followers, p.2 < q.2 → p.1.apart q.1 = true := by
    decide +kernel
  exact fun p hp hk => absent_of_found h (levels _ hl p hp (Nat.lt_of_lt_of_le hjk hk))

/-- A mark that closes something continues no expression. -/
lemma stops_of_before {cs : List Char} (h : Before [')', ',', ']', '\x7d'] cs) (k : Nat) :
    Stops k cs := by
  have closing : ∀ p ∈ followers, ∀ c ∈ [')', ',', ']', '\x7d'],
      (Lexical.mark c).apart p.1 = true := by decide
  exact fun p hp _ => absent_of_before h (closing p hp)

/-- Blank text up to the end of a query continues no expression. -/
lemma stops_of_isTail {cs : List Char} (h : isTail cs = true) (k : Nat) : Stops k cs :=
  fun p _ _ => absent_of_isTail h p.1

end PromqlGuide
