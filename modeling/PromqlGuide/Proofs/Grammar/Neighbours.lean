import Mathlib.Data.List.Chain
import PromqlGuide.Proofs.Grammar.Run

/-!
# Neighbouring lexemes

Which kinds of lexeme a form can start and end with, and which kinds can stand next to each other in
what it reads, is computed from the form.  The computation is sound for every run
(`Form.neighbours_of_run`), so a condition on neighbours is checked once for the forms of the two
rules.

Main statement: what a rule reads is laid out (`Rule.laidOut_of_run`).  The reader of a number could
stop in front of a further digit, but the grammar has nothing behind an operand that starts like
one.
-/
namespace PromqlGuide

open Text Written

namespace Rule

/-- The kinds of lexeme that an expression can start with. -/
def starters : List Lexical :=
  [.mark '(', .token .aggregationOperator, .token .functionName, .token .number, .token .string,
    .token .metricName, .mark '\x7b', .token (.symbol .sub), .token (.symbol .add)]

/-- The kinds of lexeme that an expression can end with. -/
def enders : List Lexical :=
  [.mark ')', .token .number, .token .string, .token .metricName, .mark '\x7d', .mark ']',
    .token .duration, .token .timestamp, .token .startOrEnd]

end Rule

namespace Form

/-- The kinds of lexeme that what a form reads can start with. -/
def first : Form → List Lexical
  | token t => [.token t]
  | mark c => [.mark c]
  | nothing => []
  | seq f g | graft f g => if f.advances then f.first else f.first ++ g.first
  | choice f g => f.first ++ g.first
  | many f => f.first
  | phrase _ body => body.first
  | rule _ => Rule.starters

/-- The kinds of lexeme that what a form reads can end with. -/
def last : Form → List Lexical
  | token t => [.token t]
  | mark c => [.mark c]
  | nothing => []
  | seq f g | graft f g => if g.advances then g.last else f.last ++ g.last
  | choice f g => f.last ++ g.last
  | many f => f.last
  | phrase _ body => body.last
  | rule _ => Rule.enders

/-- The pairs of kinds that can stand next to each other in what a form reads, apart from those
inside of what a rule reads. -/
def neighbours : Form → List (Lexical × Lexical)
  | token _ | mark _ | nothing | rule _ => []
  | seq f g | graft f g => f.neighbours ++ g.neighbours ++ f.last ×ˢ g.first
  | choice f g => f.neighbours ++ g.neighbours
  | many f => f.neighbours ++ f.last ×ˢ f.first
  | phrase _ body => body.neighbours

/-- Checks a condition on the pairs of kinds that can stand next to each other, without listing
them. -/
def allMeet (R : Lexical → Lexical → Bool) : Form → Bool
  | token _ | mark _ | nothing | rule _ => true
  | seq f g | graft f g =>
    f.allMeet R && g.allMeet R && f.last.all fun x => g.first.all fun y => R x y
  | choice f g => f.allMeet R && g.allMeet R
  | many f => f.allMeet R && f.last.all fun x => f.first.all fun y => R x y
  | phrase _ body => body.allMeet R

/-- The check of a condition passes only if it holds of all pairs of neighbours. -/
lemma meets_of_mem_neighbours {R : Lexical → Lexical → Bool} {f : Form} (h : f.allMeet R = true) :
    ∀ p ∈ f.neighbours, R p.1 p.2 = true := by
  induction f with
  | token | mark | nothing | rule => exact fun p hp => nomatch hp
  | seq f g ihf ihg | graft f g ihf ihg =>
    simp only [allMeet, Bool.and_eq_true, List.all_eq_true] at h
    rintro ⟨x, y⟩ hp
    rcases List.mem_append.1 hp with hp | hp
    · rcases List.mem_append.1 hp with hp | hp
      · exact ihf h.1.1 _ hp
      · exact ihg h.1.2 _ hp
    · obtain ⟨hx, hy⟩ := List.pair_mem_product.1 hp
      exact h.2 x hx y hy
  | choice f g ihf ihg =>
    simp only [allMeet, Bool.and_eq_true] at h
    intro p hp
    rcases List.mem_append.1 hp with hp | hp
    · exact ihf h.1 p hp
    · exact ihg h.2 p hp
  | many f ih =>
    simp only [allMeet, Bool.and_eq_true, List.all_eq_true] at h
    rintro ⟨x, y⟩ hp
    rcases List.mem_append.1 hp with hp | hp
    · exact ih h.1 _ hp
    · obtain ⟨hx, hy⟩ := List.pair_mem_product.1 hp
      exact h.2 x hx y hy
  | phrase _ body ih => exact ih h

/-- The kinds of the lexemes of trees. -/
def kinds (ps : List Written) : List Lexical := (lexemesAll ps).map fun l => l.kind

/-- The kinds of trees come in their order. -/
@[simp] lemma kinds_append (ps qs : List Written) : kinds (ps ++ qs) = kinds ps ++ kinds qs := by
  simp [kinds]

/-- A phrase has the kinds of its parts. -/
lemma kinds_phrase (p : Phrase) (parts : List Written) : kinds [.phrase p parts] = kinds parts := by
  simp [kinds, lexemesAll, lexemes]

/-- Postfixes that are attached to a tree come behind it. -/
lemma kinds_attachAll {base : Written} {later : List Written}
    (h : ∀ w ∈ later, w.takesBase = true) :
    kinds [attachAll base later] = kinds [base] ++ kinds later := by
  simp [kinds, lexemesAll, lexemes_attachAll h]

/-- Trees with some text have lexemes. -/
lemma kinds_ne_nil {ps : List Written} (h : textAll ps ≠ []) : kinds ps ≠ [] := by
  intro hnil
  have hnone : lexemesAll ps = [] := List.map_eq_nil_iff.1 hnil
  exact h (by simp [textAll, hnone])

/-- Whether kinds start and end among given ones and neighbours are related. -/
structure Linked (starts ends : List Lexical) (R : Lexical → Lexical → Prop)
    (ks : List Lexical) : Prop where
  head : ∀ x ∈ ks.head?, x ∈ starts
  last : ∀ x ∈ ks.getLast?, x ∈ ends
  chain : ks.IsChain R

/-- Kinds that are linked are linked with more kinds to start and to end with. -/
lemma Linked.mono {starts ends starts' ends' : List Lexical} {R : Lexical → Lexical → Prop}
    {ks : List Lexical} (h : Linked starts ends R ks) (hstarts : starts ⊆ starts')
    (hends : ends ⊆ ends') : Linked starts' ends' R ks :=
  ⟨fun x hx => hstarts (h.head x hx), fun x hx => hends (h.last x hx), h.chain⟩

/-- Kinds after one another: those of the second list count at the start if the first may be empty,
and those of the first count at the end if the second may be. -/
lemma Linked.append {a b : Bool} {starts ends starts' ends' : List Lexical}
    {R : Lexical → Lexical → Prop} {ks ls : List Lexical} (hk : Linked starts ends R ks)
    (hl : Linked starts' ends' R ls) (ha : a = true → ks ≠ []) (hb : b = true → ls ≠ [])
    (hR : ∀ x ∈ ends, ∀ y ∈ starts', R x y) :
    Linked (if a then starts else starts ++ starts') (if b then ends' else ends ++ ends') R
      (ks ++ ls) where
  head := by
    cases ks with
    | nil =>
      cases a with
      | true => exact absurd rfl (ha rfl)
      | false => exact fun x hx => List.mem_append_right _ (hl.head x hx)
    | cons k ks =>
      intro x hx
      have hx := hk.head x hx
      cases a <;> simp [hx]
  last := by
    cases hls : ls.getLast? with
    | none =>
      obtain rfl := List.getLast?_eq_none_iff.1 hls
      cases b with
      | true => exact absurd rfl (hb rfl)
      | false =>
        intro x hx
        exact List.mem_append_left _ (hk.last x (by simpa using hx))
    | some z =>
      intro x hx
      have hx := hl.last x (by simpa [List.getLast?_append, hls] using hx)
      cases b <;> simp [hx]
  chain := hk.chain.append hl.chain fun x hx y hy => hR x (hk.last x hx) y (hl.head y hy)

variable {call : Rule → Cursor → Outcome} {known : Rule → List Written → List Char → Prop}
  {R : Lexical → Lexical → Prop}
  (hproper : ∀ r ps rest, known r ps rest → IsProperNode ps)
  (hlinked : ∀ r ps rest, known r ps rest → Linked Rule.starters Rule.enders R (kinds ps))
include hproper hlinked

/-- What a form reads starts, goes on and ends as computed from the form. -/
theorem neighbours_of_run {f : Form} {ps : List Written} {rest : List Char}
    (hR : ∀ p ∈ f.neighbours, R p.1 p.2) (h : f.Run call known ps rest) :
    Linked f.first f.last R (kinds ps) := by
  have nonempty : ∀ {g : Form} {qs : List Written} {rest : List Char}, g.Run call known qs rest →
      g.advances = true → kinds qs ≠ [] :=
    fun hg hadvances => kinds_ne_nil (textAll_ne_nil_of_run hproper hadvances hg)
  have alone : ∀ (x : Lexical) (l : Lexeme), l.kind = x →
      Linked [x] [x] R (kinds [.lexeme l]) := by
    rintro _ l rfl
    constructor <;> simp [kinds, lexemesAll, lexemes]
  induction f generalizing ps rest with
  | token t =>
    obtain ⟨l, rfl, hkind, -⟩ := h
    exact alone _ l hkind
  | mark m =>
    obtain ⟨l, rfl, hkind, -⟩ := h
    exact alone _ l hkind
  | nothing =>
    obtain rfl : ps = [] := h
    constructor <;> simp [kinds, lexemesAll]
  | seq f g ihf ihg =>
    -- Only here two lexemes can meet that neither part has next to one another.
    obtain ⟨qs, rs, rfl, hf, hg⟩ := h
    simp only [neighbours, List.mem_append, or_imp, forall_and] at hR
    rw [kinds_append]
    exact (ihf hR.1.1 hf).append (ihg hR.1.2 hg) (nonempty hf) (nonempty hg)
      fun x hx y hy => hR.2 (x, y) (List.pair_mem_product.2 ⟨hx, hy⟩)
  | choice f g ihf ihg =>
    simp only [neighbours, List.mem_append, or_imp, forall_and] at hR
    rcases h with hf | ⟨-, hg⟩
    · exact (ihf hR.1 hf).mono (List.subset_append_left _ _) (List.subset_append_left _ _)
    · exact (ihg hR.2 hg).mono (List.subset_append_right _ _) (List.subset_append_right _ _)
  | many f ih =>
    simp only [neighbours, List.mem_append, or_imp, forall_and] at hR
    replace h : Repeats _ _ ps rest := h
    induction h with
    | nil => constructor <;> simp [kinds, lexemesAll]
    | cons hqs _ _ ihps =>
      rw [kinds_append]
      exact ((ih hR.1 hqs).append (a := false) (b := false) ihps (by simp) (by simp)
        fun x hx y hy => hR.2 (x, y) (List.pair_mem_product.2 ⟨hx, hy⟩)).mono (by simp [first])
          (by simp [last])
  | phrase p body ih =>
    obtain ⟨parts, rfl, hbody⟩ := h
    rw [kinds_phrase]
    exact ih hR hbody
  | graft f g ihf ihg =>
    obtain ⟨base, later, rfl, hbase, hlater, hf, hg⟩ := h
    simp only [neighbours, List.mem_append, or_imp, forall_and] at hR
    rw [kinds_attachAll hlater]
    exact (ihf hR.1.1 hf).append (ihg hR.1.2 hg) (nonempty hf) (nonempty hg)
      fun x hx y hy => hR.2 (x, y) (List.pair_mem_product.2 ⟨hx, hy⟩)
  | rule r => exact hlinked r ps rest h

end Form

/-! ### What a rule reads -/

namespace Lexical

/-- Whether a lexeme of a kind can start with a character that is never right behind an operand. -/
def mayStray : Lexical → Bool
  | token (.keyword k) => k.letters.head?.any fun a => a == 'i' || a == 's' || a == 'k'
  | token t =>
    match t with
    | .number | .timestamp | .duration | .aggregationOperator | .startOrEnd => true
    | _ => false
  | mark _ => false

/-- Whether the reader of a kind may stop in front of a character that is never right behind an
operand. -/
def isOpenEnded : Lexical → Bool
  | token t => t.isOpenEnded
  | mark _ => false

/-- Whether the reader of a kind may stop in front of an equals sign that belongs to it. -/
def isUnequal (x : Lexical) : Bool :=
  decide (x = token (.symbol .lss) ∨ x = token (.symbol .gtr))

/-- Whether a lexeme of the second kind may follow right behind one of the first: it cannot be taken
for a continuation of it, and behind a function name there is a parenthesis. -/
def mayMeet (x y : Lexical) : Bool :=
  (!x.isOpenEnded || !y.mayStray) && (!x.isUnequal || !y.opens '=') &&
    (x != token .functionName || y == mark '(')

end Lexical

namespace Rule

open Form

/-- Kinds that stand next to each other in what a rule reads may follow one another. -/
lemma mayMeet_of_mem_neighbours {r : Rule} :
    ∀ p ∈ r.form.neighbours, p.1.mayMeet p.2 = true := by
  have hall : r.form.allMeet Lexical.mayMeet = true := by cases r <;> decide +kernel
  exact meets_of_mem_neighbours hall

/-- What a rule reads starts like an expression. -/
lemma first_form_subset (r : Rule) : r.form.first ⊆ starters := by cases r <;> decide

/-- What a rule reads ends like an expression. -/
lemma last_form_subset (r : Rule) : r.form.last ⊆ enders := by cases r <;> decide +kernel

/-- What a rule reads starts and ends like an expression, and neighbours in it may meet. -/
theorem linked_of_run {depth : Nat} {r : Rule} {ps : List Written} {rest : List Char}
    (h : Run depth r ps rest) :
    Linked starters enders (fun x y => x.mayMeet y = true) (kinds ps) := by
  induction depth generalizing r ps rest with
  | zero => exact h.elim
  | succ depth ih =>
    have hrun : r.form.Run (Rule.read depth) (Run depth) ps rest := h
    refine Linked.mono (neighbours_of_run ?_ ?_ mayMeet_of_mem_neighbours hrun)
      (first_form_subset r) (last_form_subset r)
    · exact fun _ _ _ => isProperNode_of_run
    · exact fun _ _ _ => ih

end Rule

/-! ### Layout -/

namespace Lexical

/-- Of the letters only three have forms that are never right behind an operand. -/
lemma isStray_of_foldsTo {a c : Char} (ha : a ∈ smallLetters) (h : foldsTo a c = true)
    (hc : Terminal.isStray c = true) : a = 'i' ∨ a = 's' ∨ a = 'k' := by
  have small : ∀ b ∈ smallLetters, Terminal.isStray b = false := by decide
  have upper : ∀ b ∈ smallLetters, Terminal.isStray b.toUpper = false := by decide
  rcases foldsTo_cases h with rfl | ⟨-, rfl | ⟨rfl, -⟩ | ⟨rfl, -⟩ | ⟨rfl, -⟩⟩
  · simp [small c ha] at hc
  · simp [upper a ha] at hc
  · exact Or.inl rfl
  · exact Or.inr (Or.inl rfl)
  · exact Or.inr (Or.inr rfl)

/-- The first character of a name may be right behind an operand. -/
lemma not_isStray_of_isNameStart {c : Char} (h : isNameStart c = true) :
    Terminal.isStray c = false := by
  have hrange := toNat_of_isNameStart h
  by_contra hstray
  simp only [Terminal.isStray, Bool.not_eq_false, Bool.or_eq_true, beq_iff_eq] at hstray
  rcases hstray with (hc | hc) | rfl
  · have := toNat_of_isVariant hc
    omega
  · simp [not_isNameStart_of_isDigit hc] at h
  · revert h; decide

/-- Only some kinds can start with a character that is never right behind an operand. -/
lemma not_isStray_of_opens {x : Lexical} {c : Char} (hused : x.isUsed = true)
    (h : x.opens c = true) (hx : x.mayStray = false) : Terminal.isStray c = false := by
  cases x with
  | mark m =>
    obtain rfl : m = c := beq_iff_eq.1 h
    have marks : ∀ d ∈ marks, Terminal.isStray d = false := by decide
    exact marks m (of_decide_eq_true hused)
  | token t =>
    cases t with
    | number | timestamp | duration | aggregationOperator | startOrEnd => cases hx
    | string =>
      simp only [opens, Terminal.opens, Bool.or_eq_true, beq_iff_eq] at h
      rcases h with (rfl | rfl) | rfl <;> decide
    | labelName => exact not_isStray_of_isNameStart h
    | functionName => exact not_isStray_of_isNameStart h
    | metricName =>
      simp only [opens, Terminal.opens, isMetricStart, Bool.or_eq_true, beq_iff_eq] at h
      rcases h with h | rfl
      · exact not_isStray_of_isNameStart h
      · decide
    | matchOperator =>
      simp only [opens, Terminal.opens, Bool.or_eq_true, beq_iff_eq] at h
      rcases h with rfl | rfl <;> decide
    | keyword k =>
      by_contra hstray
      have hsmall : ∀ a ∈ k.letters.head?, a ∈ smallLetters := by cases k <;> decide
      obtain ⟨a, hhead, ha⟩ : ∃ a, k.letters.head? = some a ∧ foldsTo a c = true := by
        simpa [opens, Terminal.opens, Terminal.opensWord, Option.any_eq_true] using h
      have hmay := isStray_of_foldsTo (hsmall a hhead) ha (Bool.not_eq_false _ ▸ hstray)
      simp only [mayStray, hhead, Option.any_some, Bool.or_eq_false_iff, beq_eq_false_iff_ne] at hx
      rcases hmay with rfl | rfl | rfl <;> simp at hx
    | symbol s =>
      have hc : s.letters.head? = some c := by simpa [opens, Terminal.opens] using h
      have symbols : ∀ s ∈ Symbol.all, ∀ d ∈ s.letters.head?, Terminal.isStray d = false := by
        decide
      exact symbols s (by cases s <;> decide) c hc

/-- A lexeme that is read as a whole is one by itself and is not run into, where nothing stray
follows. -/
lemma spells_of_length {x : Lexical} {w rest : List Char}
    (h : x.length? (w ++ rest) = some w.length)
    (hstray : x.isOpenEnded = true → endsBefore Terminal.isStray rest = true)
    (hequal : x.isUnequal = true → endsBefore (· == '=') rest = true) :
    x.spells w = true ∧ x.stopsAt w rest = true := by
  cases x with
  | mark c => exact ⟨by simpa [spells] using Terminal.literalLength_append_iff.1 h, rfl⟩
  | token t =>
    exact ⟨Terminal.spells_of_length h hstray, Terminal.stopsAt_of_length h hstray fun hlss =>
      hequal (decide_eq_true (hlss.imp (congrArg token) (congrArg token)))⟩

end Lexical

namespace Lexeme

/-- Whether lexemes are found one after the other in front of a text. -/
def FoundAll : List Lexeme → List Char → Prop
  | [], _ => True
  | l :: ls, rest => l.Found (writtenAll ls ++ rest) ∧ FoundAll ls rest

/-- Lexemes are found one after the other if the first ones are found in front of the others. -/
lemma foundAll_append {ls ms : List Lexeme} {rest : List Char} :
    FoundAll (ls ++ ms) rest ↔ FoundAll ls (writtenAll ms ++ rest) ∧ FoundAll ms rest := by
  induction ls with
  | nil => simp [FoundAll]
  | cons l ls ih => simp [FoundAll, ih, and_assoc]

/-- A text that starts with a gap and a word ends before a class of characters that neither blank
text nor the word can start with. -/
lemma endsBefore_of_found {p : Char → Bool} {l : Lexeme} {rest : List Char} (h : l.Found rest)
    (hblank : ∀ c, isSpace c = true ∨ c = '#' → p c = false)
    (hopens : ∀ c, l.kind.opens c = true → p c = false) :
    endsBefore p (l.gap ++ (l.text ++ rest)) = true := by
  cases hgap : l.gap with
  | nil =>
    obtain ⟨c, cs, heq, hc⟩ := Lexical.opens_of_length h.2.2
    simp [heq, endsBefore, hopens c hc]
  | cons c cs =>
    have hc := head_of_isGap (hgap ▸ h.1)
    simp [endsBefore, hblank c hc]

/-- Blank text may be right behind an operand. -/
lemma not_isStray_of_blank {c : Char} (h : isSpace c = true ∨ c = '#') :
    Terminal.isStray c = false := by
  rcases h with h | rfl
  · simp only [Terminal.isStray, Bool.or_eq_false_iff, not_isDigit_of_isSpace h]
    refine ⟨⟨?_, trivial⟩, ?_⟩
    · by_contra hvariant
      have hword := not_isWordPart_of_isSpace h
      simp [isWordPart_eq, Bool.not_eq_false _ ▸ hvariant] at hword
    · rw [beq_eq_false_iff_ne]
      rintro rfl
      revert h; decide
  · decide

/-- Blank text does not start with an equals sign. -/
lemma ne_equal_of_blank {c : Char} (h : isSpace c = true ∨ c = '#') : (c == '=') = false := by
  rcases h with h | rfl
  · rw [beq_eq_false_iff_ne]
    rintro rfl
    revert h; decide
  · decide

/-- Lexemes that are found one after the other, where each may meet the next, are laid out. -/
theorem laidOut_of_foundAll {ls : List Lexeme} {rest : List Char} (h : FoundAll ls rest)
    (hchain : (ls.map fun l => l.kind).IsChain fun x y => x.mayMeet y = true)
    (hstray : endsBefore Terminal.isStray rest = true)
    (hequal : endsBefore (· == '=') rest = true) : LaidOut ls rest := by
  induction ls with
  | nil => trivial
  | cons l ls ih =>
    obtain ⟨hfound, hmore⟩ := h
    refine laidOut_cons.2 ?_
    have hnext : (l.kind.isOpenEnded = true →
          endsBefore Terminal.isStray (writtenAll ls ++ rest) = true) ∧
        (l.kind.isUnequal = true → endsBefore (· == '=') (writtenAll ls ++ rest) = true) := by
      cases ls with
      | nil => exact ⟨fun _ => hstray, fun _ => hequal⟩
      | cons m ms =>
        have hmeet : l.kind.mayMeet m.kind = true := by
          simpa using (List.isChain_cons_cons.1 hchain).1
        simp only [Lexical.mayMeet, Bool.and_eq_true, Bool.or_eq_true, Bool.not_eq_true'] at hmeet
        rw [writtenAll_cons, List.append_assoc, List.append_assoc]
        constructor
        · intro hopen
          have hm : m.kind.mayStray = false := by simpa [hopen] using hmeet.1.1
          exact endsBefore_of_found hmore.1 (fun _ => not_isStray_of_blank)
            fun c hc => Lexical.not_isStray_of_opens hmore.1.2.1 hc hm
        · intro hunequal
          have hm : m.kind.opens '=' = false := by simpa [hunequal] using hmeet.1.2
          refine endsBefore_of_found hmore.1 (fun _ => ne_equal_of_blank) fun c hc => ?_
          rw [beq_eq_false_iff_ne]
          rintro rfl
          simp [hm] at hc
    obtain ⟨hspells, hstops⟩ := Lexical.spells_of_length hfound.2.2 hnext.1 hnext.2
    exact ⟨⟨hfound.1, hfound.2.1, hspells⟩, hstops, ih hmore hchain.tail⟩

end Lexeme

namespace Form

variable {call : Rule → Cursor → Outcome} {known : Rule → List Written → List Char → Prop}

/-- The lexemes that a form reads are found one after the other. -/
lemma foundAll_of_run
    (hfound : ∀ r ps rest, known r ps rest → Lexeme.FoundAll (lexemesAll ps) rest) {f : Form}
    {ps : List Written} {rest : List Char} (h : f.Run call known ps rest) :
    Lexeme.FoundAll (lexemesAll ps) rest := by
  induction f generalizing ps rest with
  | token t | mark m =>
    obtain ⟨l, rfl, -, hl⟩ := h
    exact ⟨hl, trivial⟩
  | nothing =>
    obtain rfl : ps = [] := h
    trivial
  | seq f g ihf ihg =>
    obtain ⟨qs, rs, rfl, hf, hg⟩ := h
    rw [lexemesAll_append, Lexeme.foundAll_append]
    exact ⟨ihf hf, ihg hg⟩
  | choice f g ihf ihg =>
    rcases h with hf | ⟨-, hg⟩
    · exact ihf hf
    · exact ihg hg
  | many f ih =>
    replace h : Repeats _ _ ps rest := h
    induction h with
    | nil => trivial
    | cons hqs _ _ ihps =>
      rw [lexemesAll_append, Lexeme.foundAll_append]
      exact ⟨ih hqs, ihps⟩
  | phrase p body ih =>
    obtain ⟨parts, rfl, hbody⟩ := h
    simpa [lexemesAll, lexemes] using ih hbody
  | graft f g ihf ihg =>
    obtain ⟨base, later, rfl, hbase, hlater, hf, hg⟩ := h
    have hboth := ihf hf
    simp only [lexemesAll, List.append_nil] at hboth ⊢
    rw [lexemes_attachAll hlater, Lexeme.foundAll_append]
    exact ⟨hboth, ihg hg⟩
  | rule r => exact hfound r ps rest h

end Form

namespace Rule

open Form

/-- The lexemes that a rule reads are found one after the other. -/
lemma foundAll_of_run {depth : Nat} {r : Rule} {ps : List Written} {rest : List Char}
    (h : Run depth r ps rest) : Lexeme.FoundAll (lexemesAll ps) rest := by
  induction depth generalizing r ps rest with
  | zero => exact h.elim
  | succ depth ih =>
    have hrun : r.form.Run (Rule.read depth) (Run depth) ps rest := h
    refine Form.foundAll_of_run (fun _ _ _ hr => ?_) hrun
    exact ih hr

/-- What a rule reads is laid out, where nothing follows that could belong to its last lexeme. -/
theorem laidOut_of_run {depth : Nat} {r : Rule} {ps : List Written} {rest : List Char}
    (h : Run depth r ps rest) (hstray : endsBefore Terminal.isStray rest = true)
    (hequal : endsBefore (· == '=') rest = true) : Lexeme.LaidOut (lexemesAll ps) rest :=
  Lexeme.laidOut_of_foundAll (foundAll_of_run h) (linked_of_run h).chain hstray hequal

end Rule

end PromqlGuide
