import Mathlib.Logic.Relation
import PromqlGuide.Proofs.Expr.Refusal
import PromqlGuide.Proofs.Expr.WellFormed
import PromqlGuide.Proofs.Token.Durations

/-!
# Selectors under modifiers

A selector may stand under any number of modifiers, which shift it in time or pin it to a time.
What is pinned hands on the expression that it is; what is shifted is the same selector with another
text and another shift.  So of several shifts of a selector only the outermost counts
(`Node.Carries.yields`, `Node.IsShift.yields_shifted`).
-/
namespace PromqlGuide

open Text

namespace Duration

variable {ps : List DurationPart} {cs : List Char}

/-- A duration with too many digits in a part is refused for that. -/
lemma read_eq_error (h : Writes ps cs) (hlong : ∃ p ∈ ps, numeralLimit < p.digits.length) :
    ∃ digits, numeralLimit < digits ∧ read cs = .error (.reading digits) := by
  cases htotal : total ps with
  | ok n =>
    obtain ⟨p, hp, hlength⟩ := hlong
    exact absurd ((total_eq_ok_iff.1 htotal).1 p hp) (Nat.not_le.2 hlength)
  | error cause =>
    obtain ⟨p, -, hp⟩ := total_eq_error htotal
    obtain ⟨hlength, rfl⟩ := readNumeral_eq_error hp
    refine ⟨_, hlength, ?_⟩
    rw [read, parts_of_writes h, htotal]
    rfl

/-- The shift that parts stand for, towards the past or, with a minus, towards the future. -/
def shift (minus : Bool) (ps : List DurationPart) :
    Int := if minus then -(span ps : Int) else span ps

end Duration

/-! ### Expressions -/

namespace Expr

/-- Whether an expression is a selector. -/
def IsSelector : Expr → Prop
  | vector .. | matrix .. => True
  | _ => False

/-- Whether an expression is a selector with another text and another shift in time. -/
inductive IsShifted (text : String) (offset : Int) : Expr → Expr → Prop where
  | vector {text' name : String} {matchers : List Matcher} {offset' : Option Int} :
      IsShifted text offset (.vector text' name matchers offset')
        (.vector text name matchers (some offset))
  | matrix {text' name : String} {matchers : List Matcher} {range : Int} {offset' : Option Int} :
      IsShifted text offset (.matrix text' name matchers range offset')
        (.matrix text name matchers range (some offset))

variable {text text' : String} {offset offset' : Int} {a b c : Expr}

/-- An expression is shifted in time exactly if it is a selector. -/
lemma isShifted_iff : IsShifted text offset a b ↔ shifted? text offset a = some b := by
  constructor
  · rintro (_ | _) <;> rfl
  · intro h
    cases a <;> simp only [shifted?, Option.some.injEq, reduceCtorEq] at h
    all_goals
      subst h
      constructor

/-- Every selector can be shifted in time. -/
lemma exists_isShifted (h : a.IsSelector) (text : String) (offset : Int) :
    ∃ b, IsShifted text offset a b := by
  cases a with
  | vector => exact ⟨_, .vector⟩
  | matrix => exact ⟨_, .matrix⟩
  | _ => cases h

/-- What is shifted in time is a selector. -/
lemma IsShifted.isSelector (h : IsShifted text offset a b) : b.IsSelector := by
  cases h <;> trivial

/-- Of two shifts, the second counts. -/
lemma IsShifted.trans (h : IsShifted text offset a b) (h' : IsShifted text' offset' b c) :
    IsShifted text' offset' a c := by
  cases h <;> cases h' <;> constructor

end Expr

/-! ### Nodes -/

namespace Node

open PromqlGuide.Expr

variable {query : List Char} {core base s : Node} {minus : Bool} {ps qs : List DurationPart}
    {a : Expr}

/-- Whether a node shifts another one in time by a duration that is written as parts, with or
without a minus in front of it. -/
structure IsShift (query : List Char) (base s : Node) (minus : Bool) (ps : List DurationPart) :
    Prop where
  kind : s.kind = .phrase .offset
  operand : base.kind.isExpression = true
  parts : ∃ word sign d, s.children = base :: word :: sign ++ [d] ∧
    word.kind = .leaf (.keyword .offset) ∧
    sign.map Node.kind = (if minus then [.leaf (.symbol .sub)] else []) ∧ d.kind = .leaf .duration ∧
    Duration.Writes ps (d.text query)

/-- Whether a node pins another one to a time. -/
structure IsPin (base s : Node) : Prop where
  kind : s.kind = .phrase .pinned
  operand : base.kind.isExpression = true
  parts : ∃ mark time, s.children = [base, mark, time] ∧ mark.kind = .leaf (.symbol .atSign) ∧
    time.kind ∈ [.leaf .timestamp, .leaf .startOrEnd]

/-- Whether a node is another one under modifiers, whose durations are written as parts. -/
inductive Carries (query : List Char) (core : Node) : Node → List DurationPart → Prop where
  | refl : Carries query core core []
  | pin {base s : Node} {ps : List DurationPart} : Carries query core base ps → base.IsPin s →
      Carries query core s ps
  | shift {base s : Node} {minus : Bool} {ps qs : List DurationPart} : Carries query core base ps →
      base.IsShift query s minus qs → Carries query core s (qs ++ ps)

/-! ### Nodes that are read -/

/-- What is shifted in time is an expression, and the duration is written as parts. -/
lemma exists_isShift (hread : ∀ k ∈ s.preorder, k.IsRead query) (hkind : s.kind = .phrase .offset) :
    ∃ (base : Node) (minus : Bool) (ps : List DurationPart), base.IsShift query s minus ps := by
  obtain ⟨base, more, hchildren, hbase, -, hmore⟩ := (hread s s.mem_preorder_self).areParts hkind
  have hwrites : ∀ d ∈ s.children, d.kind = .leaf .duration →
      Duration.Writes (Duration.parts (d.text query)) (d.text query) := by
    intro d hd hduration
    have hspells := (hread d (mem_preorder_of_mem_children hd)).spelled _ hduration
    exact Duration.writes_parts (beq_iff_eq.1 hspells)
  simp only [List.mem_cons, List.not_mem_nil, or_false] at hmore
  rcases hmore with heq | heq
  · obtain ⟨word, rest, rfl, hword, hrest⟩ := List.map_eq_cons_iff.1 heq
    obtain ⟨d, rest, rfl, hd, hnil⟩ := List.map_eq_cons_iff.1 hrest
    obtain rfl := List.map_eq_nil_iff.1 hnil
    exact ⟨base, false, _, hkind, hbase, word, [], d, hchildren, hword, rfl, hd,
      hwrites d (by simp [hchildren]) hd⟩
  · obtain ⟨word, rest, rfl, hword, hrest⟩ := List.map_eq_cons_iff.1 heq
    obtain ⟨sign, rest, rfl, hsign, hrest⟩ := List.map_eq_cons_iff.1 hrest
    obtain ⟨d, rest, rfl, hd, hnil⟩ := List.map_eq_cons_iff.1 hrest
    obtain rfl := List.map_eq_nil_iff.1 hnil
    exact ⟨base, true, _, hkind, hbase, word, [sign], d, hchildren, hword, by simp [hsign], hd,
      hwrites d (by simp [hchildren]) hd⟩

/-- A node that pins to a time pins another node. -/
lemma exists_isPin (hread : s.IsRead query) (hkind : s.kind = .phrase .pinned) :
    ∃ base : Node, base.IsPin s := by
  obtain ⟨base, more, hchildren, hbase, -, hmore⟩ := hread.areParts hkind
  have htime : ∃ k ∈ [Kind.leaf .timestamp, .leaf .startOrEnd],
      more.map Node.kind = [.leaf (.symbol .atSign), k] := by
    simpa using hmore
  obtain ⟨k, hk, heq⟩ := htime
  obtain ⟨mark, rest, rfl, hmark, hrest⟩ := List.map_eq_cons_iff.1 heq
  obtain ⟨time, rest, rfl, rfl, hnil⟩ := List.map_eq_cons_iff.1 hrest
  obtain rfl := List.map_eq_nil_iff.1 hnil
  exact ⟨base, hkind, hbase, mark, time, hchildren, hmark, hk⟩

/-! ### What nodes under modifiers stand for -/

/-- What is pinned to a time stands for the same expression. -/
lemma IsPin.result (h : base.IsPin s) : (ofTree query s).result = (ofTree query base).result := by
  obtain ⟨hkind, hbase, mark, time, hchildren, hmark, htime⟩ := h
  have hoperands : (s.children.filter fun c => c.kind.isExpression) = [base] := by
    have hnone : mark.kind.isExpression = false ∧ time.kind.isExpression = false := by
      simp only [List.mem_cons, List.not_mem_nil, or_false] at htime
      rcases htime with htime | htime <;> rw [hmark, htime] <;> exact ⟨rfl, rfl⟩
    simp [hchildren, hbase, hnone]
  rw [ofTree_eq_ofBranches, ofBranches, hkind]
  dsimp only
  rw [ofOther, toPart_treeBranch, operands_partOf, hoperands]
  cases hresult : (ofTree query base).result with
  | error cause => exact Noted.result_bind_error (Noted.result_bind_error hresult _) _
  | ok a =>
    have hall : (Noted.all ([base].map (ofTree query))).result = .ok [a] :=
      Noted.result_bind_eq hresult _
    rw [Noted.result_bind_eq hall]
    rfl

/-- The parts of a shift are found. -/
lemma IsShift.exists_duration (h : base.IsShift query s minus ps) :
    ∃ d, s.child? [.leaf .duration] = some d ∧ Duration.Writes ps (d.text query) ∧
      (s.child? [.leaf (.symbol .sub)]).isSome = minus ∧
      (s.children.find? fun c => c.kind.isExpression) = some base := by
  obtain ⟨hkind, hbase, word, sign, d, hchildren, hword, hsign, hd, hwrites⟩ := h
  have hduration : base.kind ≠ .leaf .duration := fun heq => by rw [heq] at hbase; cases hbase
  have hminus : base.kind ≠ .leaf (.symbol .sub) := fun heq => by rw [heq] at hbase; cases hbase
  cases minus with
  | false =>
    obtain rfl := List.map_eq_nil_iff.1 hsign
    refine ⟨d, ?_, hwrites, ?_, ?_⟩ <;>
      simp [child?, hchildren, hbase, hword, hd, hduration, hminus]
  | true =>
    obtain ⟨m, rfl, hm⟩ := List.map_eq_singleton_iff.1 hsign
    refine ⟨d, ?_, hwrites, ?_, ?_⟩ <;>
      simp [child?, hchildren, hbase, hword, hd, hm, hduration, hminus]

/-- What a node shifts, and by what, is determined. -/
lemma IsShift.unique {base' : Node} {minus' : Bool} (h : base.IsShift query s minus ps)
    (h' : base'.IsShift query s minus' qs) : base = base' ∧ minus = minus' ∧ ps = qs := by
  obtain ⟨d, hd, hwrites, hminus, hbase⟩ := h.exists_duration
  obtain ⟨d', hd', hwrites', hminus', hbase'⟩ := h'.exists_duration
  obtain rfl := Option.some.inj (hd.symm.trans hd')
  exact ⟨Option.some.inj (hbase.symm.trans hbase'), hminus.symm.trans hminus',
    (Duration.parts_of_writes hwrites).symm.trans (Duration.parts_of_writes hwrites')⟩

/-- Whether a node stands for an expression with a property, unless the digits of a part are too
many to be read. -/
def Yields (query : List Char) (s : Node) (ps : List DurationPart) (P : Expr → Prop) : Prop :=
  ((∀ p ∈ ps, p.digits.length ≤ numeralLimit) → ∃ a, P a ∧ (ofTree query s).result = .ok a) ∧
    ((∃ p ∈ ps, numeralLimit < p.digits.length) →
      ∃ digits, numeralLimit < digits ∧ (ofTree query s).result = .error (.reading digits))

/-- A node that yields the same expression has it with the same properties. -/
lemma Yields.congr {P : Expr → Prop} {top : Node} (h : Yields query s ps P)
    (heq : (ofTree query top).result = (ofTree query s).result) : Yields query top ps P := by
  unfold Yields
  rwa [heq]

/-- What is shifted is made first, then the duration is read. -/
lemma IsShift.result_eq (h : base.IsShift query s minus ps) {d : Node}
    (hd : s.child? [.leaf .duration] = some d) (ha : (ofTree query base).result = .ok a)
    (hselector : a.IsSelector) :
    (ofTree query s).result = (duration query d >>= fun ms =>
      pure ((shifted? (textOf query s) (if minus then -(ms : Int) else ms) a).getD a)).result := by
  obtain ⟨-, -, -, hminus, hfirst⟩ := h.exists_duration
  obtain ⟨b, hb⟩ := exists_isShifted hselector (textOf query s) 0
  rw [ofTree_eq_ofBranches, ofBranches, h.kind]
  dsimp only
  rw [ofOffset, toPart_treeBranch, firstOperand_partOf, hfirst]
  dsimp only [Option.map_some, partOf]
  rw [Noted.result_bind_eq ha, hd, isShifted_iff.1 hb, hminus]

/-- If there is no expression for what is shifted, there is none for the shift. -/
lemma IsShift.result_eq_error (h : base.IsShift query s minus ps) {cause : NumeralTooLong}
    (hbase : (ofTree query base).result = .error cause) : (ofTree query s).result =
      .error cause := by
  obtain ⟨-, -, -, -, hfirst⟩ := h.exists_duration
  rw [ofTree_eq_ofBranches, ofBranches, h.kind]
  dsimp only
  rw [ofOffset, toPart_treeBranch, firstOperand_partOf, hfirst]
  exact Noted.result_bind_error hbase _

/-- A selector that is shifted keeps everything but its text and its shift. -/
lemma IsShift.yields {P : Expr → Prop} (h : base.IsShift query s minus ps)
    (hbase : Yields query base qs P) (hP : ∀ a, P a → a.IsSelector) :
    Yields query s (ps ++ qs) fun b =>
      ∃ a, P a ∧ IsShifted (textOf query s) (Duration.shift minus ps) a b := by
  obtain ⟨d, hd, hwrites, -, -⟩ := h.exists_duration
  simp only [Yields, List.forall_mem_append]
  constructor
  · rintro ⟨hshort, hbelow⟩
    obtain ⟨a, ha, hok⟩ := hbase.1 hbelow
    obtain ⟨b, hb⟩ := exists_isShifted (hP a ha) (textOf query s) (Duration.shift minus ps)
    have hread : (duration query d).result = .ok (Duration.span ps) :=
      Duration.read_of_writes hwrites hshort
    have hshifted : shifted? (textOf query s)
        (if minus then -(Duration.span ps : Int) else Duration.span ps) a = some b :=
      isShifted_iff.1 hb
    refine ⟨b, ⟨a, ha, hb⟩, ?_⟩
    rw [h.result_eq hd hok (hP a ha), Noted.result_bind_eq hread, hshifted]
    rfl
  · intro hlong
    by_cases hbelow : ∀ p ∈ qs, p.digits.length ≤ numeralLimit
    · obtain ⟨a, ha, hok⟩ := hbase.1 hbelow
      have hps : ∃ p ∈ ps, numeralLimit < p.digits.length := by
        obtain ⟨p, hp, hlength⟩ := hlong
        refine ⟨p, (List.mem_append.1 hp).resolve_right fun hqs => ?_, hlength⟩
        exact absurd (hbelow p hqs) (Nat.not_le.2 hlength)
      obtain ⟨digits, hdigits, hread⟩ := Duration.read_eq_error hwrites hps
      refine ⟨digits, hdigits, ?_⟩
      rw [h.result_eq hd hok (hP a ha)]
      exact Noted.result_bind_error (m := duration query d) hread _
    · push Not at hbelow
      obtain ⟨digits, hdigits, herror⟩ := hbase.2 hbelow
      exact ⟨digits, hdigits, h.result_eq_error herror⟩

/-- Of a selector that may be shifted already, the shift counts. -/
lemma IsShift.yields_shifted (h : base.IsShift query s minus ps) (hselector : a.IsSelector)
    (hbase : Yields query base qs fun b => b = a ∨ ∃ text offset, IsShifted text offset a b) :
    Yields query s (ps ++ qs) fun b => IsShifted (textOf query s)
      (Duration.shift minus ps) a b := by
  have habove := h.yields hbase fun b hb => by
    rcases hb with rfl | ⟨text, offset, hb⟩
    · exact hselector
    · exact hb.isSelector
  refine ⟨fun hshort => ?_, habove.2⟩
  obtain ⟨c, ⟨b, hb, hc⟩, hok⟩ := habove.1 hshort
  refine ⟨c, ?_, hok⟩
  rcases hb with rfl | ⟨text, offset, hb⟩
  · exact hc
  · exact hb.trans hc

/-- Under modifiers a selector keeps everything but its text and its shift. -/
theorem Carries.yields (h : core.Carries query s ps) (ha : (ofTree query core).result = .ok a)
    (hselector : a.IsSelector) :
    Yields query s ps fun b => b = a ∨ ∃ text offset, IsShifted text offset a b := by
  induction h with
  | refl => exact ⟨fun _ => ⟨a, Or.inl rfl, ha⟩, by simp⟩
  | pin _ hpin ih => exact ih.congr hpin.result
  | shift _ hshift ih =>
    have habove := hshift.yields_shifted hselector ih
    refine ⟨fun hshort => ?_, habove.2⟩
    obtain ⟨c, hc, hok⟩ := habove.1 hshort
    exact ⟨c, Or.inr ⟨_, _, hc⟩, hok⟩

/-- What is pinned any number of times stands for the same expression. -/
lemma result_of_pinned {top : Node} (h : Relation.ReflTransGen IsPin s top) :
    (ofTree query top).result = (ofTree query s).result := by
  induction h with
  | refl => rfl
  | tail _ hpin ih => rw [hpin.result, ih]

end Node

end PromqlGuide
