import PromqlGuide.Proofs.Display.JsonOutput
import PromqlGuide.Proofs.Duration.Size
import PromqlGuide.Proofs.Expr.Makers
import PromqlGuide.Proofs.Expr.Operators

/-!
# Numbers in expressions

The ranges, steps and shifts in time of an expression come from the durations in its text, each from
one of them.  They have hardly more digits than the text has characters, but the text may be as long
as one likes, and a number that can be read may be too long to be written once it is counted in
milliseconds.

An explanation writes durations in the largest unit that they reach, and JSON output writes them in
milliseconds.  So each has its own condition on the numbers of an expression.

Main statements: the object of an expression can be written, as far as its numbers go, exactly if
these can (`Expr.isWritable_toJson_iff`), and the numbers of the expression of a tree are bounded by
the length of the text (`Expr.isBelow_ofTree`).
-/
namespace PromqlGuide

open Text

namespace Expr

variable {query : List Char} {n : Node} {bs : List Branch} {a : Expr} {bound : Nat}

/-! ### JSON output -/

/-- A list of strings has no number in it. -/
lemma isWritable_strings (ss : List String) : (Json.arr (ss.map .str)).isWritable = true := by
  rw [Json.isWritable_arr, List.forall_mem_map]
  exact fun _ _ => rfl

/-- A list of matchers has no number in it. -/
lemma isWritable_matchers (ms : List Matcher) :
    (Json.arr (ms.map Matcher.toJson)).isWritable = true := by
  rw [Json.isWritable_arr, List.forall_mem_map]
  exact fun _ _ => rfl

/-- A number, or nothing, can be written exactly if the number can. -/
lemma isWritable_intOrNull {o : Option Int} :
    (intOrNull o).isWritable = true ↔ ∀ k ∈ o.toList, isWritable k = true := by
  cases o with
  | none => exact iff_of_true rfl (List.forall_mem_nil _)
  | some k =>
    rw [intOrNull, Json.isWritable_int, Option.toList_some, List.forall_mem_singleton]

/-- The object of an expression can be written exactly if its numbers and the objects of its
children can. -/
lemma isWritable_object :
    (a.object (a.children.map toJson)).isWritable = true ↔
      (∀ k ∈ a.integers, isWritable k = true) ∧
        (Json.arr (a.children.map toJson)).isWritable = true := by
  have hstr : ∀ s : String, (Json.str s).isWritable = true := fun _ => rfl
  have hbool : ∀ b : Bool, (Json.bool b).isWritable = true := fun _ => rfl
  have hnil : (Json.arr ([].map toJson)).isWritable = true := rfl
  cases a <;>
    simp only [object, children, integers, Json.isWritable_obj, List.forall_mem_cons,
      List.not_mem_nil, List.forall_mem_append, hstr, hbool, hnil, isWritable_strings,
      isWritable_matchers, isWritable_intOrNull, Json.isWritable_int, false_imp_iff, implies_true,
        true_and, and_true, and_assoc]

/-- An expression has JSON output exactly if the numbers throughout it can be written. -/
lemma isWritable_toJson_iff :
    a.toJson.isWritable = true ↔
      Throughout (fun e => ∀ k ∈ e.integers, isWritable k = true) a := by
  induction a using Expr.inductionOn with
  | step e ih =>
    rw [toJson_eq, isWritable_object, Json.isWritable_arr, List.forall_mem_map]
    constructor
    · rintro ⟨hown, hchildren⟩
      exact throughout hown fun c hc => (ih c hc).1 (hchildren c hc)
    · exact fun h => ⟨h.self, fun c hc => (ih c hc).2 (h.child hc)⟩

/-! ### Bounds -/

/-- Whether the numbers of an expression are below a bound, whatever their signs. -/
def IsBelow (bound : Nat) (a : Expr) : Prop := ∀ k ∈ a.integers, k.natAbs < bound

/-- An expression without numbers is below every bound. -/
lemma isBelow_of_nil (h : a.integers = []) : a.IsBelow bound := by simp [IsBelow, h]

/-- Of the compounds only subqueries have numbers. -/
lemma isBelow_of_phrase {p : Phrase} (h : a.phrase? = some p) (hp : p ≠ .subquery) :
    a.IsBelow bound := by
  cases a with
  | subquery => exact absurd (Option.some.inj h).symm hp
  | vector | matrix => cases h
  | _ => exact isBelow_of_nil rfl

/-- A bound for the durations in a text. -/
def durationBound (query : List Char) : Nat := 10 ^ (query.length + 10)

/-- A duration is below the bound for the text that it is read from. -/
lemma lt_of_duration {c : Node} {ms : Nat} (h : (duration query c).result = .ok ms) :
    ms < durationBound query := by
  have hlength : (c.text query).length ≤ query.length := by
    simp only [Node.text, slice, List.length_take, List.length_drop]
    omega
  exact (Duration.read_lt h).trans_le (Nat.pow_le_pow_right (by decide) (by omega))

/-- A duration, if there is one, is below the bound for the text. -/
lemma lt_of_duration? {o : Option Node} {ms? : Option Int}
    (h : (duration? query o).result = .ok ms?) :
    ∀ k ∈ ms?.toList, k.natAbs < durationBound query := by
  cases o with
  | none =>
    obtain rfl := Noted.result_pure h
    simp
  | some c =>
    obtain ⟨ms, hms, h⟩ := Noted.result_bind h
    obtain rfl := Noted.result_pure h
    simpa using lt_of_duration hms

/-- The default range is below the bound for every text. -/
lemma fallback_lt (query : List Char) : Duration.fallback < durationBound query :=
  Nat.lt_of_lt_of_le (by decide : Duration.fallback < 10 ^ 10)
    (Nat.pow_le_pow_right (by decide) (Nat.le_add_left _ _))

/-- A selector that is shifted in time has the shift for a number, and its own. -/
lemma isBelow_shifted {text : String} {offset : Int} {e e' : Expr} (he : e.IsBelow bound)
    (hoffset : offset.natAbs < bound) (h : shifted? text offset e = some e') :
    e'.IsBelow bound := by
  cases e <;> simp only [shifted?, Option.some.injEq, reduceCtorEq] at h
  all_goals
    subst h
    simp_all [IsBelow, integers]

section

variable (hparts : ∀ p ∈ reach bs, ∀ e, p.expr.result = .ok e → e.IsBelow (durationBound query))

include hparts

/-- The expressions of parts are below the bound if all are. -/
lemma isBelow_of_fromPart (h : FromPart (reach bs) a) : a.IsBelow (durationBound query) := by
  obtain ⟨p, hp, -, hexpr⟩ := h
  exact hparts p hp a hexpr

/-- The numbers of a range are below the bound. -/
lemma isBelow_ofMatrix (h : (ofMatrix query n bs).result = .ok a) :
    a.IsBelow (durationBound query) := by
  have hmade : ∀ {text name : String} {matchers : List Matcher} {range : Nat},
      range < durationBound query →
        (matrix text name matchers range none).IsBelow (durationBound query) := by
    intro text name matchers range hrange k hk
    obtain rfl := List.mem_singleton.1 hk
    exact hrange
  have hrange :
    ∀ range, ((n.child? [.leaf .duration, .durationOperand]).elim (pure Duration.fallback)
      (duration query)).result = .ok range → range < durationBound query := by
    intro range h
    cases hchild : n.child? [.leaf .duration, .durationOperand] <;> rw [hchild] at h
    · exact Noted.result_pure h ▸ fallback_lt query
    · exact lt_of_duration h
  unfold ofMatrix at h
  cases hchild : n.child? [.leaf .duration, .durationOperand] <;> rw [hchild] at h hrange
  all_goals
    obtain ⟨range, hresult, h⟩ := Noted.result_bind h
    have hbound := hrange range hresult
    split at h
    · obtain ⟨ms, -, h⟩ := Noted.result_bind h
      obtain rfl := Noted.result_pure h
      exact hmade hbound
    · split at h
      · next b hb => exact hparts b.toPart (mem_reach_of_mem (mem_of_branch hb).1) a h
      · obtain rfl := Noted.result_pure h
        exact hmade hbound

/-- The numbers of a shifted expression are below the bound. -/
lemma isBelow_ofOffset (h : (ofOffset query n bs).result = .ok a) :
    a.IsBelow (durationBound query) := by
  unfold ofOffset at h
  split at h
  · obtain rfl := Noted.result_pure h
    exact isBelow_of_nil rfl
  · next p hp =>
    obtain ⟨inner, hinner, h⟩ := Noted.result_bind h
    have hbelow := hparts p (mem_reach_of_mem_map (mem_of_firstOperand hp).1) inner hinner
    split at h
    · obtain ⟨ms, hms, h⟩ := Noted.result_bind h
      obtain rfl := Noted.result_pure h
      cases hshifted : shifted? (textOf query n) _ inner with
      | none => exact hbelow
      | some e =>
        refine isBelow_shifted hbelow ?_ hshifted
        have hbound := lt_of_duration hms
        split_ifs <;> omega
    · obtain rfl := Noted.result_pure h
      exact hbelow

/-- The numbers of what is handed on are below the bound. -/
lemma isBelow_ofOther (h : (ofOther query n bs).result = .ok a) :
    a.IsBelow (durationBound query) := by
  rcases ofOther_cases h with ⟨es, rfl, -⟩ | hfrom
  · exact isBelow_of_nil rfl
  · exact isBelow_of_fromPart hparts hfrom

omit hparts in
/-- The numbers of a subquery are below the bound. -/
lemma isBelow_ofSubquery (h : (ofSubquery query n bs).result = .ok a) :
    a.IsBelow (durationBound query) := by
  obtain ⟨es, -, h⟩ := Noted.result_bind h
  obtain ⟨range, hrange, h⟩ := Noted.result_bind h
  obtain ⟨step, hstep, h⟩ := Noted.result_bind h
  obtain rfl := Noted.result_pure h
  exact List.forall_mem_append.2 ⟨lt_of_duration? hrange, lt_of_duration? hstep⟩

/-- What a node makes that does not only wrap another has no numbers of its own but those of its
durations. -/
lemma isBelow_ofBranches (hroot : n.kind ≠ .root) (hwrapper : n.kind ≠ .wrapper)
    (h : (ofBranches query n bs).result = .ok a) : a.IsBelow (durationBound query) := by
  -- Most nodes make expressions without a number of milliseconds.
  have hplain : ∀ e : Expr, e.integers = [] → (pure e : Noted Expr).result = .ok a →
      a.IsBelow (durationBound query) := by
    intro e hintegers h
    obtain rfl := Noted.result_pure h
    exact isBelow_of_nil hintegers
  unfold ofBranches at h
  cases hkind : n.kind with
  | root => exact absurd hkind hroot
  | wrapper => exact absurd hkind hwrapper
  | durationNumber =>
    rw [hkind] at h
    exact hplain _ rfl h
  | leaf t =>
    rw [hkind] at h
    cases t with
    | number | string => exact hplain _ rfl h
    | _ => exact isBelow_ofOther hparts h
  | phrase p =>
    rw [hkind] at h
    cases p with
    | matrixSelector => exact isBelow_ofMatrix hparts h
    | offset => exact isBelow_ofOffset hparts h
    | subquery => exact isBelow_ofSubquery h
    | vectorSelector =>
      obtain ⟨ms, -, h⟩ := Noted.result_bind h
      exact hplain _ rfl h
    | aggregation => exact isBelow_of_phrase (phrase_ofAggregation h) (by decide)
    | call => exact isBelow_of_phrase (phrase_ofCall h) (by decide)
    | binary => exact isBelow_of_phrase (phrase_ofBinary h) (by decide)
    | paren => exact isBelow_of_phrase (phrase_ofParen h) (by decide)
    | unary => exact isBelow_of_phrase (phrase_ofUnary h) (by decide)
    | _ => exact isBelow_ofOther hparts h
  | _ =>
    rw [hkind] at h
    exact isBelow_ofOther hparts h

end

/-- The numbers throughout the expression of any tree are hardly longer than the text. -/
theorem isBelow_ofTree (n : Node) : ∀ m ∈ n.preorder, ∀ a, (ofTree query m).result = .ok a →
    Throughout (IsBelow (durationBound query)) a := by
  refine throughout_ofTree (fun _ => isBelow_of_nil rfl) ?_ n
  intro n bs a hroot hwrapper hparts h
  exact isBelow_ofBranches hparts hroot hwrapper h

end Expr

end PromqlGuide
