import PromqlGuide.Expr.ToJson
import PromqlGuide.Proofs.Expr.Places
import PromqlGuide.Proofs.Json.Writable

/-!
# How deep expressions are nested

The height of an expression is the number of its levels: one for itself, and those of its child with
the most.  All that is done with an expression by recursion needs room for its height.

Main statements: the object of an expression is made exactly where there is room for its height
(`Expr.toJsonWithin_eq`), and arrays and objects are nested in it about twice as deep
(`Expr.nesting_toJson_le`).
-/
namespace PromqlGuide.Expr

variable {e c : Expr} {levels : Nat}

/-! ### Levels -/

/-- How many levels an expression has. -/
def height : Expr → Nat := fold fun _ below => below.foldl max 0 + 1

/-- An expression has one level more than its highest child. -/
lemma height_eq (e : Expr) : e.height = (e.children.map height).foldl max 0 + 1 := by
  unfold height
  rw [fold_eq]

/-- Some levels are enough for an expression below a depth if they go on below the depth and are
enough for its children one deeper. -/
lemma height_add_le_iff {depth : Nat} :
    e.height + depth ≤ levels ↔
      depth < levels ∧ ∀ c ∈ e.children, c.height + (depth + 1) ≤ levels := by
  rw [height_eq, Nat.add_assoc, Nat.add_comm 1 depth]
  by_cases hdepth : depth < levels
  · have hmove : ∀ h, h + (depth + 1) ≤ levels ↔ h ≤ levels - (depth + 1) := by
      intro h
      omega
    simp [hmove, hdepth, foldl_max_le_iff]
  · refine iff_of_false ?_ fun h => hdepth h.1
    omega

/-- No expression is without a level. -/
lemma not_height_le_zero (e : Expr) : ¬ e.height ≤ 0 := by
  rw [height_eq]
  exact Nat.not_succ_le_zero _

/-- One level more is enough for an expression if the others are enough for its children. -/
lemma height_le_succ_iff : e.height ≤ levels + 1 ↔ ∀ c ∈ e.children, c.height ≤ levels := by
  have hiff : e.height + 0 ≤ levels + 1 ↔ _ := height_add_le_iff
  simpa using hiff

/-- Some levels are enough for an expression below a depth if they go on below all its parts. -/
lemma height_add_le_iff_preorder {depth : Nat} :
    e.height + depth ≤ levels ↔ ∀ part ∈ e.preorder depth, part.1 < levels := by
  induction e using Expr.inductionOn generalizing depth with
  | step e ih =>
    rw [height_add_le_iff, preorder_eq, List.forall_mem_cons]
    simp only [List.forall_mem_flatMap]
    exact and_congr_right fun _ => forall₂_congr fun c hc => ih c hc

/-- Some levels are enough for an expression if they go on below all its parts. -/
lemma height_le_iff_preorder : e.height ≤ levels ↔ ∀ part ∈ e.preorder 0, part.1 < levels := by
  rw [← height_add_le_iff_preorder, Nat.add_zero]

/-! ### Objects -/

/-- The object of an expression is made exactly where there is room for its levels. -/
theorem toJsonWithin_eq (levels : Nat) (e : Expr) :
    e.toJsonWithin levels = if e.height ≤ levels then some e.toJson else none := by
  induction levels generalizing e with
  | zero => rw [if_neg e.not_height_le_zero, toJsonWithin]
  | succ levels ih =>
    rw [toJsonWithin]
    split_ifs with hroom
    · have hbelow : e.children.mapM (toJsonWithin levels) = some (e.children.map toJson) := by
        refine mapM_eq_pure fun c hc => ?_
        rw [ih, if_pos (height_le_succ_iff.1 hroom c hc)]
        rfl
      rw [hbelow, Option.map_some, toJson_eq]
    · rw [height_le_succ_iff] at hroom
      obtain ⟨c, hc, hhigh⟩ : ∃ c ∈ e.children, ¬ c.height ≤ levels := by simpa using hroom
      have hnone : c.toJsonWithin levels = none := by rw [ih, if_neg hhigh]
      rw [mapM_eq_none hc hnone, Option.map_none]

/-- A whole number, or nothing, holds no array and no object. -/
lemma nesting_intOrNull (o : Option Int) (depth : Nat) : (intOrNull o).nesting ≤ depth := by
  cases o <;> exact Nat.zero_le depth

/-- Strings are nested one deep in their array. -/
lemma nesting_strings (ss : List String) (depth : Nat) :
    (Json.arr (ss.map .str)).nesting ≤ depth + 1 := by
  rw [Json.nesting_arr_le_iff, List.forall_mem_map]
  exact fun _ _ => Nat.zero_le depth

/-- Matchers are nested two deep in their array. -/
lemma nesting_matchers (ms : List Matcher) (depth : Nat) :
    (Json.arr (ms.map Matcher.toJson)).nesting ≤ depth + 2 := by
  rw [Json.nesting_arr_le_iff, List.forall_mem_map]
  intro m _
  have hstr : ∀ s : String, (Json.str s).nesting ≤ depth := fun _ => Nat.zero_le _
  simp only [Matcher.toJson, Json.nesting_obj_le_iff, List.forall_mem_cons, List.not_mem_nil, hstr,
    false_imp_iff, implies_true, and_self]

/-- An object is nested two deeper than those of its children, which stand in an array, and no
deeper than its matchers ask for. -/
lemma nesting_object_le {children : List Json} {depth : Nat}
    (h : ∀ v ∈ children, v.nesting ≤ depth + 1) : (e.object children).nesting ≤ depth + 3 := by
  have hchildren : (Json.arr children).nesting ≤ depth + 2 := Json.nesting_arr_le_iff.2 h
  have hstr : ∀ s : String, (Json.str s).nesting ≤ depth + 2 := fun _ => Nat.zero_le _
  have hbool : ∀ b : Bool, (Json.bool b).nesting ≤ depth + 2 := fun _ => Nat.zero_le _
  have hint : ∀ n : Int, (Json.int n).nesting ≤ depth + 2 := fun _ => Nat.zero_le _
  cases e <;>
    simp only [object, Json.nesting_obj_le_iff, List.forall_mem_cons, List.not_mem_nil, hchildren,
      hstr, hbool, hint, nesting_intOrNull, nesting_strings, nesting_matchers, false_imp_iff,
      implies_true, and_self]

/-- In the object of an expression arrays and objects are nested at most twice as deep as its parts,
and once more for matchers. -/
theorem nesting_toJson_le (e : Expr) : e.toJson.nesting ≤ 2 * e.height + 1 := by
  induction e using Expr.inductionOn with
  | step e ih =>
    obtain ⟨h, hheight⟩ : ∃ h, e.height = h + 1 := ⟨_, height_eq e⟩
    rw [toJson_eq, hheight]
    have hbelow : ∀ v ∈ e.children.map toJson, v.nesting ≤ 2 * h + 1 := by
      rw [List.forall_mem_map]
      intro c hc
      have hlow : c.height ≤ h := height_le_succ_iff.1 hheight.le c hc
      exact (ih c hc).trans (by omega)
    exact (nesting_object_le hbelow).trans (by omega)

/-- Whether there is room for the JSON text of an expression: for its levels when the object is
made, and for what is nested in the object when it is written. -/
def FitsJson (limits : Limits) (e : Expr) : Prop :=
  e.height ≤ limits.converting ∧ e.toJson.nesting ≤ limits.writing

/-- There is room for the JSON text of an expression with few enough levels. -/
lemma fitsJson_of_height_le {limits : Limits} (hconverting : e.height ≤ limits.converting)
    (hwriting : 2 * e.height + 1 ≤ limits.writing) : e.FitsJson limits :=
  ⟨hconverting, e.nesting_toJson_le.trans hwriting⟩

end PromqlGuide.Expr
