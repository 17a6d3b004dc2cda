import PromqlGuide.Json.Writer
import PromqlGuide.Proofs.Results

/-!
# What can be written

A value is written unless one of its whole numbers has too many digits, or its arrays and objects
are nested deeper than there is room for.  The writer meets the obstacles one after the other and
ends at the first, so a value with obstacles of both kinds may end it with either.

Main statement: a value is written exactly if it has no obstacle, and otherwise one of its obstacles
is the reason (`Json.yieldsIffBoth_write`).
-/
namespace PromqlGuide.Json

/-! ### Obstacles -/

mutual

/-- Whether all whole numbers in a value are within the limit. -/
def isWritable : Json → Bool
  | int n => Text.isWritable n
  | arr items => areWritable items
  | obj members => areMembersWritable members
  | _ => true

/-- Whether all whole numbers in the items are within the limit. -/
def areWritable : List Json → Bool
  | [] => true
  | v :: rest => isWritable v && areWritable rest

/-- Whether all whole numbers in the members are within the limit. -/
def areMembersWritable : List (String × Json) → Bool
  | [] => true
  | (_, v) :: rest => isWritable v && areMembersWritable rest

end

mutual

/-- How deep arrays and objects are nested in a value. -/
def nesting : Json → Nat
  | arr items => nestingOfItems items + 1
  | obj members => nestingOfMembers members + 1
  | _ => 0

/-- How deep arrays and objects are nested in the items. -/
def nestingOfItems : List Json → Nat
  | [] => 0
  | v :: rest => max (nesting v) (nestingOfItems rest)

/-- How deep arrays and objects are nested in the members. -/
def nestingOfMembers : List (String × Json) → Nat
  | [] => 0
  | (_, v) :: rest => max (nesting v) (nestingOfMembers rest)

end

/-- An array has the obstacles of its items. -/
lemma isWritable_arr {items : List Json} :
    (arr items).isWritable = true ↔ ∀ v ∈ items, v.isWritable = true := by
  rw [isWritable]
  induction items with
  | nil => simp [areWritable]
  | cons v items ih => rw [areWritable, Bool.and_eq_true, ih, List.forall_mem_cons]

/-- An object has the obstacles of its members. -/
lemma isWritable_obj {members : List (String × Json)} :
    (obj members).isWritable = true ↔ ∀ m ∈ members, m.2.isWritable = true := by
  rw [isWritable]
  induction members with
  | nil => simp [areMembersWritable]
  | cons m members ih =>
    rw [areMembersWritable, Bool.and_eq_true, ih, List.forall_mem_cons]

/-- A whole number is its only obstacle. -/
lemma isWritable_int {k : Int} : (int k).isWritable = true ↔ Text.isWritable k = true := Iff.rfl

/-- Items are nested no deeper than the one that is nested deepest. -/
lemma nestingOfItems_le_iff {items : List Json} {depth : Nat} :
    nestingOfItems items ≤ depth ↔ ∀ v ∈ items, v.nesting ≤ depth := by
  induction items with
  | nil => simp [nestingOfItems]
  | cons v items ih => rw [nestingOfItems, Nat.max_le, ih, List.forall_mem_cons]

/-- Members are nested no deeper than the one that is nested deepest. -/
lemma nestingOfMembers_le_iff {members : List (String × Json)} {depth : Nat} :
    nestingOfMembers members ≤ depth ↔ ∀ m ∈ members, m.2.nesting ≤ depth := by
  induction members with
  | nil => simp [nestingOfMembers]
  | cons m members ih => rw [nestingOfMembers, Nat.max_le, ih, List.forall_mem_cons]

/-- An array is nested one deeper than its items. -/
lemma nesting_arr_le_iff {items : List Json} {depth : Nat} :
    (arr items).nesting ≤ depth + 1 ↔ ∀ v ∈ items, v.nesting ≤ depth := by
  rw [nesting, Nat.add_le_add_iff_right, nestingOfItems_le_iff]

/-- An object is nested one deeper than its members. -/
lemma nesting_obj_le_iff {members : List (String × Json)} {depth : Nat} :
    (obj members).nesting ≤ depth + 1 ↔ ∀ m ∈ members, m.2.nesting ≤ depth := by
  rw [nesting, Nat.add_le_add_iff_right, nestingOfMembers_le_iff]

/-! ### Writing -/

mutual

/-- The check of a value passes exactly if the value has no obstacle. -/
lemma yieldsIffBoth_check (depth : Nat) (v : Json) :
    YieldsIffBoth (check depth v) (v.isWritable = true) (.numeral .writing) (v.nesting ≤ depth)
      .tooDeep := by
  cases v with
  | null | bool | float | text => exact Or.inl ⟨rfl, Nat.zero_le depth, (), rfl⟩
  | int n =>
    rw [check]
    split
    · next h => exact Or.inl ⟨h, Nat.zero_le depth, (), rfl⟩
    · next h => exact Or.inr (Or.inl ⟨h, rfl⟩)
  | arr items =>
    cases depth with
    | zero => exact Or.inr (Or.inr ⟨Nat.not_succ_le_zero _, rfl⟩)
    | succ depth =>
      have hlevel : (arr items).nesting ≤ depth + 1 ↔ nestingOfItems items ≤ depth :=
        Nat.add_le_add_iff_right
      exact (yieldsIffBoth_checkItems depth items).congr Iff.rfl hlevel.symm
  | obj members =>
    cases depth with
    | zero => exact Or.inr (Or.inr ⟨Nat.not_succ_le_zero _, rfl⟩)
    | succ depth =>
      have hlevel : (obj members).nesting ≤ depth + 1 ↔ nestingOfMembers members ≤ depth :=
        Nat.add_le_add_iff_right
      exact (yieldsIffBoth_checkMembers depth members).congr Iff.rfl hlevel.symm

/-- The check of items passes exactly if none of them has an obstacle. -/
lemma yieldsIffBoth_checkItems (depth : Nat) (items : List Json) :
    YieldsIffBoth (checkItems depth items) (areWritable items = true) (.numeral .writing)
      (nestingOfItems items ≤ depth) .tooDeep := by
  cases items with
  | nil => exact Or.inl ⟨rfl, Nat.zero_le depth, (), rfl⟩
  | cons v rest =>
    rw [areWritable, Bool.and_eq_true, nestingOfItems, Nat.max_le]
    exact (yieldsIffBoth_check depth v).bind fun _ => yieldsIffBoth_checkItems depth rest

/-- The check of members passes exactly if none of them has an obstacle. -/
lemma yieldsIffBoth_checkMembers (depth : Nat) (members : List (String × Json)) :
    YieldsIffBoth (checkMembers depth members) (areMembersWritable members = true)
      (.numeral .writing) (nestingOfMembers members ≤ depth) .tooDeep := by
  cases members with
  | nil => exact Or.inl ⟨rfl, Nat.zero_le depth, (), rfl⟩
  | cons m rest =>
    rw [areMembersWritable, Bool.and_eq_true, nestingOfMembers, Nat.max_le]
    exact (yieldsIffBoth_check depth m.2).bind fun _ => yieldsIffBoth_checkMembers depth rest

end

/-- A value is written exactly if its whole numbers are within the limit and it is nested no deeper
than there is room for; otherwise what does not hold is the reason. -/
theorem yieldsIffBoth_write (depth : Nat) (v : Json) :
    YieldsIffBoth (write depth v) (v.isWritable = true) (.numeral .writing) (v.nesting ≤ depth)
      .tooDeep :=
  (yieldsIffBoth_check depth v).map

/-- What is written is the indented text of the value. -/
lemma write_eq_of_le {depth : Nat} {v : Json} (hwritable : v.isWritable = true)
    (hnesting : v.nesting ≤ depth) : write depth v = .ok (String.ofList (indented 0 v)) := by
  obtain ⟨text, htext⟩ := (yieldsIffBoth_write depth v).exists_ok hwritable hnesting
  rw [htext, (write_eq_ok_iff.1 htext).2]

end PromqlGuide.Json
