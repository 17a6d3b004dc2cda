import PromqlGuide.Proofs.Json.Members
import PromqlGuide.Proofs.Json.Numerals
import PromqlGuide.Proofs.Json.Strings
import PromqlGuide.Proofs.Json.Writable

/-!
# Reading written JSON

A value that was written is read back from its text. This holds for values whose whole numbers are
within the limit, whose strings are plain text, whose objects have no key twice and in which
containers are nested no deeper than the reader allows; numbers with a fraction are left out.

Main statement: such a value is read from its indented text (`Json.readText_indented`).
-/
namespace PromqlGuide.Json

open Text

/-- A value that can be read back from its text where containers may be nested up to a depth. -/
inductive Readable : Nat → Json → Prop where
  | null {depth : Nat} : Readable depth .null
  | bool {depth : Nat} (b : Bool) : Readable depth (.bool b)
  | int {depth : Nat} {n : Int} (hn : Text.isWritable n = true) : Readable depth (.int n)
  | str {depth : Nat} (s : String) : Readable depth (.str s)
  | arr {depth : Nat} {items : List Json} (hitems : ∀ v ∈ items, Readable depth v) :
      Readable (depth + 1) (.arr items)
  | obj {depth : Nat} {members : List (String × Json)} (hkeys : (members.map Prod.fst).Nodup)
      (hmembers : ∀ m ∈ members, Readable depth m.2) : Readable (depth + 1) (.obj members)

/-- A readable value stays readable where containers may be nested deeper. -/
lemma Readable.mono {depth depth' : Nat} {v : Json} (h : Readable depth v) (hle : depth ≤ depth') :
    Readable depth' v := by
  induction h generalizing depth' with
  | null => exact .null
  | bool b => exact .bool b
  | int hn => exact .int hn
  | str s => exact .str s
  | arr _ ih =>
    obtain ⟨d, rfl⟩ : ∃ d, depth' = d + 1 := ⟨depth' - 1, by omega⟩
    exact .arr fun v hv => ih v hv (by omega)
  | obj hkeys _ ih =>
    obtain ⟨d, rfl⟩ : ∃ d, depth' = d + 1 := ⟨depth' - 1, by omega⟩
    exact .obj hkeys fun m hm => ih m hm (by omega)

/-- The whole numbers in a readable value are within the limit. -/
lemma Readable.isWritable {depth : Nat} {v : Json} (h : Readable depth v) :
    Json.isWritable v = true := by
  induction h with
  | null | bool | str => rfl
  | int hn => exact hn
  | arr _ ih => exact isWritable_arr.2 ih
  | obj _ _ ih => exact isWritable_obj.2 ih

/-- A readable value stays readable as long as there is room for its nesting. -/
lemma Readable.of_nesting_le {depth depth' : Nat} {v : Json} (h : Readable depth v)
    (hle : v.nesting ≤ depth') : Readable depth' v := by
  induction h generalizing depth' with
  | null => exact .null
  | bool b => exact .bool b
  | int hn => exact .int hn
  | str s => exact .str s
  | arr _ ih =>
    cases depth' with
    | zero => exact absurd hle (Nat.not_succ_le_zero _)
    | succ depth' => exact .arr fun v hv => ih v hv (nesting_arr_le_iff.1 hle v hv)
  | obj hkeys _ ih =>
    cases depth' with
    | zero => exact absurd hle (Nat.not_succ_le_zero _)
    | succ depth' => exact .obj hkeys fun m hm => ih m hm (nesting_obj_le_iff.1 hle m hm)

/-! ### Blanks between the parts -/

/-- The indentation of a line is skipped. -/
lemma skip_newLine (level : Nat) (cs : List Char) : skip (newLine level ++ cs) = skip cs := by
  have hblank : ∀ c ∈ newLine level, isBlank c = true := by
    intro c hc
    rcases List.mem_cons.1 hc with rfl | hc
    · rfl
    · rw [List.eq_of_mem_replicate hc]
      rfl
  exact List.dropWhile_append_of_pos hblank

/-- Nothing is skipped in front of what is no blank. -/
lemma skip_cons {c : Char} (hc : isBlank c = false) (cs : List Char) :
    skip (c :: cs) = c :: cs := by
  rw [skip, List.dropWhile_cons_of_neg (by simp [hc])]

/-- Nothing is skipped in front of a string. -/
lemma skip_stringText (s : String) (cs : List Char) :
    skip (stringText s ++ cs) = stringText s ++ cs :=
  rfl

/-- Nothing at the start of a line goes on with a number. -/
lemma endsBefore_newLine (level : Nat) (cs : List Char) :
    endsBefore isNumberPart (newLine level ++ cs) = true := rfl

/-- The text of a value starts with a character that is not blank and closes no container. -/
lemma Readable.head {depth : Nat} {v : Json} (h : Readable depth v) (level : Nat) :
    ∃ c cs, indented level v = c :: cs ∧ isBlank c = false ∧ c ≠ ']' ∧ c ≠ '\x7d' := by
  cases h with
  | null => exact ⟨_, _, rfl, by decide⟩
  | bool b => cases b <;> exact ⟨_, _, rfl, by decide⟩
  | @int _ n hn =>
    obtain ⟨c, cs, htext, hc⟩ := head_toString n
    refine ⟨c, cs, by rw [indented, htext], ?_⟩
    rcases hc with rfl | hc
    · decide
    · refine ⟨?_, ?_, ?_⟩
      · simp only [isBlank, Bool.or_eq_false_iff, beq_eq_false_iff_ne]
        refine ⟨⟨⟨?_, ?_⟩, ?_⟩, ?_⟩ <;> (rintro rfl; exact absurd hc (by decide))
      · rintro rfl
        exact absurd hc (by decide)
      · rintro rfl
        exact absurd hc (by decide)
  | str s => exact ⟨_, _, rfl, by decide⟩
  | @arr _ items _ => cases items <;> exact ⟨_, _, rfl, by decide⟩
  | @obj _ members _ _ => cases members <;> exact ⟨_, _, rfl, by decide⟩

/-! ### Single values -/

/-- The value is read back from its text, whatever its indentation and whatever follows. -/
def ReadsBack (depth : Nat) (v : Json) : Prop :=
  ∀ level fuel rest, (indented level v).length < fuel → endsBefore isNumberPart rest = true →
    readValue readNumeral fuel depth (indented level v ++ rest) = .ok (v, rest)

/-- The text of a whole number is none of the words. -/
lemma readWord?_toString (n : Int) (rest : List Char) :
    readWord? ((toString n).toList ++ rest) = none := by
  rw [toList_toString]
  cases hdigits : Nat.toDigits 10 n.natAbs with
  | nil => exact absurd hdigits Nat.toDigits_ne_nil
  | cons c cs =>
    have hc : c.isDigit = true :=
      Nat.isDigit_of_mem_toDigits (by decide) (by decide) (hdigits ▸ List.mem_cons_self)
    split
    · exact (readWord?_of_isDigit hc (cs ++ rest)).2
    · exact (readWord?_of_isDigit hc (cs ++ rest)).1

/-- A whole number within the limit is read back. -/
lemma readsBack_int {n : Int} (hn : Text.isWritable n = true) (depth : Nat) :
    ReadsBack depth (.int n) := by
  intro level fuel rest hfuel hrest
  obtain ⟨fuel, rfl⟩ : ∃ f, fuel = f + 1 := ⟨fuel - 1, by omega⟩
  have hnumber := readNumber_toString (readNumeral_toDigits hn) hrest
  have hword := readWord?_toString n rest
  obtain ⟨c, cs, htext, hc⟩ := head_toString n
  rw [indented]
  rw [htext, List.cons_append] at hnumber hword ⊢
  have hne : ∀ d : Char, d ≠ '-' → d.isDigit = false → ∀ cs', c :: (cs ++ rest) = d :: cs' →
    False := by
    intro d hminus hdigit cs' h
    obtain rfl : c = d := (List.cons.inj h).1
    rcases hc with hc | hc
    · exact hminus hc
    · exact absurd (hc.symm.trans hdigit) (by decide)
  rw [readValue]
  · simp only [hword, hnumber]
  · exact hne '"' (by decide) rfl
  · exact hne '[' (by decide) rfl
  · exact hne '\x7b' (by decide) rfl

/-- A string is read back. -/
lemma readsBack_str (s : String) (depth : Nat) : ReadsBack depth (.str s) := by
  intro level fuel rest hfuel _
  obtain ⟨fuel, rfl⟩ : ∃ f, fuel = f + 1 := ⟨fuel - 1, by omega⟩
  have htext :
      indented level (.str s) ++ rest = '"' :: (s.toList.flatMap escapedChar ++ '"' :: rest) := by
    simp [indented, looseText, stringText]
  rw [htext, readValue, readString_escaped]
  simp [Except.map, ofPoints_toList]

/-- The missing value is read back. -/
lemma readsBack_null (depth : Nat) : ReadsBack depth .null := by
  intro level fuel rest hfuel _
  obtain ⟨fuel, rfl⟩ : ∃ f, fuel = f + 1 := ⟨fuel - 1, by omega⟩
  rfl

/-- A truth value is read back. -/
lemma readsBack_bool (b : Bool) (depth : Nat) : ReadsBack depth (.bool b) := by
  intro level fuel rest hfuel _
  obtain ⟨fuel, rfl⟩ : ∃ f, fuel = f + 1 := ⟨fuel - 1, by omega⟩
  cases b <;> rfl

/-! ### Containers -/

/-- Items that are each read back are read back together, up to the closing bracket. -/
lemma readItems_indented {depth : Nat} {v : Json} {items : List Json}
    (hitems : ∀ w ∈ v :: items, Readable depth w ∧ ReadsBack depth w) (level lower : Nat)
    (rest : List Char) (fuel : Nat)
    (hfuel : (indented level v ++ indentedItems level items).length + 1 < fuel) :
    readItems readNumeral fuel depth
        (indented level v ++ (indentedItems level items ++ (newLine lower ++ ']' :: rest))) =
      .ok (v :: items, rest) := by
  induction items generalizing v fuel with
  | nil =>
    obtain ⟨fuel, rfl⟩ : ∃ f, fuel = f + 1 := ⟨fuel - 1, by omega⟩
    rw [List.length_append] at hfuel
    have hv := (hitems v List.mem_cons_self).2 level fuel (newLine lower ++ ']' :: rest) (by omega)
      (endsBefore_newLine lower _)
    rw [readItems, indentedItems, List.nil_append, hv]
    simp only [skip_newLine, skip_cons (c := ']') rfl]
  | cons w items ih =>
    obtain ⟨fuel, rfl⟩ : ∃ f, fuel = f + 1 := ⟨fuel - 1, by omega⟩
    simp only [indentedItems, List.length_append, List.length_cons] at hfuel
    have hv := (hitems v List.mem_cons_self).2 level fuel
      (indentedItems level (w :: items) ++ (newLine lower ++ ']' :: rest)) (by omega) rfl
    have hrest := ih (v := w) (fun u hu => hitems u (List.mem_cons_of_mem v hu)) fuel
      (by rw [List.length_append]; omega)
    obtain ⟨c, cs, hhead, hblank, -⟩ :=
      (hitems w (List.mem_cons_of_mem v List.mem_cons_self)).1.head level
    rw [readItems, hv]
    simp only [indentedItems, List.cons_append, List.append_assoc, skip_cons (c := ',') rfl,
      skip_newLine]
    rw [hhead, List.cons_append] at hrest ⊢
    rw [skip_cons hblank, hrest]
    rfl

/-- An array that does not end at once is read as its items. -/
lemma readValue_array {fuel depth : Nat} {c : Char} {cs : List Char} (hblank : isBlank c = false)
    (hclose : c ≠ ']') (level : Nat) :
    readValue readNumeral (fuel + 1) (depth + 1) ('[' :: (newLine level ++ c :: cs)) =
      (readItems readNumeral fuel depth (c :: cs)).map fun (items, rest) => (arr items, rest) := by
  simp only [readValue, skip_newLine, skip_cons hblank]
  split
  · contradiction
  · next h => exact absurd (List.cons.inj h).1 hclose
  · next h _ => cases h; rfl

/-- An array is read back if its items are. -/
lemma readsBack_arr {depth : Nat} {items : List Json}
    (hitems : ∀ v ∈ items, Readable depth v ∧ ReadsBack depth v) :
    ReadsBack (depth + 1) (.arr items) := by
  intro level fuel rest hfuel _
  obtain ⟨fuel, rfl⟩ : ∃ f, fuel = f + 1 := ⟨fuel - 1, by omega⟩
  cases items with
  | nil => rfl
  | cons v items =>
    simp only [indented, List.length_append, List.length_cons] at hfuel
    have hread := readItems_indented hitems (level + 1) level rest fuel
      (by rw [List.length_append]; omega)
    obtain ⟨c, cs, hhead, hblank, hclose, -⟩ := (hitems v List.mem_cons_self).1.head (level + 1)
    simp only [indented, List.cons_append, List.append_assoc, List.nil_append]
    rw [hhead, List.cons_append] at hread ⊢
    rw [readValue_array hblank hclose, hread]
    rfl

/-- A key that comes once is none of those before it. -/
lemma not_mem_of_nodup {before members : List (String × Json)} {k : String} {v : Json}
    (hkeys : ((before ++ (k, v) :: members).map Prod.fst).Nodup) : k ∉ before.map Prod.fst := by
  rw [List.map_append, List.map_cons] at hkeys
  exact fun hmem => (List.nodup_append.1 hkeys).2.2 k hmem k List.mem_cons_self rfl

/-- The first member is read and put behind those that were already read: if the object ends there,
these are its members, and if a comma follows, reading goes on behind it. -/
lemma readMembers_key {fuel depth level : Nat} {before : List (String × Json)} {k : String}
    {v : Json} {rest tail : List Char} (hreadable : Readable depth v)
    (hv : readValue readNumeral fuel depth (indented level v ++ rest) = .ok (v, rest)) :
    let cs := stringText k ++ ':' :: ' ' :: (indented level v ++ rest)
    (skip rest = '\x7d' :: tail →
        readMembers readNumeral (fuel + 1) depth before cs = .ok (put k v before, tail)) ∧
      (skip rest = ',' :: tail → readMembers readNumeral (fuel + 1) depth before cs =
        readMembers readNumeral fuel depth (put k v before) (skip tail)) := by
  obtain ⟨c, cs, hhead, hblank, -⟩ := hreadable.head level
  have hskip : skip (' ' :: (indented level v ++ rest)) = indented level v ++ rest := by
    rw [hhead, List.cons_append, skip, List.dropWhile_cons_of_pos rfl, ← skip, skip_cons hblank]
  dsimp only
  rw [stringText, List.cons_append, List.cons_append, List.append_assoc, readMembers]
  constructor
  all_goals
    intro htail
    simp only [List.cons_append, List.nil_append, readString_escaped, skip_cons (c := ':') rfl,
      hskip, hv, keyOf_chars, htail]

/-- Members with distinct keys, whose values are each read back, are read back together behind
those that were already read, up to the closing brace. -/
lemma readMembers_indented {depth : Nat} {before : List (String × Json)} {k : String} {v : Json}
    {members : List (String × Json)}
    (hkeys : ((before ++ (k, v) :: members).map Prod.fst).Nodup)
    (hmembers : ∀ m ∈ (k, v) :: members, Readable depth m.2 ∧ ReadsBack depth m.2)
    (level lower : Nat) (rest : List Char) (fuel : Nat)
    (hfuel : (indented level v ++ indentedMembers level members).length + 1 < fuel) :
    readMembers readNumeral fuel depth before
        (stringText k ++ ':' :: ' ' :: (indented level v ++ (indentedMembers level members ++
          (newLine lower ++ '\x7d' :: rest)))) =
      .ok (before ++ (k, v) :: members, rest) := by
  -- Over the members still to be read; those in `before` have their keys already.
  induction members generalizing before k v fuel with
  | nil =>
    obtain ⟨fuel, rfl⟩ : ∃ f, fuel = f + 1 := ⟨fuel - 1, by omega⟩
    rw [List.length_append] at hfuel
    have hv := (hmembers (k, v) List.mem_cons_self).2 level fuel (newLine lower ++ '\x7d' :: rest)
      (by dsimp only; omega) (endsBefore_newLine lower _)
    have hend : skip (newLine lower ++ '\x7d' :: rest) = '\x7d' :: rest := by
      rw [skip_newLine, skip_cons (c := '\x7d') rfl]
    rw [indentedMembers, List.nil_append,
      (readMembers_key (hmembers _ List.mem_cons_self).1 hv).1 hend,
      put_new v (not_mem_of_nodup hkeys)]
  | cons m members ih =>
    obtain ⟨fuel, rfl⟩ : ∃ f, fuel = f + 1 := ⟨fuel - 1, by omega⟩
    obtain ⟨k', w⟩ := m
    simp only [indentedMembers, List.length_append, List.length_cons] at hfuel
    have hv := (hmembers (k, v) List.mem_cons_self).2 level fuel
      (indentedMembers level ((k', w) :: members) ++ (newLine lower ++ '\x7d' :: rest))
      (by dsimp only; omega) rfl
    have hkeys' : ((before ++ [(k, v)] ++ (k', w) :: members).map Prod.fst).Nodup := by
      rw [List.append_assoc]
      exact hkeys
    have hrest := ih hkeys' (fun n hn => hmembers n (List.mem_cons_of_mem _ hn)) fuel
      (by rw [List.length_append]; omega)
    have hcomma : skip (indentedMembers level ((k', w) :: members) ++
        (newLine lower ++ '\x7d' :: rest)) = ',' ::
        (newLine level ++ (stringText k' ++ ':' :: ' ' ::
          (indented level w ++ (indentedMembers level members ++
            (newLine lower ++ '\x7d' :: rest))))) := by
      simp only [indentedMembers, List.cons_append, List.append_assoc, skip_cons (c := ',') rfl]
    rw [(readMembers_key (hmembers _ List.mem_cons_self).1 hv).2 hcomma,
      put_new v (not_mem_of_nodup hkeys), skip_newLine, skip_stringText, hrest, List.append_assoc]
    rfl

/-- An object that does not end at once is read as its members. -/
lemma readValue_object {fuel depth : Nat} (level : Nat) (k : String) (cs : List Char) :
    readValue readNumeral (fuel + 1) (depth + 1)
        ('\x7b' :: (newLine level ++ (stringText k ++ cs))) =
      (readMembers readNumeral fuel depth [] (stringText k ++ cs)).map
        fun (members, rest) => (obj members, rest) := by
  simp only [readValue, skip_newLine, skip_stringText]
  rfl

/-- An object with distinct keys is read back if its values are. -/
lemma readsBack_obj {depth : Nat} {members : List (String × Json)}
    (hkeys : (members.map Prod.fst).Nodup)
    (hmembers : ∀ m ∈ members, Readable depth m.2 ∧ ReadsBack depth m.2) :
    ReadsBack (depth + 1) (.obj members) := by
  intro level fuel rest hfuel _
  obtain ⟨fuel, rfl⟩ : ∃ f, fuel = f + 1 := ⟨fuel - 1, by omega⟩
  cases members with
  | nil => rfl
  | cons m members =>
    obtain ⟨k, v⟩ := m
    simp only [indented, List.length_append, List.length_cons] at hfuel
    have hkeys' : (([] ++ (k, v) :: members).map Prod.fst).Nodup := hkeys
    have hread := readMembers_indented hkeys' hmembers (level + 1) level rest fuel
      (by rw [List.length_append]; omega)
    simp only [indented, List.cons_append, List.append_assoc, List.nil_append]
    rw [readValue_object, hread]
    rfl

/-! ### All values -/

/-- Every readable value is read back. -/
lemma Readable.readsBack {depth : Nat} {v : Json} (h : Readable depth v) : ReadsBack depth v := by
  induction h with
  | null => exact readsBack_null _
  | bool b => exact readsBack_bool b _
  | int hn => exact readsBack_int hn _
  | str s => exact readsBack_str s _
  | arr hitems ih => exact readsBack_arr fun v hv => ⟨hitems v hv, ih v hv⟩
  | obj hkeys hmembers ih => exact readsBack_obj hkeys fun m hm => ⟨hmembers m hm, ih m hm⟩

/-- A readable value is read from its indented text. -/
theorem readText_indented {depth : Nat} {v : Json} (h : Readable depth v) :
    readText readNumeral depth (indented 0 v) = .ok v := by
  obtain ⟨c, cs, hhead, hblank, -⟩ := h.head 0
  have hskip : skip (indented 0 v) = indented 0 v := by rw [hhead, skip_cons hblank]
  have hread := h.readsBack 0 (2 * (indented 0 v).length + 2) [] (by omega) rfl
  rw [List.append_nil] at hread
  rw [readText, hskip, hread]
  rfl

end PromqlGuide.Json
