import Mathlib.Data.List.Forall2
import Mathlib.Data.Option.Basic

/-!
# Lists that correspond

Lists and options whose elements are related place by place, and what functions of lists make of
them; also what is looked up in a table.
-/
namespace PromqlGuide

/-! ### Parts of a list -/

section

variable {α β : Type} {R : α → β → Prop} {a : α} {as as' : List α} {bs : List β}

/-- A relation may be weakened with what is known of the elements on one side. -/
lemma forall₂_of_mem {T : α → β → Prop} (h : List.Forall₂ R as bs)
    (hRT : ∀ a ∈ as, ∀ b, R a b → T a b) : List.Forall₂ T as bs :=
  ((List.forall₂_and_left (p := (· ∈ as)) _ _).2 ⟨fun _ ha => ha, h⟩).imp
    fun a b hab => hRT a hab.1 b hab.2

/-- What is related to a list with a first entry has one too. -/
lemma exists_of_forall₂_cons (h : List.Forall₂ R (a :: as) bs) :
    ∃ b ds, bs = b :: ds ∧ R a b ∧ List.Forall₂ R as ds := by
  obtain ⟨b, ds, hb, hds, rfl⟩ := List.forall₂_cons_left_iff.1 h
  exact ⟨b, ds, rfl, hb, hds⟩

/-- What is related to two lists in a row falls into two such lists. -/
lemma exists_of_forall₂_append (h : List.Forall₂ R (as ++ as') bs) :
    ∃ ds ds', bs = ds ++ ds' ∧ List.Forall₂ R as ds ∧ List.Forall₂ R as' ds' := by
  induction as generalizing bs with
  | nil => exact ⟨[], bs, rfl, .nil, h⟩
  | cons a as ih =>
    obtain ⟨b, bs, rfl, hb, hbs⟩ := exists_of_forall₂_cons h
    obtain ⟨ds, ds', rfl, hds, hds'⟩ := ih hbs
    exact ⟨b :: ds, ds', rfl, .cons hb hds, hds'⟩

/-- Every element on one side has a partner on the other. -/
lemma exists_mem_of_forall₂ (h : List.Forall₂ R as bs) (ha : a ∈ as) : ∃ b ∈ bs, R a b := by
  induction h with
  | nil => exact absurd ha List.not_mem_nil
  | @cons c b _ _ hcb _ ih =>
    rcases List.mem_cons.1 ha with rfl | ha
    · exact ⟨b, List.mem_cons_self, hcb⟩
    · obtain ⟨d, hd, had⟩ := ih ha
      exact ⟨d, List.mem_cons_of_mem b hd, had⟩

/-- What is related to a single entry is a single entry. -/
lemma exists_of_forall₂_singleton (h : List.Forall₂ R [a] bs) : ∃ b, bs = [b] ∧ R a b := by
  obtain ⟨b, ds, rfl, hb, hds⟩ := exists_of_forall₂_cons h
  obtain rfl := List.forall₂_nil_left_iff.1 hds
  exact ⟨b, rfl, hb⟩

/-- The greatest of several numbers, and of one to start with, is within a bound if all of them
are. -/
lemma foldl_max_le_iff {ds : List Nat} {d start : Nat} :
    ds.foldl max start ≤ d ↔ start ≤ d ∧ ∀ x ∈ ds, x ≤ d := by
  induction ds generalizing start with
  | nil => simp
  | cons x ds ih =>
    rw [List.foldl_cons, ih, List.forall_mem_cons, Nat.max_le, and_assoc]

end

/-! ### Functions of lists and options -/

section

variable {α β γ δ : Type} {R : α → β → Prop} {S : γ → δ → Prop}

/-- The first entries with a property that related entries share are related. -/
lemma rel_find {l : List α} {l' : List β} {p : α → Bool} {q : β → Bool} (h : List.Forall₂ R l l')
    (hpq : ∀ a b, R a b → p a = q b) : Option.Rel R (l.find? p) (l'.find? q) := by
  induction h with
  | nil => exact .none
  | @cons a b _ _ hab _ ih =>
    rw [List.find?_cons, List.find?_cons, hpq a b hab]
    cases q b
    · exact ih
    · exact .some hab

/-- The first entries of related lists are related. -/
lemma rel_head {l : List α} {l' : List β} (h : List.Forall₂ R l l') :
    Option.Rel R l.head? l'.head? := by
  cases h with
  | nil => exact .none
  | cons hab => exact .some hab

/-- The last entries of related lists are related. -/
lemma rel_getLast {l : List α} {l' : List β} (h : List.Forall₂ R l l') :
    Option.Rel R l.getLast? l'.getLast? := by
  rw [← List.head?_reverse, ← List.head?_reverse]
  exact rel_head (List.rel_reverse h)

/-- The entries of related lists are related place by place. -/
lemma rel_getElem {l : List α} {l' : List β} (h : List.Forall₂ R l l') (i : Nat) :
    Option.Rel R l[i]? l'[i]? := by
  rw [← List.head?_drop, ← List.head?_drop]
  exact rel_head (List.forall₂_drop i h)

/-- The entries with a property that related entries share are related. -/
lemma rel_filter {l : List α} {l' : List β} {p : α → Bool} {q : β → Bool} (h : List.Forall₂ R l l')
    (hpq : ∀ a b, R a b → p a = q b) : List.Forall₂ R (l.filter p) (l'.filter q) := by
  induction h with
  | nil => exact .nil
  | @cons a b _ _ hab _ ih =>
    rw [List.filter_cons, List.filter_cons, hpq a b hab]
    cases q b
    · exact ih
    · exact .cons hab ih

/-- What is made of the entries is the same if it is for related entries. -/
lemma rel_filterMap {l : List α} {l' : List β} {g : α → Option γ} {h : β → Option γ}
    (hl : List.Forall₂ R l l') (hgh : ∀ a b, R a b → g a = h b) : l.filterMap g =
      l'.filterMap h := by
  induction hl with
  | nil => rfl
  | @cons a b _ _ hab _ ih => rw [List.filterMap_cons, List.filterMap_cons, hgh a b hab, ih]

/-- What is made of each entry is the same if it is for related entries. -/
lemma map_eq_of_forall₂ {l : List α} {l' : List β} {g : α → γ} {h : β → γ}
    (hl : List.Forall₂ R l l')
    (hgh : ∀ a b, R a b → g a = h b) : l.map g = l'.map h := by
  induction hl with
  | nil => rfl
  | @cons a b _ _ hab _ ih => rw [List.map_cons, List.map_cons, hgh a b hab, ih]

/-- What is made of a value is the same if it is for related values. -/
lemma map_eq_of_rel {o : Option α} {o' : Option β} {g : α → γ} {h : β → γ} (ho : Option.Rel R o o')
    (hgh : ∀ a b, R a b → g a = h b) : o.map g = o'.map h := by
  cases ho with
  | none => rfl
  | some hab => rw [Option.map_some, Option.map_some, hgh _ _ hab]

/-- What is made of related values, if anything, is related. -/
lemma rel_bind {o : Option α} {o' : Option β} {g : α → Option γ} {h : β → Option δ}
    (ho : Option.Rel R o o') (hgh : ∀ a b, R a b → Option.Rel S (g a) (h b)) :
    Option.Rel S (o.bind g) (o'.bind h) := by
  cases ho with
  | none => exact .none
  | some hab => exact hgh _ _ hab

/-- A value with a property that related values share is related. -/
lemma rel_optionFilter {o : Option α} {o' : Option β} {p : α → Bool} {q : β → Bool}
    (ho : Option.Rel R o o') (hpq : ∀ a b, R a b → p a = q b) :
    Option.Rel R (o.filter p) (o'.filter q) := by
  cases ho with
  | none => exact .none
  | @some a b hab =>
    rw [Option.filter_some, Option.filter_some, hpq a b hab]
    split
    · exact .some hab
    · exact .none

/-- Related values stay related with related defaults. -/
lemma rel_getD {o : Option α} {o' : Option β} {a : α} {b : β} (ho : Option.Rel R o o') (h : R a b) :
    R (o.getD a) (o'.getD b) := by
  cases ho with
  | none => exact h
  | some hab => exact hab

/-- Lists that are made element by element correspond if what is made of each element does. -/
lemma forall₂_flatMap {l : List α} {g : α → List β} {h : α → List γ} {T : β → γ → Prop}
    (hgh : ∀ a ∈ l, List.Forall₂ T (g a) (h a)) :
    List.Forall₂ T (l.flatMap g) (l.flatMap h) := by
  induction l with
  | nil => exact .nil
  | cons a l ih =>
    rw [List.flatMap_cons, List.flatMap_cons]
    exact List.rel_append (hgh a List.mem_cons_self)
      (ih fun b hb => hgh b (List.mem_cons_of_mem a hb))

/-- Lists are equal if a function that tells their elements apart maps them to the same list. -/
lemma eq_of_map_eq {l l' : List α} {g : α → β} (hg : ∀ a ∈ l, ∀ b ∈ l', g a = g b → a = b)
    (h : l.map g = l'.map g) : l = l' := by
  induction l generalizing l' with
  | nil => exact (List.map_eq_nil_iff.1 h.symm).symm
  | cons a l ih =>
    cases l' with
    | nil => exact absurd h (List.cons_ne_nil _ _)
    | cons b l' =>
      rw [List.map_cons, List.map_cons, List.cons.injEq] at h
      rw [hg a List.mem_cons_self b List.mem_cons_self h.1,
        ih (fun c hc d hd => hg c (List.mem_cons_of_mem a hc) d (List.mem_cons_of_mem b hd)) h.2]

/-- One of two related values is there exactly if the other one is. -/
lemma isSome_of_rel {o : Option α} {o' : Option β} (ho : Option.Rel R o o') :
    o.isSome = o'.isSome := by
  cases ho <;> rfl

/-- A value is related to a value. -/
lemma exists_of_rel_some {a : α} {o : Option β} (ho : Option.Rel R (some a) o) :
    ∃ b, o = some b ∧ R a b := by
  cases ho with
  | some hab => exact ⟨_, rfl, hab⟩

/-- No value is related to no value. -/
lemma eq_none_of_rel {o : Option β} (ho : Option.Rel R none o) : o = none := by
  cases ho
  rfl

end

/-! ### Tables -/

section

variable {α β : Type} [BEq α] [LawfulBEq α] {table : List (α × β)} {key : α} {value fallback : β}

/-- What is looked up in a table stands in it. -/
lemma mem_of_lookup_eq (h : table.lookup key = some value) : (key, value) ∈ table := by
  obtain ⟨before, behind, rfl, -⟩ := List.lookup_eq_some_iff.1 h
  exact List.mem_append_right _ List.mem_cons_self

/-- What holds of all values of a table and of a fallback holds of what is looked up. -/
lemma of_lookup_getD {P : β → Prop} (htable : ∀ entry ∈ table, P entry.2) (hfallback : P fallback) :
    P ((table.lookup key).getD fallback) := by
  cases hlookup : table.lookup key with
  | none => exact hfallback
  | some value => exact htable _ (mem_of_lookup_eq hlookup)

end

end PromqlGuide
