import Mathlib.Data.List.Nodup
import Mathlib.Data.List.TakeWhile
import PromqlGuide.Json.Basic

/-!
# Members of an object

Where no key comes twice, members are looked up as they are listed (`Json.lookup_eq_some_iff`) and
put in their order (`Json.put_new`).
-/
namespace PromqlGuide.Json

variable {α : Type} {key : String} {value : α} {members : List (String × α)}

/-- A value that is found is that of a member. -/
lemma mem_of_lookup (h : lookup key members = some value) : (key, value) ∈ members := by
  induction members with
  | nil => cases h
  | cons m members ih =>
    obtain ⟨k, v⟩ := m
    rw [lookup] at h
    split_ifs at h with hk
    · cases h
      exact hk ▸ List.mem_cons_self
    · exact List.mem_cons_of_mem _ (ih h)

/-- With distinct keys, the value of a key is that of the member with this key. -/
lemma lookup_eq_some_iff (hkeys : (members.map Prod.fst).Nodup) :
    lookup key members = some value ↔ (key, value) ∈ members := by
  refine ⟨mem_of_lookup, fun h => ?_⟩
  induction members with
  | nil => cases h
  | cons m members ih =>
    obtain ⟨k, v⟩ := m
    rw [List.map_cons, List.nodup_cons] at hkeys
    rw [lookup]
    rcases List.mem_cons.1 h with heq | hmem
    · cases heq
      exact if_pos rfl
    · have hk : k ≠ key := by
        rintro rfl
        exact hkeys.1 (List.mem_map.2 ⟨_, hmem, rfl⟩)
      rw [if_neg hk]
      exact ih hkeys.2 hmem

/-- A member with a new key comes last. -/
lemma put_new (value : α) (hkey : key ∉ members.map Prod.fst) :
    put key value members = members ++ [(key, value)] := by
  induction members with
  | nil => rfl
  | cons m members ih =>
    obtain ⟨k, w⟩ := m
    rw [List.map_cons, List.mem_cons, not_or] at hkey
    rw [put, if_neg (Ne.symm hkey.1), ih hkey.2, List.cons_append]

/-- Behind a member with a new key, distinct keys stay distinct. -/
lemma nodup_append_new (hkeys : (members.map Prod.fst).Nodup) (hkey : key ∉ members.map Prod.fst)
    (value : α) : ((members ++ [(key, value)]).map Prod.fst).Nodup := by
  rw [List.map_append]
  refine List.nodup_middle.2 (List.nodup_cons.2 ?_)
  rw [List.map_nil, List.append_nil]
  exact ⟨hkey, hkeys⟩

end PromqlGuide.Json
