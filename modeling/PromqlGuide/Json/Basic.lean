import PromqlGuide.Decimal.Shortest
import PromqlGuide.Text.Loose

/-!
JSON values. Whole numbers and numbers with a fraction or exponent are kept apart, and the members
of an object keep their order.

Main statement: putting a member into an object changes the value of that key alone
(`Json.lookup_put`).
-/
namespace PromqlGuide

/-- A JSON value. -/
inductive Json where
  | null
  | bool (b : Bool)
  | int (n : Int)
  | float (x : Binary64)
  | text (t : LooseText)
  | arr (items : List Json)
  | obj (members : List (String × Json))
  deriving Repr, Inhabited

namespace Json

/-- A string that is plain text. -/
@[match_pattern] abbrev str (s : String) : Json := text (.plain s)

/-- The value of a key. -/
def lookup {α : Type} (key : String) : List (String × α) → Option α
  | [] => none
  | (k, v) :: rest => if k = key then some v else lookup key rest

/-- Sets the value of a key: in its place if it is there, else at the end. -/
def put {α : Type} (key : String) (value : α) : List (String × α) → List (String × α)
  | [] => [(key, value)]
  | (k, v) :: rest => if k = key then (k, value) :: rest else (k, v) :: put key value rest

/-- A member that is put into an object is found by its key, and all others as before. -/
theorem lookup_put {α : Type} (key key' : String) (value : α) (members : List (String × α)) :
    lookup key' (put key value members) =
      if key = key' then some value else lookup key' members := by
  induction members with
  | nil => rfl
  | cons m rest ih =>
    obtain ⟨k, v⟩ := m
    by_cases hk : k = key
    · subst hk
      by_cases hk' : k = key' <;> simp [put, lookup, hk']
    · by_cases hk' : k = key'
      · subst hk'
        have : key ≠ k := fun h => hk h.symm
        simp [put, lookup, hk, this]
      · simp [put, lookup, hk, hk', ih]

mutual

/-- A value as log messages show it. -/
def shown : Json → String
  | null => "None"
  | bool true => "True"
  | bool false => "False"
  | int n => toString n
  | float x => x.text
  | text t => t.quoted
  | arr items => "[" ++ String.intercalate ", " (shownItems items) ++ "]"
  | obj members => "\x7b" ++ String.intercalate ", " (shownMembers members) ++ "\x7d"

/-- The items of an array as log messages show them. -/
def shownItems : List Json → List String
  | [] => []
  | v :: rest => shown v :: shownItems rest

/-- The members of an object as log messages show them. -/
def shownMembers : List (String × Json) → List String
  | [] => []
  | (k, v) :: rest => (Text.quoted k ++ ": " ++ shown v) :: shownMembers rest

end

end Json

end PromqlGuide
