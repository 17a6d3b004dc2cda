import PromqlGuide.Json.Basic
import PromqlGuide.Text.Numeral

/-!
Writing JSON text, with an indentation of two spaces for every level, or on one line. Quotes,
backslashes, control characters and lone halves of surrogate pairs are escaped, all other characters
stand for themselves.

Main statement: a value is written exactly if nothing in it keeps it from being written
(`Json.write_eq_ok_iff`).
-/
namespace PromqlGuide.Json

/-- Why a value cannot be written: it holds a refused whole number, or a container is nested too
deep. -/
inductive WriteFault where
  | numeral (cause : Text.NumeralTooLong)
  | tooDeep
  deriving Repr, DecidableEq

/-- A character inside a string. -/
def escapedChar (c : Char) : List Char :=
  if c = '"' ∨ c = '\\' then ['\\', c]
  else if c = '\n' then ['\\', 'n']
  else if c = '\r' then ['\\', 'r']
  else if c = '\t' then ['\\', 't']
  else if c = '\x08' then ['\\', 'b']
  else if c = '\x0c' then ['\\', 'f']
  else if c.toNat < 0x20 then '\\' :: 'u' :: Text.hexDigits 4 c.toNat
  else [c]

/-- The text of a string. -/
def stringText (s : String) : List Char := '"' :: s.toList.flatMap escapedChar ++ ['"']

/-- A code point inside a string. -/
def escapedPoint : CodePoint → List Char
  | .char c => escapedChar c
  | .half n => '\\' :: 'u' :: Text.hexDigits 4 n

/-- The text of a string in which halves of surrogate pairs may stand alone. -/
def looseText : LooseText → List Char
  | .plain s => stringText s
  | .broken points => '"' :: points.flatMap escapedPoint ++ ['"']

/-- The text of a number that may be infinite or no number. -/
def floatText : Binary64 → List Char
  | .nan => ['N', 'a', 'N']
  | .infinite false => ['I', 'n', 'f', 'i', 'n', 'i', 't', 'y']
  | .infinite true => ['-', 'I', 'n', 'f', 'i', 'n', 'i', 't', 'y']
  | x => x.text.toList

/-- The start of a line at the given level. -/
def newLine (level : Nat) : List Char := '\n' :: List.replicate (2 * level) ' '

mutual

/-- The text of a value, its inner lines indented for the given level. -/
def indented (level : Nat) : Json → List Char
  | null => ['n', 'u', 'l', 'l']
  | bool true => ['t', 'r', 'u', 'e']
  | bool false => ['f', 'a', 'l', 's', 'e']
  | int n => (toString n).toList
  | float x => floatText x
  | text t => looseText t
  | arr [] => ['[', ']']
  | arr (v :: rest) =>
    '[' :: newLine (level + 1) ++ indented (level + 1) v ++ indentedItems (level + 1) rest ++
      newLine level ++ [']']
  | obj [] => ['\x7b', '\x7d']
  | obj ((k, v) :: rest) =>
    '\x7b' :: newLine (level + 1) ++ stringText k ++ ':' :: ' ' :: indented (level + 1) v ++
      indentedMembers (level + 1) rest ++ newLine level ++ ['\x7d']

/-- The further items of an array, each behind a comma and on a line of its own. -/
def indentedItems (level : Nat) : List Json → List Char
  | [] => []
  | v :: rest => ',' :: newLine level ++ indented level v ++ indentedItems level rest

/-- The further members of an object, each behind a comma and on a line of its own. -/
def indentedMembers (level : Nat) : List (String × Json) → List Char
  | [] => []
  | (k, v) :: rest =>
    ',' :: newLine level ++ stringText k ++ ':' :: ' ' :: indented level v ++
      indentedMembers level rest

end

/-! ### Whether a value can be written -/

mutual

/-- Looks for what keeps a value from being written where containers may be nested up to a depth,
from the start of its text on. -/
def check (depth : Nat) : Json → Except WriteFault Unit
  | int n => if Text.isWritable n then .ok () else .error (.numeral .writing)
  | arr items =>
    match depth with
    | 0 => .error .tooDeep
    | depth + 1 => checkItems depth items
  | obj members =>
    match depth with
    | 0 => .error .tooDeep
    | depth + 1 => checkMembers depth members
  | _ => .ok ()

/-- Looks through the items of an array. -/
def checkItems (depth : Nat) : List Json → Except WriteFault Unit
  | [] => .ok ()
  | v :: rest => do
    check depth v
    checkItems depth rest

/-- Looks through the members of an object. -/
def checkMembers (depth : Nat) : List (String × Json) → Except WriteFault Unit
  | [] => .ok ()
  | (_, v) :: rest => do
    check depth v
    checkMembers depth rest

end

/-- The indented text of a value in which containers may be nested up to a depth. -/
def write (depth : Nat) (v : Json) : Except WriteFault String := do
  check depth v
  return String.ofList (indented 0 v)

/-- A value is written exactly if nothing keeps it from being written, and then as its indented
text. -/
theorem write_eq_ok_iff {depth : Nat} {v : Json} {s : String} :
    write depth v = .ok s ↔ check depth v = .ok () ∧ s = String.ofList (indented 0 v) := by
  unfold write
  cases check depth v with
  | error fault => exact iff_of_false nofun fun h => nomatch h.1
  | ok => exact ⟨fun h => ⟨rfl, (Except.ok.inj h).symm⟩, fun h => congrArg _ h.2.symm⟩

/-! ### On one line -/

mutual

/-- The text of a value on one line, with numbers of any length. -/
def compact : Json → List Char
  | null => ['n', 'u', 'l', 'l']
  | bool true => ['t', 'r', 'u', 'e']
  | bool false => ['f', 'a', 'l', 's', 'e']
  | int n => (toString n).toList
  | float x => floatText x
  | text t => looseText t
  | arr items => '[' :: compactItems true items ++ [']']
  | obj members => '\x7b' :: compactMembers true members ++ ['\x7d']

/-- The items of an array with commas between them; `isFirst` says that none came before. -/
def compactItems (isFirst : Bool) : List Json → List Char
  | [] => []
  | v :: rest => (if isFirst then [] else [',']) ++ compact v ++ compactItems false rest

/-- The members of an object with commas between them; `isFirst` says that none came before. -/
def compactMembers (isFirst : Bool) : List (String × Json) → List Char
  | [] => []
  | (k, v) :: rest =>
    (if isFirst then [] else [',']) ++ stringText k ++ ':' :: compact v ++
      compactMembers false rest

end

end PromqlGuide.Json
