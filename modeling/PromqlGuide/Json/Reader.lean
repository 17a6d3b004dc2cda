import PromqlGuide.Json.Basic
import PromqlGuide.Limits
import PromqlGuide.Text.Numeral

/-!
Reading JSON text. Besides the standard grammar the names of infinity and not-a-number are read as
numbers. Only space, tab, line feed and carriage return are blank; strings may hold no control
characters; of several members with one key the last value counts, in the place of the first. Two
escapes that name the halves of a surrogate pair are one character; a half that stays alone is kept
in a value, and replaced in a key. Arrays and objects may be nested up to a limit.
-/
namespace PromqlGuide.Json

/-- The values that hold other values. -/
inductive Container where
  | array
  | object
  deriving Repr, DecidableEq

/-- What a container is called. -/
def Container.name : Container → String
  | array => "array"
  | object => "object"

/-- Why a text is no JSON value: it breaks the grammar, it holds a refused numeral, or a container
is nested too deep. -/
inductive Fault where
  | malformed
  | numeral (cause : Text.NumeralTooLong)
  | tooDeep (container : Container)
  deriving Repr, DecidableEq

/-- The result of reading the start of a text: what was read, and what follows. -/
abbrev Read (α : Type) := Except Fault (α × List Char)

/-- How the digits of a whole number are turned into a number. -/
abbrev NumeralReader := List Char → Except Text.NumeralTooLong Nat

/-- Whether the character is blank between the parts of a JSON text. -/
def isBlank (c : Char) : Bool := c == ' ' || c == '\t' || c == '\n' || c == '\r'

/-- The text behind the blanks at its start. -/
def skip (cs : List Char) : List Char := cs.dropWhile isBlank

/-! ### Strings -/

/-- The value of a hexadecimal digit. -/
def hexValue? (c : Char) : Option Nat :=
  if c.isDigit then some (c.toNat - '0'.toNat)
  else if 'a' ≤ c ∧ c ≤ 'f' then some (c.toNat - 'a'.toNat + 10)
  else if 'A' ≤ c ∧ c ≤ 'F' then some (c.toNat - 'A'.toNat + 10)
  else none

/-- The value of four hexadecimal digits. -/
def hexUnit? (a b c d : Char) : Option Nat := do
  let a ← hexValue? a
  let b ← hexValue? b
  let c ← hexValue? c
  let d ← hexValue? d
  some (((a * 16 + b) * 16 + c) * 16 + d)

/-- The character that a letter behind a backslash stands for. -/
def simpleEscape? : Char → Option Char
  | '"' => some '"'
  | '\\' => some '\\'
  | '/' => some '/'
  | 'b' => some '\x08'
  | 'f' => some '\x0c'
  | 'n' => some '\n'
  | 'r' => some '\r'
  | 't' => some '\t'
  | _ => none

/-- Whether a unit of sixteen bits is the first half of a pair. -/
def isHighHalf (n : Nat) : Bool := decide (0xD800 ≤ n ∧ n < 0xDC00)

/-- Whether a unit of sixteen bits is the second half of a pair. -/
def isLowHalf (n : Nat) : Bool := decide (0xDC00 ≤ n ∧ n < 0xE000)

/-- The code point of a unit of sixteen bits that is no part of a pair. -/
def unitPoint (n : Nat) : CodePoint :=
  if isHighHalf n || isLowHalf n then .half n else .char (Char.ofNat n)

/-- The character of a pair of halves. -/
def pairChar (high low : Nat) : Char :=
  Char.ofNat (0x10000 + (high - 0xD800) * 0x400 + (low - 0xDC00))

/-- Puts a code point in front of a string that was read. -/
def consPoint (p : CodePoint) (r : Read (List CodePoint)) : Read (List CodePoint) :=
  r.map fun (points, rest) => (p :: points, rest)

/-- Puts a half of a pair that stayed alone, if there is one, in front of a string that was read. -/
def consHalf (half : Option Nat) (r : Read (List CodePoint)) : Read (List CodePoint) :=
  match half with
  | none => r
  | some high => consPoint (.half high) r

/-- Reads the rest of a string behind its opening quote. `half` is the first half of a pair whose
second half may follow in an escape. -/
def readString : Option Nat → List Char → Read (List CodePoint)
  | _, [] => .error .malformed
  | half, '"' :: rest => consHalf half (.ok ([], rest))
  | half, '\\' :: 'u' :: a :: b :: c :: d :: rest =>
    match hexUnit? a b c d with
    | none => .error .malformed
    | some unit =>
      match half with
      | some high =>
        if isLowHalf unit then consPoint (.char (pairChar high unit)) (readString none rest)
        else if isHighHalf unit then consPoint (.half high) (readString (some unit) rest)
        else consPoint (.half high) (consPoint (unitPoint unit) (readString none rest))
      | none =>
        if isHighHalf unit then readString (some unit) rest
        else consPoint (unitPoint unit) (readString none rest)
  | half, '\\' :: e :: rest =>
    match simpleEscape? e with
    | none => .error .malformed
    | some c => consHalf half (consPoint (.char c) (readString none rest))
  | half, c :: rest =>
    if c = '\\' ∨ c.toNat < 0x20 then .error .malformed
    else consHalf half (consPoint (.char c) (readString none rest))

/-- The key of a member. Keys are plain text, so a half that stands alone in a key is replaced, and
a record that names the key shows the replacement. -/
def keyOf (points : List CodePoint) : String := String.ofList (points.map CodePoint.repaired)

/-! ### Numbers -/

/-- The digits at the start of a text, and what follows. -/
def digitRun (cs : List Char) : List Char × List Char :=
  (cs.takeWhile Char.isDigit, cs.dropWhile Char.isDigit)

/-- The digits behind a point, if a point with a digit behind it follows. -/
def readFraction (cs : List Char) : Option (List Char × List Char) :=
  match cs with
  | '.' :: rest =>
    let (digits, rest) := digitRun rest
    if digits.isEmpty then none else some (digits, rest)
  | _ => none

/-- The value of an exponent, if one with a digit follows. -/
def readExponent (cs : List Char) : Option (Int × List Char) :=
  match cs with
  | e :: rest =>
    if e = 'e' ∨ e = 'E' then
      let (negative, rest) :=
        match rest with
        | '-' :: rest => (true, rest)
        | '+' :: rest => (false, rest)
        | _ => (false, rest)
      let (digits, rest) := digitRun rest
      if digits.isEmpty then none
      else
        let value : Int := Text.digitsValue digits
        some (if negative then -value else value, rest)
    else none
  | [] => none

/-- Reads a number behind its sign. -/
def readUnsigned (numeral : NumeralReader) (negative : Bool) (cs : List Char) : Read Json :=
  let (run, behind) := digitRun cs
  match run with
  | [] => .error .malformed
  | first :: more =>
    let (whole, rest) := if first = '0' then (['0'], more ++ behind) else (run, behind)
    let fraction := readFraction rest
    let (digits, rest) := fraction.getD ([], rest)
    let exponent := readExponent rest
    let (shift, rest) := exponent.getD (0, rest)
    if fraction.isNone && exponent.isNone then
      match numeral whole with
      | .ok n => .ok (int (if negative then -(n : Int) else n), rest)
      | .error cause => .error (.numeral cause)
    else
      .ok (float (.ofDecimal negative (Text.digitsValue (whole ++ digits)) (shift - digits.length)),
        rest)

/-- Reads a number. -/
def readNumber (numeral : NumeralReader) : List Char → Read Json
  | '-' :: rest => readUnsigned numeral true rest
  | cs => readUnsigned numeral false cs

/-! ### Values -/

/-- The values that are written as a word. -/
def words : List (List Char × Json) :=
  [(['n', 'u', 'l', 'l'], null), (['t', 'r', 'u', 'e'], bool true),
    (['f', 'a', 'l', 's', 'e'], bool false), (['N', 'a', 'N'], float .nan),
    (['I', 'n', 'f', 'i', 'n', 'i', 't', 'y'], float (.infinite false)),
    (['-', 'I', 'n', 'f', 'i', 'n', 'i', 't', 'y'], float (.infinite true))]

/-- Reads a value that is written as a word. -/
def readWord? (cs : List Char) : Option (Json × List Char) :=
  words.findSome? fun (word, value) =>
    if word.isPrefixOf cs then some (value, cs.drop word.length) else none

mutual

/-- Reads a value in which containers may be nested up to a depth; the first number bounds the
steps. -/
def readValue (numeral : NumeralReader) : Nat → Nat → List Char → Read Json
  -- not met by `readText`, which allows for more steps than there can be
  | 0, _, _ => .error .malformed
  | fuel + 1, depth, cs =>
    match cs with
    | '"' :: rest =>
      (readString none rest).map fun (points, rest) => (text (.ofPoints points), rest)
    | '[' :: rest =>
      -- the depth is used up even where the container turns out to be empty
      match depth, skip rest with
      | 0, _ => .error (.tooDeep .array)
      | _ + 1, ']' :: rest => .ok (arr [], rest)
      | depth + 1, inside =>
        (readItems numeral fuel depth inside).map fun (items, rest) => (arr items, rest)
    | '\x7b' :: rest =>
      match depth, skip rest with
      | 0, _ => .error (.tooDeep .object)
      | _ + 1, '\x7d' :: rest => .ok (obj [], rest)
      | depth + 1, inside =>
        (readMembers numeral fuel depth [] inside).map fun (members, rest) => (obj members, rest)
    | _ =>
      match readWord? cs with
      | some found => .ok found
      | none => readNumber numeral cs

/-- Reads the items of an array up to its closing bracket. -/
def readItems (numeral : NumeralReader) : Nat → Nat → List Char → Read (List Json)
  | 0, _, _ => .error .malformed
  | fuel + 1, depth, cs =>
    match readValue numeral fuel depth cs with
    | .error e => .error e
    | .ok (v, rest) =>
      match skip rest with
      | ']' :: rest => .ok ([v], rest)
      | ',' :: rest =>
        (readItems numeral fuel depth (skip rest)).map fun (items, rest) => (v :: items, rest)
      | _ => .error .malformed

/-- Reads the members of an object up to its closing brace; `before` holds those already read. -/
def readMembers (numeral : NumeralReader) :
    Nat → Nat → List (String × Json) → List Char → Read (List (String × Json))
  | 0, _, _, _ => .error .malformed
  | fuel + 1, depth, before, cs =>
    match cs with
    | '"' :: rest =>
      match readString none rest with
      | .error e => .error e
      | .ok (key, rest) =>
        match skip rest with
        | ':' :: rest =>
          match readValue numeral fuel depth (skip rest) with
          | .error e => .error e
          | .ok (v, rest) =>
            -- a key that comes again keeps its place and gets the new value
            let members := put (keyOf key) v before
            match skip rest with
            | '\x7d' :: rest => .ok (members, rest)
            | ',' :: rest => readMembers numeral fuel depth members (skip rest)
            | _ => .error .malformed
        | _ => .error .malformed
    | _ => .error .malformed

end

/-- Reads a text that holds one value, with containers nested up to a depth, and blanks around
it. -/
def readText (numeral : NumeralReader) (depth : Nat) (cs : List Char) : Except Fault Json :=
  match readValue numeral (2 * cs.length + 2) depth (skip cs) with
  | .error e => .error e
  | .ok (v, rest) => if (skip rest).isEmpty then .ok v else .error .malformed

/-- Reads a text in which every numeral and the nesting are within their limits. -/
def read (limits : Limits) (cs : List Char) : Except Fault Json :=
  readText Text.readNumeral limits.reading cs

end PromqlGuide.Json
