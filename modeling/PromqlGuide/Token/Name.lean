import PromqlGuide.Text.Blank
import PromqlGuide.Text.LetterCase

/-!
Name tokens and keywords. A metric name is none of the words that stand for operators, and a
function name is no aggregation operator and has an opening parenthesis behind it.
-/
namespace PromqlGuide.Name

open Text

/-- Length of a name that `start` may begin and `part` continue. -/
def runLength? (start part : Char → Bool) : List Char → Option Nat
  | [] => none
  | c :: rest => if start c then some ((rest.takeWhile part).length + 1) else none

/-- Length of the label name at the start of a text. -/
def labelLength? : List Char → Option Nat := runLength? isNameStart isNamePart

/-- Whether a text starts with one of the words, in any letter case, and the word ends there. -/
def startsWithReserved (words : List (List Char)) (cs : List Char) : Bool :=
  words.any fun w => startsWithWord w cs && endsBefore isMetricPart (cs.drop w.length)

/-- Length of the metric name at the start of a text, unless one of the reserved words is there. -/
def metricLength? (reserved : List (List Char)) (cs : List Char) : Option Nat :=
  if startsWithReserved reserved cs then none else runLength? isMetricStart isMetricPart cs

/-- Whether an opening parenthesis follows, at most whitespace before it. -/
def opensCall (cs : List Char) : Bool :=
  match cs.dropWhile isSpace with
  | '(' :: _ => true
  | _ => false

/-- Length of the function name at the start of a text, unless a reserved word is there. -/
def functionLength? (reserved : List (List Char)) (cs : List Char) : Option Nat :=
  if startsWithReserved reserved cs then none
  else
    match labelLength? cs with
    | none => none
    | some n => if opensCall (cs.drop n) then some n else none

/-- Length of the word at the start of a text, in any letter case, if it ends there. -/
def wordLength? (w : List Char) (cs : List Char) : Option Nat :=
  if startsWithWord w cs && endsBefore isWordPart (cs.drop w.length) then some w.length else none

/-- Length of the first of the words that the text starts with and that ends there. -/
def anyWordLength? (words : List (List Char)) (cs : List Char) : Option Nat :=
  words.findSome? (wordLength? · cs)

/-- Length of `word ( )` at the start of a text, with whitespace allowed before either
parenthesis. -/
def emptyCallLength? (w : List Char) (cs : List Char) : Option Nat :=
  if startsWithWord w cs then
    match (cs.drop w.length).dropWhile isSpace with
    | '(' :: inside =>
      match inside.dropWhile isSpace with
      | ')' :: rest => some (cs.length - rest.length)
      | _ => none
    | _ => none
  else none

end PromqlGuide.Name
