import PromqlGuide.Text.LetterCase

/-!
Number tokens: hexadecimal and decimal numbers, with fraction and exponent, infinity and
not-a-number, in any letter case. No name character may follow a number.

The readers below pass on what is left of the text to a reader for what comes next, and take less
themselves where that reader refuses. So `5٣m` holds the number `5`: with the Arabic digit the
token would run into a letter, without it the token is followed by no name character.
-/
namespace PromqlGuide.Number

open Text

/-- A reader of the start of a text: the length of what it takes, if it accepts. -/
abbrev Reader := List Char → Option Nat

/-- Takes nothing, where no name character follows. -/
def boundary : Reader := fun cs => if endsBefore isWordPart cs then some 0 else none

/-- Takes one character of a class. -/
def one (p : Char → Bool) (next : Reader) : Reader
  | [] => none
  | c :: rest => if p c then (next rest).map (· + 1) else none

/-- Takes as many characters of a class as the next reader lets it. -/
def many (p : Char → Bool) (next : Reader) : Reader
  | [] => next []
  | c :: rest =>
    if p c then ((many p next rest).map (· + 1)) <|> next (c :: rest) else next (c :: rest)

/-- Takes at least one character of a class. -/
def many1 (p : Char → Bool) (next : Reader) : Reader := one p (many p next)

/-- Takes the first of two readings that is accepted. -/
def either (first second : Reader) : Reader := fun cs => first cs <|> second cs

/-- Takes a word in any letter case; the word is written small. -/
def word : List Char → Reader → Reader
  | [], next => next
  | w :: ws, next => one (foldsTo w) (word ws next)

/-- A digit of a hexadecimal number. -/
def isHexDigit (c : Char) : Bool :=
  c.isDigit || ('a' ≤ c && c ≤ 'f') || ('A' ≤ c && c ≤ 'F')

/-- An exponent, or none, and the end of the number. -/
def exponent : Reader :=
  either
    (one (foldsTo 'e')
      (either (one (fun c => c == '+' || c == '-') (many1 isDigit boundary))
        (many1 isDigit boundary)))
    boundary

/-- A fraction, or none, and what follows it. -/
def fraction : Reader := either (one (· == '.') (many isDigit exponent)) exponent

/-- A number with digits in front of the point, or behind it only. -/
def decimal : Reader :=
  either (many1 isDigit fraction) (one (· == '.') (many1 isDigit exponent))

/-- A hexadecimal number. -/
def hexadecimal : Reader := word ['0', 'x'] (many1 isHexDigit boundary)

/-- Length of the number token at the start of a text. -/
def tokenLength? : Reader :=
  either hexadecimal
    (either decimal (either (word ['i', 'n', 'f'] boundary) (word ['n', 'a', 'n'] boundary)))

end PromqlGuide.Number
