/-!
String tokens. Between double or single quotes a backslash takes the next character with it and no
line may end; between backticks everything but a backtick may stand.
-/
namespace PromqlGuide.Quoted

/-- Length of the rest of a string that `quote` closes, the closing quote included; `escaped` says
that a backslash stands in front. -/
def bodyLength (quote : Char) : Bool → List Char → Option Nat
  | _, [] => none
  | true, c :: rest => if c = '\n' then none else (bodyLength quote false rest).map (· + 1)
  | false, c :: rest =>
    if c = quote then some 1
    else if c = '\n' then none
    else (bodyLength quote (c == '\\') rest).map (· + 1)

/-- Length of the rest of a string between backticks, the closing one included. -/
def rawLength : List Char → Option Nat
  | [] => none
  | c :: rest => if c = '\x60' then some 1 else (rawLength rest).map (· + 1)

/-- Length of the string token at the start of a text. -/
def tokenLength? : List Char → Option Nat
  | [] => none
  | c :: rest =>
    if c = '"' ∨ c = '\'' then (bodyLength c false rest).map (· + 1)
    else if c = '\x60' then (rawLength rest).map (· + 1)
    else none

end PromqlGuide.Quoted
