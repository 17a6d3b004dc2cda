import PromqlGuide.Decimal.Binary64

/-!
The shortest decimal text that reads back as a given number: of all decimals that round to it, one
with the fewest digits, and of those the nearest. Of two that are equally near, the one whose last
digit is even is taken.

Numbers from `10 ^ -4` up to but not including `10 ^ 16` are written with a point, all others with
an exponent of at least two digits.
-/
namespace PromqlGuide.Binary64

/-- A decimal number: whole digits times a power of ten. -/
structure Decimal where
  digits : Nat
  exponent : Int
  deriving Repr, DecidableEq

/-- The quarters of a unit in the last place that bound the reals rounding to a number, and whether
the bounds round to it too. Below a power of two the lower bound is nearer. -/
structure Neighbourhood where
  low : Nat
  value : Nat
  high : Nat
  closed : Bool

/-- The neighbourhood of a number, in quarters of its last place. -/
def neighbourhood (mantissa : Nat) (exponent : Int) : Neighbourhood :=
  let low :=
    if mantissa = twoTo 52 ∧ minExponent < exponent then 4 * mantissa - 1 else 4 * mantissa - 2
  ⟨low, 4 * mantissa, 4 * mantissa + 2, mantissa % 2 = 0⟩

/-- Compares `a * 2 ^ p` with `b * 10 ^ q`, where `a` and `b` are whole. -/
def compareScaled (a : Nat) (p : Int) (b : Nat) (q : Int) : Ordering :=
  compare (a * twoTo p.toNat * tenTo (-q).toNat) (b * tenTo q.toNat * twoTo (-p).toNat)

/-- Whether the decimal `c * 10 ^ g` rounds to the number. -/
def Neighbourhood.holds (n : Neighbourhood) (p : Int) (c : Nat) (g : Int) : Bool :=
  let low := compareScaled n.low p c g
  let high := compareScaled n.high p c g
  (low == .lt || (n.closed && low == .eq)) && (high == .gt || (n.closed && high == .eq))

/-- The whole part of `a * 2 ^ p / 10 ^ g`. -/
def gridFloor (a : Nat) (p g : Int) : Nat :=
  (a * twoTo p.toNat * tenTo (-g).toNat) / (tenTo g.toNat * twoTo (-p).toNat)

/-- Whether `a * 2 ^ p` is nearer to the point behind `below` on the grid `10 ^ g` than to `below`
itself, or just as near and `below` is odd. -/
def roundsUp (a : Nat) (p : Int) (below : Nat) (g : Int) : Bool :=
  match compareScaled (2 * a) p (2 * below + 1) g with
  | .lt => false
  | .eq => below % 2 == 1
  | .gt => true

/-- The nearer of the two points of the grid `10 ^ g` around the number, among those that round to
it; of two that are equally near, the even one. -/
def onGrid (n : Neighbourhood) (p g : Int) : Option Decimal :=
  let below := gridFloor n.value p g
  let above := below + 1
  match n.holds p below g, n.holds p above g with
  | false, false => none
  | true, false => some ⟨below, g⟩
  | false, true => some ⟨above, g⟩
  | true, true => some ⟨if roundsUp n.value p below g then above else below, g⟩

/-- How many decimal digits the whole part of `a * 2 ^ p` has, or minus the number of zeros behind
the point if there is none. -/
def decimalPoint (a : Nat) (p : Int) : Int :=
  let whole := a * twoTo p.toNat / twoTo (-p).toNat
  if 0 < whole then (toString whole).length
  else
    let scaled := a * tenTo 330 / twoTo (-p).toNat
    ((toString scaled).length : Int) - 330

/-- The shortest decimal on the grids from `count` digits up to seventeen. -/
def shortestFrom (n : Neighbourhood) (p point : Int) : Nat → Nat → Decimal
  | 0, _ => ⟨n.value, 0⟩
  | fuel + 1, count =>
    match onGrid n p (point - count) with
    | some d => d
    | none => shortestFrom n p point fuel (count + 1)

/-- The shortest decimal that rounds to `mantissa * 2 ^ exponent`. -/
def shortest (mantissa : Nat) (exponent : Int) : Decimal :=
  let n := neighbourhood mantissa exponent
  shortestFrom n (exponent - 2) (decimalPoint n.value (exponent - 2)) 17 1

/-- The digits without zeros at the end, and the place of the point behind them. -/
def Decimal.normal (d : Decimal) : List Char × Int :=
  let digits := (toString d.digits).toList
  ((digits.reverse.dropWhile (· == '0')).reverse, digits.length + d.exponent)

/-- Whether a point at this place is written out: a number from `10 ^ -4` below `10 ^ 16`. -/
def isPositional (point : Int) : Bool := decide (-4 < point) && decide (point ≤ 16)

/-- The text of an exponent, with a sign and at least two digits. -/
def exponentText (e : Int) : List Char :=
  let digits := (toString e.natAbs).toList
  (if e < 0 then '-' else '+') :: (if digits.length < 2 then '0' :: digits else digits)

/-- The text of the digits with the point at the given place. -/
def decimalText (digits : List Char) (point : Int) : List Char :=
  if isPositional point then
    if point ≤ 0 then
      '0' :: '.' :: (List.replicate (-point).toNat '0' ++ digits)
    else
      let whole := digits.take point.toNat
      let fraction := digits.drop point.toNat
      whole ++ List.replicate (point.toNat - whole.length) '0' ++
        '.' :: (if fraction.isEmpty then ['0'] else fraction)
  else
    let fraction := digits.drop 1
    digits.take 1 ++ (if fraction.isEmpty then [] else '.' :: fraction) ++
      'e' :: exponentText (point - 1)

/-- The shortest text of a number; a whole number keeps one zero behind its point. -/
def text : Binary64 → String
  | nan => "nan"
  | infinite negative => if negative then "-inf" else "inf"
  | finite negative mantissa exponent =>
    let body :=
      if mantissa = 0 then ['0', '.', '0']
      else
        let (digits, point) := (shortest mantissa exponent).normal
        decimalText digits point
    String.ofList (if negative then '-' :: body else body)

end PromqlGuide.Binary64
