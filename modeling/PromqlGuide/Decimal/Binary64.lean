/-!
Binary floating-point numbers with 53 significant bits, as exact values: a sign, a whole mantissa
and a power of two.

Main statement: rounding a quotient is off by at most half a unit (`roundQuotient_error`).
-/
namespace PromqlGuide

/-- A number with 53 significant bits. A finite one stands for `mantissa * 2 ^ exponent`, with the
mantissa below `2 ^ 53` and the exponent at least `-1074`. -/
inductive Binary64 where
  | finite (negative : Bool) (mantissa : Nat) (exponent : Int)
  | infinite (negative : Bool)
  | nan
  deriving Repr, DecidableEq

namespace Binary64

/-- A power of two. -/
def twoTo (n : Nat) : Nat := Nat.pow 2 n

/-- A power of ten. -/
def tenTo (n : Nat) : Nat := Nat.pow 10 n

/-- The whole number nearest to `num / den`; of two that are equally near, the even one. -/
def roundQuotient (num den : Nat) : Nat :=
  let quotient := num / den
  let twice := 2 * (num % den)
  if den < twice ∨ (twice = den ∧ quotient % 2 = 1) then quotient + 1 else quotient

/-- The rounded quotient is off by at most one half. -/
theorem roundQuotient_error (num : Nat) {den : Nat} (h : 0 < den) :
    2 * (roundQuotient num den * den) ≤ 2 * num + den ∧
      2 * num ≤ 2 * (roundQuotient num den * den) + den := by
  have hmod := Nat.div_add_mod num den
  have hlt := Nat.mod_lt num h
  unfold roundQuotient
  simp only
  rw [Nat.mul_comm] at hmod
  split
  · next hc =>
    rw [Nat.add_mul, Nat.one_mul]
    omega
  · next hc => omega

/-- The smallest exponent. -/
def minExponent : Int := -1074

/-- The exponent of the largest finite numbers. -/
def maxExponent : Int := 971

/-- The number nearest to `num / den`, which must not be zero. -/
def ofQuotient (negative : Bool) (num den : Nat) : Binary64 :=
  let estimate : Int := (Nat.log2 num : Int) - Nat.log2 den - 52
  let scaled (e : Int) : Nat × Nat :=
    if 0 ≤ e then (num, den * twoTo e.toNat) else (num * twoTo (-e).toNat, den)
  let (n, d) := scaled estimate
  let exponent := max (if n < d * twoTo 52 then estimate - 1 else estimate) minExponent
  let (n, d) := scaled exponent
  let mantissa := roundQuotient n d
  let (mantissa, exponent) :=
    if mantissa = twoTo 53 then (twoTo 52, exponent + 1) else (mantissa, exponent)
  if maxExponent < exponent then infinite negative else finite negative mantissa exponent

/-- Zero with a sign. -/
def zero (negative : Bool) : Binary64 := finite negative 0 minExponent

/-- The number nearest to `digits * 10 ^ exponent`. Far outside the range of finite numbers the
answer is infinite or zero, and no power of ten is formed. -/
def ofDecimal (negative : Bool) (digits : Nat) (exponent : Int) : Binary64 :=
  if digits = 0 then zero negative
  else
    let magnitude : Int := (toString digits).length + exponent
    if 310 < magnitude then infinite negative
    else if magnitude < -330 then zero negative
    else if 0 ≤ exponent then ofQuotient negative (digits * tenTo exponent.toNat) 1
    else ofQuotient negative digits (tenTo (-exponent).toNat)

end Binary64

end PromqlGuide
