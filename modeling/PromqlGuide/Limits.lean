/-!
How deep things may be nested. What is nested is gone through by recursion, and no depth is fixed
for it: how deep a recursion gets is decided by the stack that it runs on. What is nested deeper
than that ends in an error. So the depths are parameters here, and what is shown about a program
with limits holds for every choice of them.
-/
namespace PromqlGuide

/-- The depths that the stack has room for, one for each recursion of the program. -/
structure Limits where
  /-- How deep the rules of the grammar may follow one another. -/
  rules : Nat
  /-- How many steps deep a syntax tree may be for an expression to be made of it. -/
  building : Nat
  /-- How many levels an expression may have for its parts to be explained. -/
  explaining : Nat
  /-- How many levels an expression may have for an object to be made of it. -/
  converting : Nat
  /-- How deep arrays and objects may be nested in JSON text that is written. -/
  writing : Nat
  /-- How deep arrays and objects may be nested in JSON text that is read. -/
  reading : Nat
  /-- There is room for the rules that read a call without arguments. -/
  rules_large : 4 ≤ rules := by decide
  /-- There is room for the syntax tree of a selector with matchers over a range. -/
  building_large : 12 ≤ building := by decide

namespace Limits

/-- There is room for a few rules. -/
theorem lt_rules (limits : Limits) {n : Nat} (h : n < 4) : n < limits.rules :=
  Nat.lt_of_lt_of_le h limits.rules_large

/-- There is room for a few steps. -/
theorem le_building (limits : Limits) {n : Nat} (h : n ≤ 12) : n ≤ limits.building :=
  Nat.le_trans h limits.building_large

/-- Limits such as the stack of a program usually sets. -/
def usual : Limits where
  rules := 500
  building := 9950
  explaining := 990
  converting := 495
  writing := 985
  reading := 985

end Limits

end PromqlGuide
