import Mathlib.Algebra.Ring.Nat
import Mathlib.Order.Lattice
import Mathlib.Order.MinMax

/-! # Bounded counters

Unsigned machine counters are natural numbers together with an explicit
greatest value. Checked addition refuses to pass that value and saturating
addition stops at it.
-/

namespace FastMcp.MachineWords

/-- The greatest value of a 64-bit unsigned counter. -/
def u64Max : Nat := 2 ^ 64 - 1

/-- The greatest value of a size on a 64-bit target. -/
def usizeMax : Nat := 2 ^ 64 - 1

/-- Addition that is refused when the sum does not fit. -/
def checkedAdd (greatest left right : Nat) : Option Nat :=
  if left + right ≤ greatest then some (left + right) else none

/-- Addition that stops at the greatest value. -/
def saturatingAdd (greatest left right : Nat) : Nat :=
  min (left + right) greatest

theorem checkedAdd_eq_some {greatest left right sum : Nat} :
    checkedAdd greatest left right = some sum ↔
      sum = left + right ∧ left + right ≤ greatest := by
  rw [checkedAdd, Option.ite_none_right_eq_some, Option.some.injEq, and_comm, eq_comm]

theorem checkedAdd_eq_none {greatest left right : Nat} :
    checkedAdd greatest left right = none ↔ greatest < left + right := by
  simp [checkedAdd]

end FastMcp.MachineWords
