import ClockedCuckoo.Violation

/-!
The row that a clean stands on. It goes through all rows in order and starts over after the last.
-/

namespace ClockedCuckoo

structure Sweep where
  row : Nat := 0
  last : Nat
  deriving DecidableEq, Repr

namespace Sweep

def ofRows (rows : Nat) : Sweep :=
  { last := rows - 1 }

def ofRowsViolation? (rows : Nat) : Option Violation :=
  Violation.nothingToSweep.when (rows == 0)

def atLast (s : Sweep) : Bool :=
  s.row == s.last

def step (s : Sweep) (enable : Bool) : Sweep :=
  if enable then { s with row := if s.atLast then 0 else s.row + 1 } else s

theorem row_step_le {s : Sweep} (h : s.row ≤ s.last) (enable : Bool) :
    (s.step enable).row ≤ (s.step enable).last := by
  cases enable with
  | false => exact h
  | true =>
    simp only [step, atLast, beq_iff_eq, if_true]
    split <;> omega

end Sweep
end ClockedCuckoo
