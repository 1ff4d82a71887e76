import ClockedCuckoo.Violation

/-!
The count of accepted lookups that have no outcome yet. It stays below the overlap limit, and
exclusive requests wait until it is zero.
-/

namespace ClockedCuckoo

structure InFlight where
  count : Nat := 0
  maxOverlap : Nat
  deriving DecidableEq, Repr

namespace InFlight

def ofOverlap (maxOverlap : Nat) : InFlight :=
  { maxOverlap := maxOverlap }

def ofOverlapViolation? (maxOverlap : Nat) : Option Violation :=
  Violation.overlapTooSmall.when (maxOverlap < 2)

def isZero (n : InFlight) : Bool :=
  n.count == 0

def hasRoom (n : InFlight) : Bool :=
  decide (n.count < n.maxOverlap - 1)

/-- The count after a cycle; a lookup accepted and one answered in the same cycle cancel. -/
def after (n : InFlight) (accepted answered : Bool) : InFlight :=
  match accepted, answered with
  | true, false => { n with count := n.count + 1 }
  | false, true => { n with count := n.count - 1 }
  | _, _ => n

def afterViolation? (n : InFlight) (accepted answered : Bool) : Option Violation :=
  match accepted, answered with
  | true, false => Violation.noRoom.when (!n.hasRoom)
  | false, true => Violation.nothingInFlight.when n.isZero
  | _, _ => none

theorem isZero_eq_true {n : InFlight} : n.isZero = true ↔ n.count = 0 := by
  simp [isZero]

theorem after_self (n : InFlight) (b : Bool) : n.after b b = n := by
  cases b <;> rfl

@[simp] theorem maxOverlap_after (n : InFlight) (accepted answered : Bool) :
    (n.after accepted answered).maxOverlap = n.maxOverlap := by
  cases accepted <;> cases answered <;> rfl

end InFlight
end ClockedCuckoo
