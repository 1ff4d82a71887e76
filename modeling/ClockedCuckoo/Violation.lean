/-!
Broken internal rules. An operation whose rules may be broken comes in two parts: a total function,
and a check that names the rule the input breaks. `guarded` joins them.
-/

namespace ClockedCuckoo

/-- A rule of the hardware that an operation found broken; the operation has no result then. -/
inductive Violation
  /-- A remainder or quotient by zero: a bank without slots, a configuration without banks. -/
  | zeroDivisor
  | overflow
  /-- A lane set without lanes, or with more lanes than a word has bits. -/
  | badWidth
  | badIndex
  | queueFull
  | noRoom
  | nothingInFlight
  /-- An overlap limit below two, which admits no lookup. -/
  | overlapTooSmall
  | nothingToSweep
  | lookupInUpdate
  | evictedOutsideInsert
  /-- Probe results that are not one per lane. -/
  | resultCount
  | severalTargets
  | tooLarge
  deriving DecidableEq, Repr

/-- The result of an operation that keeps every rule, or the first rule it breaks. -/
abbrev Checked (α : Type) := Except Violation α

@[macro_inline] def guarded {α : Type} (broken : Option Violation) (value : α) : Checked α :=
  match broken with
  | some v => .error v
  | none => .ok value

def Violation.when (v : Violation) (broken : Bool) : Option Violation :=
  if broken then some v else none

theorem guarded_eq_ok {α : Type} {broken : Option Violation} {value a : α} :
    guarded broken value = .ok a ↔ broken = none ∧ value = a := by
  cases broken <;> simp [guarded]

theorem Violation.when_eq_none {v : Violation} {broken : Bool} :
    v.when broken = none ↔ broken = false := by
  cases broken <;> simp [Violation.when]

end ClockedCuckoo
