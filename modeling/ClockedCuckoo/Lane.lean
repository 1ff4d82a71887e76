import ClockedCuckoo.Bank

/-!
A lane: a bank behind three lines that its surroundings may pull low in any cycle. They hide the
oldest result, refuse probes or refuse writes; the bank itself does not change.
-/

namespace ClockedCuckoo

/-- The lines in front of a bank, all high by default. -/
structure Gate where
  visible : Bool := true
  probe : Bool := true
  write : Bool := true
  deriving DecidableEq, Repr, Inhabited

structure Lane where
  bank : Bank
  gate : Gate := {}

namespace Lane

def shown? (l : Lane) : Option Probe :=
  if l.gate.visible then l.bank.oldest? else none

def takesProbe (l : Lane) : Bool :=
  l.gate.probe && l.bank.hasRoom

def takesWrite (l : Lane) : Bool :=
  l.gate.write

def cycle (l : Lane) (c : Command) : Lane :=
  { l with bank := l.bank.cycle c }

end Lane
end ClockedCuckoo
