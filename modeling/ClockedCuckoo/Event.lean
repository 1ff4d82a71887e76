import ClockedCuckoo.Error
import ClockedCuckoo.LaneSet
import ClockedCuckoo.Register.Phase

/-!
What the engine and its front end report while they run, and the log line each report becomes.
-/

namespace ClockedCuckoo

inductive Level
  | error
  | warn
  | info
  | debug
  deriving DecidableEq, Repr

def Level.name : Level → String
  | error => "error"
  | warn => "warn"
  | info => "info"
  | debug => "debug"

inductive Event
  | built (banks slots overlap : Nat)
  | writeOutOfRange (index slots : Nat)
  | chose (key : Key) (target : LaneSet) (found final : Bool)
  /-- A key was written over another one, which goes round again. -/
  | evicted (written displaced : Key) (round : Nat)
  | longChain (rounds : Nat)
  | accepted (operation : Operation)
  | moved (source target : Phase)
  | discarded (duplicate : Duplicate) (phase : Phase)
  | timedOut (ticks : Nat) (phase : Phase)
  deriving DecidableEq, Repr

namespace Event

def level : Event → Level
  | built .. => .info
  | writeOutOfRange .. | discarded .. => .error
  | longChain .. | timedOut .. => .warn
  | chose .. | evicted .. | accepted .. | moved .. => .debug

def message : Event → String
  | built banks slots overlap =>
    "cuckoo engine: " ++ banks.repr ++ " tables x " ++ slots.repr ++
      " slots, max lookup overlap " ++ overlap.repr
  | writeOutOfRange index slots =>
    "slot write out of range: index=" ++ index.repr ++ " slots=" ++ slots.repr
  | chose key target found final =>
    "key " ++ Word.hex key ++ ": target=" ++ target.text ++ " found=" ++ toString found ++
      " final=" ++ toString final
  | evicted written displaced round =>
    "evict " ++ Word.hex written ++ " -> " ++ Word.hex displaced ++
      " (round " ++ round.repr ++ ")"
  | longChain rounds =>
    "insert eviction chain reached " ++ rounds.repr ++ " rounds, table may be saturated"
  | accepted operation => "admit " ++ operation.name
  | moved source target => "state " ++ source.name ++ " -> " ++ target.name
  | discarded duplicate phase =>
    (Error.duplicateKey duplicate).message ++ " (state " ++ phase.name ++ "), result discarded"
  | timedOut ticks phase =>
    "driver timeout after " ++ ticks.repr ++ " ticks, engine state " ++ phase.name

end Event
end ClockedCuckoo
