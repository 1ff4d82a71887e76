import ClockedCuckoo.Config
import ClockedCuckoo.Lane
import ClockedCuckoo.Stats
import ClockedCuckoo.Register.InFlight
import ClockedCuckoo.Register.Sweep
import ClockedCuckoo.Register.Staging
import ClockedCuckoo.Register.Choice

/-!
The engine: its lanes and registers, how it is built, and what can be read from it between cycles.
-/

namespace ClockedCuckoo

structure Engine where
  config : Config
  lanes : List Lane
  phase : Phase := .idle
  staging : Staging := {}
  inFlight : InFlight
  sweep : Sweep
  choice : Choice
  /-- The evictions since the last exclusive request was accepted. -/
  rounds : Nat := 0
  recorder : Recorder := .counting {}

structure Entry where
  bank : Nat
  index : Nat
  key : Key
  data : Data
  deriving DecidableEq, Repr

namespace Engine

def start (config : Config) (lanes : List Lane) : Engine where
  config := config
  lanes := lanes
  inFlight := .ofOverlap config.maxOverlap
  sweep := .ofRows config.rows
  choice := .initial config.banks

def ofLanes (config : Config) (lanes : List Lane) : Except Error Engine :=
  match config.validate with
  | .error e => .error e
  | .ok () =>
    if lanes.length ≠ config.banks then .error (.shapeMismatch config.banks lanes.length)
    else match lanes.find? (·.bank.size != config.rows) with
      | some l => .error (.shapeMismatch config.rows l.bank.size)
      | none => .ok (start config lanes)

/-- The empty lanes of a configuration, bank `i` hashing under seed `i`. -/
def freshLanes (family : Word → Key → Word) (config : Config) : List Lane :=
  (List.range config.banks).map fun i =>
    { bank := .empty config.rows (.ofFunction (config.algorithm.function family (Hash.seed i)))
        config.queueDepth }

def create (family : Word → Key → Word) (config : Config) : Checked (Except Error Engine) :=
  match config.validate with
  | .error e => .ok (.error e)
  | .ok () =>
    guarded (Bank.storageViolation? config.rows config.queueDepth)
      (ofLanes config (freshLanes family config))

def builtEvent (e : Engine) : Event :=
  .built e.config.banks e.config.rows e.config.maxOverlap

def withRecorder (e : Engine) (r : Recorder) : Engine :=
  { e with recorder := r }

def resetStats (e : Engine) : Engine :=
  { e with recorder := e.recorder.reset }

def setGate (e : Engine) (bank : Nat) (change : Gate → Gate) : Engine :=
  { e with lanes := e.lanes.modify bank fun l => { l with gate := change l.gate } }

def atRest (e : Engine) : Bool :=
  e.phase.isIdle && e.inFlight.isZero && !e.staging.holdsLookup

def entries (e : Engine) : List Entry :=
  (e.lanes.mapIdx fun bank l =>
    l.bank.entries.map fun (index, key, data) => ⟨bank, index, key, data⟩).flatten

def text (e : Engine) : String :=
  "CuckooEngine \x7b state: " ++ e.phase.label ++
    ", stash: Stash \x7b key: " ++ e.staging.key.toNat.repr ++
    ", data: " ++ e.staging.data.toNat.repr ++
    ", item_valid: " ++ toString e.staging.valid ++
    ", origin: " ++ e.staging.origin.label ++
    " \x7d, lookups_in_flight: " ++ e.inFlight.count.repr ++
    ", target: " ++ e.choice.target.text ++
    ", eviction_rounds: " ++ e.rounds.repr ++ " \x7d"

end Engine
end ClockedCuckoo
