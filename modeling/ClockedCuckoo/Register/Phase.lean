import ClockedCuckoo.Request
import ClockedCuckoo.Violation

/-!
The control phase of the engine: the rounds of an insert or delete, and the sweep of a clean.
Lookups leave it idle; they run through the banks in a pipeline of their own.
-/

namespace ClockedCuckoo

inductive Phase
  | idle
  | cleaning
  | probing
  | waiting
  /-- Writing the target and taking the results off the queues. -/
  | writing
  deriving DecidableEq, Repr

namespace Phase

instance : Inhabited Phase := ⟨idle⟩

def isIdle (p : Phase) : Bool :=
  p == idle

def name : Phase → String
  | idle => "idle"
  | cleaning => "cleaning"
  | probing => "lookup"
  | waiting => "lookupResWaitRd"
  | writing => "lookupResAck"

def label : Phase → String
  | idle => "Idle"
  | cleaning => "Cleaning"
  | probing => "Lookup"
  | waiting => "LookupResWaitRd"
  | writing => "LookupResAck"

structure Signals where
  lookupsDone : Bool := false
  cleanAsked : Bool := false
  insertAsked : Bool := false
  deleteAsked : Bool := false
  cleanTaken : Bool := false
  cleanLast : Bool := false
  probeTaken : Bool := false
  resultsValid : Bool := false
  origin : Origin := .delete
  /-- The write of this round is taken, or none is needed. -/
  writeDone : Bool := false
  final : Bool := false
  deriving DecidableEq, Repr, Inhabited

/-- The phase of the next cycle. Every round begins with a probe of all banks, so an insert that
evicted goes round again. -/
def next (p : Phase) (s : Signals) : Phase :=
  match p with
  | idle =>
    if s.lookupsDone && s.cleanAsked then cleaning
    else if s.lookupsDone && (s.insertAsked || s.deleteAsked) then probing
    else idle
  | cleaning => if s.cleanTaken && s.cleanLast then idle else cleaning
  | probing => if s.probeTaken then waiting else probing
  | waiting => if s.resultsValid then writing else waiting
  | writing =>
    if !s.writeDone then writing
    else if s.origin == .insert && !s.final then probing
    else idle

def violation? (p : Phase) (s : Signals) : Option Violation :=
  Violation.lookupInUpdate.when (p == writing && s.writeDone && s.origin == .lookup)

end Phase
end ClockedCuckoo
