import ClockedCuckoo.Engine.Signals

/-!
One clock cycle. When several banks hold the key whose results are up for use, the cycle fails: the
results are dropped everywhere and nothing else happens. Otherwise all registers and banks move
together, from the signals of the state before.
-/

namespace ClockedCuckoo

structure Outcome (σ ε α : Type) where
  state : σ
  result : Except ε α
  events : List Event

/-- Every 64 evictions in one insert are worth a warning. -/
def warnInterval : Nat := 64

namespace Engine

/-- What each bank is told: take the probe that all banks take, drop the used result, and write if
all writes are taken. -/
def commands (e : Engine) (lines : Lines) : List Command :=
  let probe := if e.probeTaken then some e.staging.key else none
  let consume := e.consumes lines
  let taken := e.writeTaken
  e.writes.map fun w => { probe := probe, consume := consume, write := if taken then w else none }

def nextLanes (e : Engine) (lines : Lines) : List Lane :=
  List.zipWith Lane.cycle e.lanes (e.commands lines)

def nextPhase (e : Engine) (lines : Lines) : Phase :=
  e.phase.next (e.signals lines)

/-- When idle the staging register takes up the accepted request; at the end of a round, the evicted
entry. -/
def nextStaging (e : Engine) (lines : Lines) : Staging :=
  let kept :=
    if e.phase.isIdle then
      e.staging.take (e.accepted? lines) e.lookupTaken e.config.keyMask e.config.dataMask
    else e.staging
  match e.evicted? with
  | some entry => kept.takeEvicted entry
  | none => kept

def lookupAccepted (e : Engine) (lines : Lines) : Bool :=
  (e.accepted? lines).any Request.isLookup

def exclusiveAccepted (e : Engine) (lines : Lines) : Bool :=
  (e.accepted? lines).any Request.isExclusive

def nextInFlight (e : Engine) (lines : Lines) : InFlight :=
  e.inFlight.after (e.lookupAccepted lines) (e.delivers lines)

def nextRounds (e : Engine) (lines : Lines) : Nat :=
  if e.exclusiveAccepted lines then 0
  else if e.evicted?.isSome then e.rounds + 1
  else e.rounds

def stalls (e : Engine) (lines : Lines) : Bool :=
  e.phase.isIdle && lines.hasExclusive && (e.accepted? lines).isNone

def measurements (e : Engine) (lines : Lines) : List Measurement :=
  (if e.evicted?.isSome then [.evicted (UInt64.ofNat (e.rounds + 1))] else []) ++
  (if e.roundDone && e.staging.origin == .delete then [.deleted e.choice.found] else []) ++
  (match e.accepted? lines with
    | some r => [.accepted r.operation]
    | none => if e.stalls lines then [.stalled] else []) ++
  (match e.response? with
    | some r => if e.delivers lines then [.answered r.found] else []
    | none => []) ++
  [.tick]

def advance (e : Engine) (lines : Lines) : Engine :=
  { e with
    lanes := e.nextLanes lines
    phase := e.nextPhase lines
    staging := e.nextStaging lines
    inFlight := e.nextInFlight lines
    sweep := e.sweep.step e.cleanTaken
    choice := e.decision?.getD e.choice
    rounds := e.nextRounds lines
    recorder := e.recorder.recordAll (e.measurements lines) }

def outputs (e : Engine) (lines : Lines) : Outputs where
  accepted := e.accepted? lines
  response := if e.delivers lines then e.response? else none

def events (e : Engine) (lines : Lines) : List Event :=
  (List.zipWith (fun l c => l.bank.cycleEvents c) e.lanes (e.commands lines)).flatten ++
  (match e.decision? with
    | some c => [.chose e.staging.key c.target c.found c.final]
    | none => []) ++
  (match e.evicted? with
    | some (key, _) =>
      let round := e.rounds + 1
      .evicted e.staging.key key round ::
        if round % warnInterval = 0 then [.longChain round] else []
    | none => []) ++
  (match e.accepted? lines with
    | some r => if r.isExclusive then [.accepted r.operation] else []
    | none => []) ++
  (if e.nextPhase lines = e.phase then [] else [.moved e.phase (e.nextPhase lines)])

/-- The state after a fault: every bank drops its oldest result. The lookup at fault is counted out;
an operation at fault is given up. -/
def discard (e : Engine) : Engine :=
  { e with
    lanes := e.lanes.map (·.cycle { consume := true })
    phase := .idle
    staging := if e.phase.isIdle then e.staging else {}
    inFlight := if e.phase.isIdle then e.inFlight.after false true else e.inFlight
    recorder := e.recorder.recordAll [.faulted, .tick] }

/-- The rules that reading the results may break: those of the answer, of the choice, or of the
target that the writes are made for. -/
def resultsViolation? (e : Engine) : Option Violation :=
  e.results?.bind fun probes =>
    match e.phase with
    | .idle => Response.ofProbesViolation? probes e.config.banks
    | .waiting => e.choice.chooseViolation? probes
    | .writing =>
      if e.writeNeeded then
        (List.range probes.length).findSome? e.choice.target.containsViolation?
      else none
    | .cleaning | .probing => none

def advanceViolation? (e : Engine) (lines : Lines) : Option Violation :=
  List.findSome? id [
    e.resultsViolation?,
    e.decision?.bind Choice.keepViolation?,
    List.findSome? id
      (List.zipWith (fun l c => l.bank.cycleViolation? c) e.lanes (e.commands lines)),
    e.inFlight.afterViolation? (e.lookupAccepted lines) (e.delivers lines),
    e.phase.violation? (e.signals lines),
    e.evicted?.bind fun _ => e.staging.takeEvictedViolation?,
    Violation.overflow.when (e.evicted?.isSome && UInt64.size ≤ e.rounds + 1)]

def discardViolation? (e : Engine) : Option Violation :=
  e.resultsViolation?.or
    (if e.phase.isIdle then e.inFlight.afterViolation? false true else none)

def cycle (e : Engine) (lines : Lines) : Checked (Outcome Engine Duplicate Outputs) :=
  match e.fault? with
  | some d =>
    guarded e.discardViolation?
      { state := e.discard, result := .error d, events := [.discarded d e.phase] }
  | none =>
    guarded (e.advanceViolation? lines)
      { state := e.advance lines, result := .ok (e.outputs lines), events := e.events lines }

end Engine
end ClockedCuckoo
