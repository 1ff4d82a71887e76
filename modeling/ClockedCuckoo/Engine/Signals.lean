import ClockedCuckoo.Engine.Basic
import ClockedCuckoo.Handshake
import ClockedCuckoo.Arbiter

/-!
What the engine computes within a cycle, before any register changes: which handshakes take place,
which results show, what is answered, chosen, written and accepted.
-/

namespace ClockedCuckoo

/-- The answer made of one probe per bank, of which at most one found its key: that one's data, or a
miss told by bank 0. -/
def Response.ofProbes (probes : List Probe) (width : Nat) : Option Response :=
  match (Probe.foundIn probes width).only? with
  | some bank => probes[bank]?.map fun p => ⟨p.key, some ⟨bank, p.slot.data⟩, p.index⟩
  | none => probes.head?.map fun p => ⟨p.key, none, p.index⟩

def Response.ofProbesViolation? (probes : List Probe) (width : Nat) : Option Violation :=
  (LaneSet.ofFlagsViolation? (probes.map Probe.found) width).or
    (Violation.badIndex.when (Response.ofProbes probes width).isNone)

namespace Engine

def lookupsDone (e : Engine) : Bool :=
  e.inFlight.isZero && !e.staging.holdsLookup

/-- The staged key is offered to the banks: in the probing phase, and for a lookup when idle. -/
def probing (e : Engine) : Bool :=
  e.phase == .probing || (e.phase.isIdle && e.staging.holdsLookup)

def probeTaken (e : Engine) : Bool :=
  Handshake.fork e.probing (e.lanes.map Lane.takesProbe)

def lookupTaken (e : Engine) : Bool :=
  e.probeTaken && e.staging.holdsLookup

/-- The oldest result of every bank, once all of them show. -/
def results? (e : Engine) : Option (List Probe) :=
  if Handshake.offered (e.lanes.map (·.shown?.isSome)) then some (e.lanes.filterMap Lane.shown?)
  else none

def usesResults (e : Engine) : Bool :=
  e.phase == .idle || e.phase == .waiting

def fault? (e : Engine) : Option Duplicate :=
  if e.usesResults then e.results?.bind (Probe.duplicate? · e.config.banks) else none

def response? (e : Engine) : Option Response :=
  if e.phase.isIdle then e.results?.bind (Response.ofProbes · e.config.banks) else none

def delivers (e : Engine) (lines : Lines) : Bool :=
  e.response?.isSome && lines.resultReady

def decision? (e : Engine) : Option Choice :=
  if e.phase == .waiting then e.results?.map e.choice.next else none

/-- The phase has a write to finish: always in a sweep, in an update round unless a delete found
nothing. -/
def writeNeeded (e : Engine) : Bool :=
  match e.phase with
  | .cleaning => true
  | .writing =>
    match e.staging.origin with
    | .insert => true
    | .delete => e.choice.found
    | .lookup => false
  | _ => false

/-- The write for each bank: a sweep empties its row everywhere, an update round writes the staged
entry to the probed slot of the target, once the results show. -/
def writes (e : Engine) : List (Option SlotWrite) :=
  match e.phase, e.results? with
  | .cleaning, _ => e.lanes.map fun _ => some (.clear e.sweep.row)
  | .writing, some probes =>
    if e.writeNeeded then
      probes.mapIdx fun bank p =>
        if e.choice.target.contains bank then some ⟨p.index, e.staging.slot⟩ else none
    else e.lanes.map fun _ => none
  | _, _ => e.lanes.map fun _ => none

def writeTaken (e : Engine) : Bool :=
  Handshake.fork (e.writes.any Option.isSome)
    (List.zipWith (fun l w => w.isNone || l.takesWrite) e.lanes e.writes)

def writeDone (e : Engine) : Bool :=
  !e.writeNeeded || e.writeTaken

def cleanTaken (e : Engine) : Bool :=
  e.phase == .cleaning && e.writeTaken

def roundDone (e : Engine) : Bool :=
  e.phase == .writing && e.writeDone

/-- Every bank drops its oldest result: the round that used it ends, or the answer is taken. -/
def consumes (e : Engine) (lines : Lines) : Bool :=
  e.results?.isSome && (e.roundDone || e.delivers lines)

def evicted? (e : Engine) : Option (Key × Data) :=
  if e.roundDone && e.staging.origin == .insert && !e.choice.final then
    e.choice.target.only?.bind fun bank =>
      e.results?.bind fun probes => probes[bank]?.map fun p => (p.slot.key, p.slot.data)
  else none

def conditions (e : Engine) : Arbiter.Conditions where
  idle := e.phase.isIdle
  lookupsDone := e.lookupsDone
  room := e.inFlight.hasRoom
  stagedTaken := e.lookupTaken
  stagedLookup := e.staging.holdsLookup

def accepted? (e : Engine) (lines : Lines) : Option Request :=
  (Arbiter.ready lines e.conditions).pick? lines

def signals (e : Engine) (lines : Lines) : Phase.Signals where
  lookupsDone := e.lookupsDone
  cleanAsked := lines.clean
  insertAsked := lines.insert.isSome
  deleteAsked := lines.delete.isSome
  cleanTaken := e.cleanTaken
  cleanLast := e.sweep.atLast
  probeTaken := e.probeTaken
  resultsValid := e.results?.isSome
  origin := e.staging.origin
  writeDone := e.writeDone
  final := e.choice.final

end Engine
end ClockedCuckoo
