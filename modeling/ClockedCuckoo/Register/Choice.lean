import ClockedCuckoo.Slot
import ClockedCuckoo.Violation

/-!
The choice of the bank that a round writes to. A bank that holds the key is overwritten in place;
failing that, the lowest bank whose slot is free takes the key; failing that, the victim is the bank
one place to the right of the last target. The register keeps the choice from the cycle that makes
it to the cycle that writes.
-/

namespace ClockedCuckoo

structure Choice where
  target : LaneSet
  found : Bool := false
  /-- The round ends an insert: nothing is evicted. -/
  final : Bool := false
  deriving DecidableEq, Repr

namespace Choice

def initial (width : Nat) : Choice :=
  { target := .empty width }

/-- The bank to evict from when every slot is taken: to the right of the last target, or the last
bank if there was none. -/
def victim (last : Choice) : LaneSet :=
  let width := last.target.width
  if last.target.isEmpty then .singleton (width - 1) width else last.target.rotateRight

def next (last : Choice) (probes : List Probe) : Choice :=
  let width := last.target.width
  let hits := Probe.foundIn probes width
  if !hits.isEmpty then { target := hits, found := true, final := true }
  else match LaneSet.lowest? (probes.map Probe.isFree) width with
    | some free => { target := free, found := false, final := true }
    | none => { target := last.victim, found := false, final := false }

def choose (last : Choice) (probes : List Probe) : Except Duplicate Choice :=
  match Probe.duplicate? probes last.target.width with
  | some d => .error d
  | none => .ok (last.next probes)

def chooseViolation? (last : Choice) (probes : List Probe) : Option Violation :=
  (Violation.resultCount.when (probes.length != last.target.width)).or
    (LaneSet.widthViolation? last.target.width)

def keepViolation? (c : Choice) : Option Violation :=
  Violation.severalTargets.when (!c.target.isAtMostOne)

end Choice
end ClockedCuckoo
