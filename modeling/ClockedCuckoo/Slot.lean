import ClockedCuckoo.Error
import ClockedCuckoo.LaneSet

/-!
The contents of a slot, a write to one, and the result of probing one.
-/

namespace ClockedCuckoo

/-- A place for one entry. An invalid slot is empty, whatever words are left in it. -/
structure Slot where
  key : Key := 0
  data : Data := 0
  valid : Bool := false
  deriving DecidableEq, Repr, Inhabited

namespace Slot

def stored? (s : Slot) : Option (Key × Data) :=
  if s.valid then some (s.key, s.data) else none

def holds (s : Slot) (key : Key) : Bool :=
  s.valid && s.key == key

end Slot

structure SlotWrite where
  index : Nat
  slot : Slot
  deriving DecidableEq, Repr

def SlotWrite.clear (index : Nat) : SlotWrite :=
  ⟨index, {}⟩

structure Probe where
  key : Key
  index : Nat
  found : Bool
  slot : Slot
  deriving DecidableEq, Repr

namespace Probe

def occupied (p : Probe) : Bool :=
  p.slot.valid

def isFree (p : Probe) : Bool :=
  !p.occupied

def foundIn (probes : List Probe) (width : Nat) : LaneSet :=
  LaneSet.ofFlags (probes.map found) width

def duplicate? (probes : List Probe) (width : Nat) : Option Duplicate :=
  match probes with
  | [] => none
  | p :: _ =>
    let hits := foundIn probes width
    if 1 < hits.count then some ⟨p.key, hits.toList⟩ else none

end Probe
end ClockedCuckoo
