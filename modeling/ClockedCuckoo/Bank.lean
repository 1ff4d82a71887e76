import ClockedCuckoo.Slot
import ClockedCuckoo.Event
import ClockedCuckoo.Hash.Algorithm
import ClockedCuckoo.Hash.Hasher

/-!
A bank: slots addressed by one hash function, and a bounded queue of probe results. All changes of
a cycle come in one command. A result is taken off first, then the write happens, then the probe
reads; so a probe sees the write it is committed with, and its result shows in the next cycle.
-/

namespace ClockedCuckoo

structure Bank where
  slots : Array Slot
  hasher : Hash.Hasher
  depth : Nat
  /-- Results not yet taken, the oldest first. -/
  results : List Probe := []

structure Command where
  probe : Option Key := none
  consume : Bool := false
  write : Option SlotWrite := none
  deriving DecidableEq, Repr, Inhabited

namespace Bank

/-- A bank of empty slots. Its queue holds at least one result. -/
def empty (slots : Nat) (hasher : Hash.Hasher) (depth : Nat) : Bank where
  slots := Array.replicate slots {}
  hasher := hasher
  depth := max depth 1

/-- Slots take 24 bytes and results 40; neither may outgrow half the address space. -/
def storageViolation? (slots depth : Nat) : Option Violation :=
  Violation.tooLarge.when (UInt64.size / 2 ≤ 24 * slots || UInt64.size / 2 ≤ 40 * depth)

def size (b : Bank) : Nat :=
  b.slots.size

def home (b : Bank) (key : Key) : Nat :=
  Hash.slotIndex (b.hasher.value key) b.size

/-- The key has to have a hash value, and the bank a slot. -/
def homeViolation? (b : Bank) (key : Key) : Option Violation :=
  (b.hasher.violation? key).or (Hash.slotIndexViolation? b.size)

/-- The contents of slot `i`, an empty slot beyond the end. -/
def slotAt (b : Bank) (i : Nat) : Slot :=
  b.slots.getD i {}

def stored? (b : Bank) (i : Nat) : Option (Key × Data) :=
  (b.slotAt i).stored?

def entries (b : Bank) : List (Nat × Key × Data) :=
  (List.range b.size).filterMap fun i => (b.stored? i).map (i, ·)

def occupied (b : Bank) : Nat :=
  b.slots.countP Slot.valid

def read (b : Bank) (key : Key) : Probe :=
  let i := b.home key
  let slot := b.slotAt i
  { key := key, index := i, found := slot.holds key, slot := slot }

def hasRoom (b : Bank) : Bool :=
  decide (b.results.length < b.depth)

def oldest? (b : Bank) : Option Probe :=
  b.results.head?

def consume (b : Bank) : Bank :=
  { b with results := b.results.tail }

/-- Writes a slot; a write beyond the last slot does nothing. -/
def write (b : Bank) (w : SlotWrite) : Bank :=
  { b with slots := b.slots.setIfInBounds w.index w.slot }

def issue (b : Bank) (key : Key) : Bank :=
  { b with results := b.results ++ [b.read key] }

/-- One cycle: consume, then write, then probe. -/
def cycle (b : Bank) (c : Command) : Bank :=
  let b := if c.consume then b.consume else b
  let b := match c.write with
    | some w => b.write w
    | none => b
  match c.probe with
  | some key => b.issue key
  | none => b

/-- A probe needs a slot to read and, once this cycle's result is taken off, room to queue. -/
def cycleViolation? (b : Bank) (c : Command) : Option Violation :=
  match c.probe with
  | some key =>
    let b := if c.consume then b.consume else b
    (Violation.queueFull.when (!b.hasRoom)).or (b.homeViolation? key)
  | none => none

def cycleEvents (b : Bank) (c : Command) : List Event :=
  match c.write with
  | some w => if w.index < b.size then [] else [.writeOutOfRange w.index b.size]
  | none => []

def text (b : Bank) : String :=
  "SlotTable \x7b slots: " ++ b.size.repr ++ ", occupied: " ++ b.occupied.repr ++
    ", pending_results: " ++ b.results.length.repr ++ " \x7d"

@[simp] theorem size_empty (n : Nat) (hasher : Hash.Hasher) (depth : Nat) :
    (empty n hasher depth).size = n := by
  simp [empty, size]

@[simp] theorem size_consume (b : Bank) : b.consume.size = b.size := rfl

@[simp] theorem size_write (b : Bank) (w : SlotWrite) : (b.write w).size = b.size := by
  simp [write, size]

@[simp] theorem size_issue (b : Bank) (key : Key) : (b.issue key).size = b.size := rfl

@[simp] theorem size_cycle (b : Bank) (c : Command) : (b.cycle c).size = b.size := by
  obtain ⟨probe, consume, write⟩ := c
  cases probe <;> cases consume <;> cases write <;> simp [cycle]

@[simp] theorem slotAt_empty (n : Nat) (hasher : Hash.Hasher) (depth i : Nat) :
    (empty n hasher depth).slotAt i = {} := by
  simp only [empty, slotAt, Array.getD_eq_getD_getElem?, Array.getElem?_replicate]
  split <;> rfl

theorem slotAt_write (b : Bank) (w : SlotWrite) (h : w.index < b.size) (i : Nat) :
    (b.write w).slotAt i = if i = w.index then w.slot else b.slotAt i := by
  simp only [size] at h
  simp only [write, slotAt, Array.getD_eq_getD_getElem?, Array.getElem?_setIfInBounds]
  by_cases hi : w.index = i
  · subst hi
    simp [h]
  · simp [hi, Ne.symm hi]

@[simp] theorem hasher_cycle (b : Bank) (c : Command) :
    (b.cycle c).hasher = b.hasher := by
  obtain ⟨probe, consume, write⟩ := c
  cases probe <;> cases consume <;> cases write <;> rfl

@[simp] theorem depth_cycle (b : Bank) (c : Command) : (b.cycle c).depth = b.depth := by
  obtain ⟨probe, consume, write⟩ := c
  cases probe <;> cases consume <;> cases write <;> rfl

@[simp] theorem home_cycle (b : Bank) (c : Command) (key : Key) :
    (b.cycle c).home key = b.home key := by
  simp only [home, hasher_cycle, size_cycle]

theorem slots_cycle (b : Bank) (c : Command) :
    (b.cycle c).slots = match c.write with
      | some w => (b.write w).slots
      | none => b.slots := by
  obtain ⟨probe, consume, write⟩ := c
  cases probe <;> cases consume <;> cases write <;> rfl

theorem results_cycle (b : Bank) (c : Command) :
    (b.cycle c).results = (if c.consume then b.results.tail else b.results) ++
      (c.probe.map (b.cycle c).read).toList := by
  obtain ⟨probe, consume, write⟩ := c
  cases probe <;> cases consume <;> cases write <;> simp [cycle, issue, consume, write, read,
    home, size, slotAt]

end Bank
end ClockedCuckoo
