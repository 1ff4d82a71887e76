import ClockedCuckoo.Word
import ClockedCuckoo.Violation

/-!
Sets of lanes, one bit each in a word. A set that names a single lane serves as a write target, and
turning it right by one place picks the next victim.
-/

namespace ClockedCuckoo

/-- A set of lanes below `width`: lane `i` is in it when bit `i` is set. -/
structure LaneSet where
  bits : Word
  width : Nat
  deriving DecidableEq, Repr

namespace LaneSet

def maxWidth : Nat := 64

def widthViolation? (width : Nat) : Option Violation :=
  Violation.badWidth.when (width == 0 || maxWidth < width)

def empty (width : Nat) : LaneSet := ⟨0, width⟩

def singleton (i width : Nat) : LaneSet := ⟨UInt64.ofNat (1 <<< i), width⟩

def singletonViolation? (i width : Nat) : Option Violation :=
  (Violation.badIndex.when (width ≤ i)).or (Violation.overflow.when (maxWidth ≤ i))

def pack : List Bool → Nat
  | [] => 0
  | flag :: flags => flag.toNat + 2 * pack flags

/-- The lanes whose flag is set; flags from `width` on are ignored. -/
def ofFlags (flags : List Bool) (width : Nat) : LaneSet :=
  ⟨UInt64.ofNat (pack (flags.take width)), width⟩

def ofFlagsViolation? (flags : List Bool) (width : Nat) : Option Violation :=
  Violation.overflow.when (maxWidth < (flags.take width).length)

def lowest? (flags : List Bool) (width : Nat) : Option LaneSet :=
  ((flags.take width).findIdx? id).map (singleton · width)

def lowestViolation? (flags : List Bool) (width : Nat) : Option Violation :=
  ((flags.take width).findIdx? id).bind (singletonViolation? · width)

/-- Lane `i` moves to lane `i - 1`, lane 0 to the last one. -/
def rotateRight (s : LaneSet) : LaneSet :=
  let low := s.bits &&& 1
  { s with bits := ((s.bits >>> 1) ||| (low <<< UInt64.ofNat (s.width - 1))) &&&
      Word.lowMask s.width }

def rotateViolation? (s : LaneSet) : Option Violation :=
  widthViolation? s.width

def isEmpty (s : LaneSet) : Bool :=
  s.bits == 0

def contains (s : LaneSet) (i : Nat) : Bool :=
  decide (i < s.width) && Word.bit s.bits i

def containsViolation? (s : LaneSet) (i : Nat) : Option Violation :=
  Violation.overflow.when (i < s.width && maxWidth ≤ i)

def count (s : LaneSet) : Nat :=
  Word.ones s.bits

def isAtMostOne (s : LaneSet) : Bool :=
  decide (s.count ≤ 1)

def only? (s : LaneSet) : Option Nat :=
  if s.count = 1 then some (Word.trailingZeros s.bits) else none

def toList (s : LaneSet) : List Nat :=
  (List.range s.width).filter s.contains

def toListViolation? (s : LaneSet) : Option Violation :=
  Violation.overflow.when (maxWidth < s.width)

/-- One binary digit per lane, lane 0 last. -/
def text (s : LaneSet) : String :=
  "OneHot(0b" ++ Word.binary s.bits s.width ++ ")"

theorem mem_toList {s : LaneSet} {i : Nat} : i ∈ s.toList ↔ s.contains i = true := by
  simp only [toList, List.mem_filter, List.mem_range, contains, Bool.and_eq_true,
    decide_eq_true_eq]
  exact ⟨fun h => h.2, fun h => ⟨h.1, h⟩⟩

end LaneSet
end ClockedCuckoo
