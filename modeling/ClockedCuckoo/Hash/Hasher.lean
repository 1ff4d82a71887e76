import ClockedCuckoo.Word
import ClockedCuckoo.Violation

/-!
The hash function of a bank, with the rule that hashing a key may break. Most functions break none:
they are total.
-/

namespace ClockedCuckoo.Hash

structure Hasher where
  value : Key → Word
  violation? : Key → Option Violation := fun _ => none

namespace Hasher

def IsTotal (h : Hasher) : Prop :=
  ∀ key, h.violation? key = none

def ofFunction (f : Key → Word) : Hasher where
  value := f

/-- The high bits of the key, without the low `n`. A word can only be shifted by fewer positions
than it has. -/
def shiftRight (n : Word) : Hasher where
  value key := key >>> n
  violation? _ := Violation.overflow.when (64 ≤ n)

theorem isTotal_ofFunction (f : Key → Word) : (ofFunction f).IsTotal :=
  fun _ => rfl

theorem isTotal_shiftRight {n : Word} : (shiftRight n).IsTotal ↔ n < 64 := by
  simp [IsTotal, shiftRight, Violation.when_eq_none]

end Hasher
end ClockedCuckoo.Hash
