import ClockedCuckoo.Request
import ClockedCuckoo.Slot

/-!
The staging register holds the key under way: that of a running insert or delete, the entry an
insert last evicted, or an accepted lookup that the banks have not taken yet.
-/

namespace ClockedCuckoo

structure Staging where
  key : Key := 0
  data : Data := 0
  /-- Whether writing the register to a slot makes the slot valid. -/
  valid : Bool := false
  origin : Origin := .delete
  deriving DecidableEq, Repr, Inhabited

namespace Staging

def holdsLookup (s : Staging) : Bool :=
  s.origin == .lookup

def slot (s : Staging) : Slot :=
  ⟨s.key, s.data, s.valid⟩

/-- Takes up an accepted request, cut to the configured widths. When none is accepted but the banks
took the staged lookup, the register falls back to a neutral delete. -/
def take (s : Staging) (accepted : Option Request) (taken : Bool) (keyMask dataMask : Word) :
    Staging :=
  match accepted with
  | some .clean => { s with valid := false }
  | some (.delete key) => { s with key := key &&& keyMask, origin := .delete, valid := false }
  | some (.insert key data) => ⟨key &&& keyMask, data &&& dataMask, true, .insert⟩
  | some (.lookup key) => { s with key := key &&& keyMask, origin := .lookup }
  | none => if taken then { s with key := 0, origin := .delete } else s

def takeEvicted (s : Staging) (entry : Key × Data) : Staging :=
  { s with key := entry.1, data := entry.2, valid := true }

def takeEvictedViolation? (s : Staging) : Option Violation :=
  Violation.evictedOutsideInsert.when (s.origin != .insert)

end Staging
end ClockedCuckoo
