import ClockedCuckoo.Hash.XXH64
import ClockedCuckoo.Hash.SipHash
import ClockedCuckoo.Violation

/-!
The hash functions of the banks: one algorithm for the whole table, one seed per bank.
-/

namespace ClockedCuckoo.Hash

inductive Algorithm
  /-- A keyed family whose key is drawn anew for each process. -/
  | random
  | xxh64
  | sip
  deriving DecidableEq, Repr

namespace Algorithm

instance : Inhabited Algorithm := ⟨random⟩

def name : Algorithm → String
  | random => "ahash"
  | xxh64 => "xxhash"
  | sip => "default"

def all : List Algorithm := [random, xxh64, sip]

def ofName? (name : String) : Option Algorithm :=
  all.find? (·.name == name)

/-- The hash function of a seed. The random family is a parameter, so nothing rests on its values. -/
def function (family : Word → Key → Word) : Algorithm → (seed : Word) → Key → Word
  | random, seed, key => family seed key
  | xxh64, seed, key => XXH64.hash seed key
  | sip, seed, key => SipHash.hash [seed, key]

end Algorithm

/-- The seed of a bank. The factor is the golden ratio, which drives neighbouring seeds apart. -/
def seed (bank : Nat) : Word :=
  UInt64.ofNat (bank + 1) * 0x9E3779B97F4A7C15

def seedViolation? (bank : Nat) : Option Violation :=
  Violation.overflow.when (UInt64.size ≤ bank + 1)

def slotIndex (hash : Word) (slots : Nat) : Nat :=
  hash.toNat % slots

def slotIndexViolation? (slots : Nat) : Option Violation :=
  Violation.zeroDivisor.when (slots == 0)

theorem slotIndex_lt (hash : Word) {slots : Nat} (h : 0 < slots) :
    slotIndex hash slots < slots :=
  Nat.mod_lt _ h

end ClockedCuckoo.Hash
