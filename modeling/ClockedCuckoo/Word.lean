/-!
Machine words. Keys, data and hash values are 64-bit words; a configured width keeps the low bits of
one. The module also holds the hexadecimal and binary texts that messages use.
-/

namespace ClockedCuckoo

abbrev Word := UInt64

/-- A key, cut to the configured key width when a request is accepted. -/
abbrev Key := Word

abbrev Data := Word

namespace Word

/-- The word whose low `width` bits are set; from 64 on every bit is set. -/
def lowMask (width : Nat) : Word :=
  UInt64.ofNat ((1 <<< min width 64) - 1)

def bit (w : Word) (i : Nat) : Bool :=
  w.toNat.testBit i

def ones (w : Word) : Nat :=
  (List.range 64).countP (bit w)

/-- The position of the lowest set bit, 64 for the zero word. -/
def trailingZeros (w : Word) : Nat :=
  ((List.range 64).find? (bit w)).getD 64

/-- The word turned left by `n` places, for `0 < n < 64`. -/
def rotateLeft (w : Word) (n : Word) : Word :=
  (w <<< n) ||| (w >>> (64 - n))

def hex (w : Word) : String :=
  "0x" ++ String.ofList (Nat.toDigits 16 w.toNat)

def binary (w : Word) (width : Nat) : String :=
  String.ofList ((Nat.toDigits 2 w.toNat).leftpad width '0')

theorem eq_of_bit_eq {v w : Word} (h : ∀ i, bit v i = bit w i) : v = w := by
  apply UInt64.toNat.inj
  exact Nat.eq_of_testBit_eq h

theorem bit_ofNat {n : Nat} (h : n < UInt64.size) (i : Nat) : bit (UInt64.ofNat n) i = n.testBit i := by
  rw [bit, UInt64.toNat_ofNat_of_lt' h]

end Word
end ClockedCuckoo
