import ClockedCuckoo.Word

/-!
SipHash-1-3 under the zero key, over messages of whole words: each word is its eight bytes in
little-endian order.
-/

namespace ClockedCuckoo.Hash.SipHash

structure State where
  v0 : Word
  v1 : Word
  v2 : Word
  v3 : Word
  deriving DecidableEq, Repr

namespace State

/-- The state of the zero key. -/
def initial : State :=
  ⟨0x736f6d6570736575, 0x646f72616e646f6d, 0x6c7967656e657261, 0x7465646279746573⟩

def round (s : State) : State :=
  let v0 := s.v0 + s.v1
  let v1 := Word.rotateLeft s.v1 13 ^^^ v0
  let v0 := Word.rotateLeft v0 32
  let v2 := s.v2 + s.v3
  let v3 := Word.rotateLeft s.v3 16 ^^^ v2
  let v0 := v0 + v3
  let v3 := Word.rotateLeft v3 21 ^^^ v0
  let v2 := v2 + v1
  let v1 := Word.rotateLeft v1 17 ^^^ v2
  let v2 := Word.rotateLeft v2 32
  ⟨v0, v1, v2, v3⟩

def absorb (s : State) (m : Word) : State :=
  let t := round { s with v3 := s.v3 ^^^ m }
  { t with v0 := t.v0 ^^^ m }

def finish (s : State) : Word :=
  let t := round (round (round { s with v2 := s.v2 ^^^ 0xff }))
  t.v0 ^^^ t.v1 ^^^ t.v2 ^^^ t.v3

end State

/-- The last block of a whole-word message: its length in bytes, in the top byte. -/
def lengthBlock (message : List Word) : Word :=
  UInt64.ofNat (8 * message.length) <<< 56

def hash (message : List Word) : Word :=
  ((message.foldl State.absorb .initial).absorb (lengthBlock message)).finish

end ClockedCuckoo.Hash.SipHash
