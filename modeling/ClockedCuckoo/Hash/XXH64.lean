import ClockedCuckoo.Word

/-!
XXH64 of one word: the hash of its eight bytes in little-endian order, under a seed. An input of
eight bytes passes no stripe loop; it takes one lane step and the closing avalanche.
-/

namespace ClockedCuckoo.Hash.XXH64

def prime1 : Word := 0x9E3779B185EBCA87
def prime2 : Word := 0xC2B2AE3D27D4EB4F
def prime3 : Word := 0x165667B19E3779F9
def prime4 : Word := 0x85EBCA77C2B2AE63
def prime5 : Word := 0x27D4EB2F165667C5

def round (input : Word) : Word :=
  Word.rotateLeft (input * prime2) 31 * prime1

def avalanche (h : Word) : Word :=
  let h := (h ^^^ (h >>> 33)) * prime2
  let h := (h ^^^ (h >>> 29)) * prime3
  h ^^^ (h >>> 32)

def hash (seed input : Word) : Word :=
  let start := seed + prime5 + 8
  avalanche (Word.rotateLeft (start ^^^ round input) 27 * prime1 + prime4)

end ClockedCuckoo.Hash.XXH64
