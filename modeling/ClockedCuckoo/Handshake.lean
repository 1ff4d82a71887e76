/-!
Joining valid/ready handshakes. An action on several lanes at once takes place only in a cycle in
which every lane taking part agrees; otherwise no lane moves.
-/

namespace ClockedCuckoo.Handshake

/-- One producer, many consumers: the producer is valid and every consumer is ready. -/
def fork (valid : Bool) (readies : List Bool) : Bool :=
  valid && readies.all id

/-- Every producer is valid, and there is one: a join of nothing never fires. -/
def offered (valids : List Bool) : Bool :=
  !valids.isEmpty && valids.all id

def join (valids : List Bool) (ready : Bool) : Bool :=
  ready && offered valids

theorem fork_eq_true {valid : Bool} {readies : List Bool} :
    fork valid readies = true ↔ valid = true ∧ ∀ r ∈ readies, r = true := by
  simp [fork]

theorem offered_eq_true {valids : List Bool} :
    offered valids = true ↔ valids ≠ [] ∧ ∀ v ∈ valids, v = true := by
  simp [offered]

theorem join_eq_true {valids : List Bool} {ready : Bool} :
    join valids ready = true ↔ valids ≠ [] ∧ (∀ v ∈ valids, v = true) ∧ ready = true := by
  rw [join, Bool.and_eq_true, offered_eq_true, and_comm, and_assoc]

end ClockedCuckoo.Handshake
