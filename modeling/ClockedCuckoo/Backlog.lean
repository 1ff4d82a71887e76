import ClockedCuckoo.Request

/-!
Requests that wait for their line: one queue per kind, first in, first out.
-/

namespace ClockedCuckoo

structure Backlog where
  /-- Cleans carry nothing, so their number is their queue. -/
  cleans : Nat := 0
  deletes : List Key := []
  inserts : List (Key × Data) := []
  lookups : List Key := []
  deriving DecidableEq, Repr, Inhabited

namespace Backlog

def push (b : Backlog) : Request → Backlog
  | .clean => { b with cleans := b.cleans + 1 }
  | .delete key => { b with deletes := b.deletes ++ [key] }
  | .insert key data => { b with inserts := b.inserts ++ [(key, data)] }
  | .lookup key => { b with lookups := b.lookups ++ [key] }

def pending (b : Backlog) : Nat :=
  b.cleans + b.deletes.length + b.inserts.length + b.lookups.length

def isEmpty (b : Backlog) : Bool :=
  b.cleans == 0 && b.deletes.isEmpty && b.inserts.isEmpty && b.lookups.isEmpty

/-- What a line holds after it was free to take the head of its queue. -/
def raise {α : Type} (held : Option α) (queue : List α) : Option α :=
  held.or queue.head?

def rest {α : Type} (held : Option α) (queue : List α) : List α :=
  if held.isSome then queue else queue.tail

/-- The lines with every free one taking the oldest request of its kind. -/
def fill (b : Backlog) (l : Lines) : Lines :=
  { l with
    clean := l.clean || b.cleans != 0
    delete := raise l.delete b.deletes
    insert := raise l.insert b.inserts
    lookup := raise l.lookup b.lookups }

def drain (b : Backlog) (l : Lines) : Backlog where
  cleans := if l.clean then b.cleans else b.cleans - 1
  deletes := rest l.delete b.deletes
  inserts := rest l.insert b.inserts
  lookups := rest l.lookup b.lookups

theorem raise_append_rest {α : Type} (held : Option α) (queue : List α) :
    (raise held queue).toList ++ rest held queue = held.toList ++ queue := by
  cases held <;> cases queue <;> simp [raise, rest]

end Backlog
end ClockedCuckoo
