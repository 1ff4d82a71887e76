import ClockedCuckoo.Request

/-!
Which request is accepted in a cycle. Requests are ranked clean, delete, insert, lookup, and a lower
one is granted only while no higher line is high. Exclusive requests wait for the lookups in flight;
a lookup needs room in the count and a staging register that is free or is being emptied.
-/

namespace ClockedCuckoo.Arbiter

structure Conditions where
  idle : Bool := false
  lookupsDone : Bool := false
  /-- One more lookup fits under the overlap limit. -/
  room : Bool := false
  /-- The banks take the staged lookup in this cycle. -/
  stagedTaken : Bool := false
  stagedLookup : Bool := false
  deriving DecidableEq, Repr, Inhabited

structure Ready where
  clean : Bool := false
  delete : Bool := false
  insert : Bool := false
  lookup : Bool := false
  deriving DecidableEq, Repr, Inhabited

def ready (lines : Lines) (c : Conditions) : Ready :=
  let exclusive := c.idle && c.lookupsDone
  { clean := exclusive
    delete := exclusive && !lines.clean
    insert := exclusive && !lines.clean && lines.delete.isNone
    lookup := c.idle && !lines.hasExclusive && (!c.stagedLookup || c.stagedTaken) && c.room }

/-- The highest request that is both made and granted. -/
def Ready.pick? (g : Ready) (lines : Lines) : Option Request :=
  (if g.clean && lines.clean then some .clean else none).or <|
  (if g.delete then lines.delete.map .delete else none).or <|
  (if g.insert then lines.insert.map fun (key, data) => .insert key data else none).or <|
  if g.lookup then lines.lookup.map .lookup else none

end ClockedCuckoo.Arbiter
