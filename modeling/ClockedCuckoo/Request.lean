import ClockedCuckoo.Word

/-!
What crosses the engine's boundary in one clock cycle: the request lines going in, the accepted
request and the delivered lookup response coming out.
-/

namespace ClockedCuckoo

inductive Operation
  | lookup
  | insert
  | delete
  | clean
  deriving DecidableEq, Repr

namespace Operation

/-- An exclusive operation is accepted only once every earlier lookup has its outcome. -/
def isExclusive : Operation → Bool
  | lookup => false
  | insert | delete | clean => true

def name : Operation → String
  | lookup => "lookup"
  | insert => "insert"
  | delete => "delete"
  | clean => "clean"

end Operation

/-- Why a key is staged. An insert also takes up the entries it evicts. -/
inductive Origin
  | insert
  | lookup
  /-- A delete, and the neutral value: nothing is written back for it. -/
  | delete
  deriving DecidableEq, Repr

namespace Origin

instance : Inhabited Origin := ⟨delete⟩

def name : Origin → String
  | insert => "insert"
  | lookup => "lookup"
  | delete => "delete"

def label : Origin → String
  | insert => "Insert"
  | lookup => "Lookup"
  | delete => "Delete"

end Origin

inductive Request
  | clean
  | delete (key : Key)
  | insert (key : Key) (data : Data)
  | lookup (key : Key)
  deriving DecidableEq, Repr

namespace Request

def operation : Request → Operation
  | clean => .clean
  | delete _ => .delete
  | insert _ _ => .insert
  | lookup _ => .lookup

def isExclusive (r : Request) : Bool :=
  r.operation.isExclusive

def isLookup : Request → Bool
  | lookup _ => true
  | _ => false

end Request

/-- The request lines of one cycle. A line that is not accepted is to be held unchanged. By default
nothing is requested and lookup responses are taken. -/
structure Lines where
  clean : Bool := false
  delete : Option Key := none
  insert : Option (Key × Data) := none
  lookup : Option Key := none
  resultReady : Bool := true
  deriving DecidableEq, Repr, Inhabited

namespace Lines

def hasExclusive (l : Lines) : Bool :=
  l.clean || l.delete.isSome || l.insert.isSome

def isQuiet (l : Lines) : Bool :=
  !l.hasExclusive && l.lookup.isNone

def release (l : Lines) : Option Request → Lines
  | some .clean => { l with clean := false }
  | some (.delete _) => { l with delete := none }
  | some (.insert _ _) => { l with insert := none }
  | some (.lookup _) => { l with lookup := none }
  | none => l

end Lines

structure Hit where
  bank : Nat
  data : Data
  deriving DecidableEq, Repr

structure Response where
  key : Key
  hit : Option Hit
  /-- The slot probed in the bank that holds the key, or in bank 0 if none does. -/
  index : Nat
  deriving DecidableEq, Repr

namespace Response

def found (r : Response) : Bool :=
  r.hit.isSome

def data (r : Response) : Option Data :=
  r.hit.map Hit.data

end Response

structure Outputs where
  accepted : Option Request := none
  response : Option Response := none
  deriving DecidableEq, Repr, Inhabited

end ClockedCuckoo
