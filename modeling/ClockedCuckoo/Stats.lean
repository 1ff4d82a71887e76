import ClockedCuckoo.Request

/-!
Counters of what an engine has done. Every cycle yields measurements, a recorder adds them up, and
the totals are exported as text with one typed block per counter. All counters are words and wrap.
-/

namespace ClockedCuckoo

inductive Measurement
  | accepted (operation : Operation)
  | answered (found : Bool)
  | deleted (hit : Bool)
  /-- An insert evicted an entry, the `chain`-th since it was accepted. -/
  | evicted (chain : Word)
  | tick
  | stalled
  | faulted
  deriving DecidableEq, Repr

structure Counters where
  ticks : Word := 0
  lookups : Word := 0
  lookupHits : Word := 0
  answers : Word := 0
  inserts : Word := 0
  deletes : Word := 0
  deleteHits : Word := 0
  cleans : Word := 0
  evictions : Word := 0
  longestChain : Word := 0
  stalls : Word := 0
  faults : Word := 0
  deriving DecidableEq, Repr, Inhabited

namespace Counters

def record (c : Counters) : Measurement → Counters
  | .accepted .lookup => { c with lookups := c.lookups + 1 }
  | .accepted .insert => { c with inserts := c.inserts + 1 }
  | .accepted .delete => { c with deletes := c.deletes + 1 }
  | .accepted .clean => { c with cleans := c.cleans + 1 }
  | .answered found =>
    { c with
      answers := c.answers + 1
      lookupHits := if found then c.lookupHits + 1 else c.lookupHits }
  | .deleted hit => { c with deleteHits := if hit then c.deleteHits + 1 else c.deleteHits }
  | .evicted chain =>
    { c with evictions := c.evictions + 1, longestChain := max c.longestChain chain }
  | .tick => { c with ticks := c.ticks + 1 }
  | .stalled => { c with stalls := c.stalls + 1 }
  | .faulted => { c with faults := c.faults + 1 }

/-- The share of answered lookups that found their key, zero when none was answered. -/
def hitRate (c : Counters) : Float :=
  if c.answers = 0 then 0.0 else c.lookupHits.toFloat / c.answers.toFloat

inductive Kind
  | counter
  | gauge
  deriving DecidableEq, Repr

def Kind.name : Kind → String
  | counter => "counter"
  | gauge => "gauge"

structure Metric where
  name : String
  kind : Kind
  value : Word
  deriving DecidableEq, Repr

def metrics (c : Counters) : List Metric :=
  [⟨"ticks", .counter, c.ticks⟩,
   ⟨"lookup_count", .counter, c.lookups⟩,
   ⟨"lookup_found", .counter, c.lookupHits⟩,
   ⟨"lookup_answered", .counter, c.answers⟩,
   ⟨"insert_count", .counter, c.inserts⟩,
   ⟨"delete_count", .counter, c.deletes⟩,
   ⟨"delete_hit", .counter, c.deleteHits⟩,
   ⟨"clean_count", .counter, c.cleans⟩,
   ⟨"eviction_count", .counter, c.evictions⟩,
   ⟨"max_eviction_chain", .gauge, c.longestChain⟩,
   ⟨"stall_ticks", .counter, c.stalls⟩,
   ⟨"fault_count", .counter, c.faults⟩]

def Metric.block (m : Metric) : String :=
  "# TYPE cuckoo_engine_" ++ m.name ++ " " ++ m.kind.name ++ "\ncuckoo_engine_" ++ m.name ++
    " " ++ m.value.toNat.repr ++ "\n"

def exposition (c : Counters) : String :=
  String.join (c.metrics.map Metric.block)

end Counters

inductive Recorder
  | counting (counters : Counters)
  | disabled
  deriving DecidableEq, Repr

namespace Recorder

instance : Inhabited Recorder := ⟨counting {}⟩

def record : Recorder → Measurement → Recorder
  | counting c, m => counting (c.record m)
  | disabled, _ => disabled

def recordAll (r : Recorder) (ms : List Measurement) : Recorder :=
  ms.foldl record r

def totals : Recorder → Counters
  | counting c => c
  | disabled => {}

def reset : Recorder → Recorder
  | counting _ => counting {}
  | disabled => disabled

def exposition : Recorder → String
  | counting c => c.exposition
  | disabled => ""

theorem recordAll_append (r : Recorder) (ms ns : List Measurement) :
    r.recordAll (ms ++ ns) = (r.recordAll ms).recordAll ns :=
  List.foldl_append ..

end Recorder
end ClockedCuckoo
