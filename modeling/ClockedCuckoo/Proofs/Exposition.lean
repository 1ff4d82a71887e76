import Mathlib.Data.List.DropRight
import Mathlib.Data.List.Induction
import ClockedCuckoo.Proofs.Totals

/-! What the calls on a recorder since its last reset amount to, and the same read back from the export
text. A text is read by lines: a type line and a value line for each metric. -/

namespace ClockedCuckoo

inductive Recorder.Call
  | record (m : Measurement)
  | reset

namespace Recorder

namespace Call

end Call

def serve (r : Recorder) (calls : List Call) : Recorder :=
  calls.foldl (fun r call => match call with
    | .record m => r.record m
    | .reset => r.reset) r

end Recorder

namespace Counters

inductive Field
  | counts (k : Total)
  | longestChain

namespace Field

def name : Field → String
  | counts .ticks => "ticks"
  | counts (.accepted .lookup) => "lookup_count"
  | counts (.accepted .insert) => "insert_count"
  | counts (.accepted .delete) => "delete_count"
  | counts (.accepted .clean) => "clean_count"
  | counts .lookupHits => "lookup_found"
  | counts .answers => "lookup_answered"
  | counts .deleteHits => "delete_hit"
  | counts .evictions => "eviction_count"
  | counts .stalls => "stall_ticks"
  | counts .faults => "fault_count"
  | longestChain => "max_eviction_chain"

def kind : Field → Kind
  | counts _ => .counter
  | longestChain => .gauge

def all : List Field :=
  [counts .ticks, counts (.accepted .lookup), counts .lookupHits, counts .answers,
    counts (.accepted .insert), counts (.accepted .delete), counts .deleteHits,
    counts (.accepted .clean), counts .evictions, longestChain, counts .stalls, counts .faults]

end Field

def field (c : Counters) : Field → Word
  | .counts k => c.total k
  | .longestChain => c.longestChain

section Reading

def Kind.ofName? (name : List Char) : Option Kind :=
  [counter, gauge].find? (·.name.toList == name)

namespace Metric

def label (m : Metric) : List Char :=
  "cuckoo_engine_".toList ++ m.name.toList

variable {m : Metric}

end Metric

end Reading

end Counters

namespace Recorder

end Recorder
end ClockedCuckoo
