import Mathlib.Data.List.Basic
import ClockedCuckoo.Proofs.Phases
import ClockedCuckoo.Proofs.Run
import ClockedCuckoo.Proofs.Selection

/-! The registers and the result queues of an engine agree on what is under way. The invariant holds
whatever the slots contain; from it follow the shape of every cycle and that no rule is broken. -/

namespace ClockedCuckoo

namespace Engine

/-- The banks answer `keys`, and every register is within its bounds. -/
structure Built (e : Engine) (keys : List Key) : Prop where
  valid : e.config.Valid
  lanes_length : e.lanes.length = e.config.banks
  answers : ∀ l ∈ e.lanes, l.bank.Answers e.config.rows keys
  overlap : e.inFlight.maxOverlap = e.config.maxOverlap
  count_le : e.inFlight.count ≤ e.config.maxOverlap - 1
  last_eq : e.sweep.last = e.config.rows - 1
  row_le : e.sweep.row ≤ e.sweep.last
  names : e.choice.Names e.config.banks

/-- The registers account for `keys` and for nothing else. -/
structure Accounted (e : Engine) (keys : List Key) : Prop extends Built e keys where
  row_eq : e.phase ≠ .cleaning → e.sweep.row = 0
  idle : e.phase = .idle → keys.length + e.staging.holdsLookup.toNat = e.inFlight.count
  busy : e.phase ≠ .idle → e.inFlight.count = 0 ∧ e.staging.origin ≠ .lookup
  quiet : e.phase = .cleaning ∨ e.phase = .probing → keys = []
  updating : e.phase = .waiting ∨ e.phase = .writing → keys = [e.staging.key]
  staged : e.phase ≠ .idle → e.phase ≠ .cleaning →
    e.staging.valid = (e.staging.origin == .insert)
  chosen : e.phase = .writing → Probe.SingleHit (e.reads e.staging.key) ∧
    ∃ last : Choice, last.Names e.config.banks ∧ e.choice = last.next (e.reads e.staging.key)

/-- A round ends although some bank does not show its result. -/
def endsBlind (e : Engine) : Bool :=
  e.roundDone && e.results?.isNone

variable {e : Engine} {keys : List Key} {lines : Lines}

namespace Built

theorem banks_le (h : e.Built keys) : e.config.banks ≤ LaneSet.maxWidth := h.valid.banks_le

theorem rows_pos (h : e.Built keys) : 0 < e.config.rows := h.valid.rows_pos

theorem row_lt (h : e.Built keys) : e.sweep.row < e.config.rows := by
  have hlast := h.last_eq
  have hle := h.row_le
  have hpos := h.rows_pos
  omega

theorem lanes_ne_nil (h : e.Built keys) : e.lanes ≠ [] := by
  intro hnil
  have hlen := h.lanes_length
  rw [hnil] at hlen
  exact absurd h.valid.banks_pos (by rw [← hlen]; decide)

theorem length_reads (h : e.Built keys) (key : Key) :
    (e.reads key).length = e.config.banks :=
  (e.length_reads key).trans h.lanes_length

theorem shown?_eq (h : e.Built keys) {l : Lane} (hl : l ∈ e.lanes) :
    l.shown? = if l.gate.visible then keys.head?.map l.bank.read else none := by
  rw [Lane.shown?, (h.answers l hl).oldest?_eq]

theorem results?_eq_some (h : e.Built keys) {ps : List Probe} (hr : e.results? = some ps) :
    ∃ key rest, keys = key :: rest ∧ ps = e.reads key := by
  rw [results?] at hr
  split at hr
  · rename_i hoff
    obtain ⟨hne, hall⟩ := Handshake.offered_eq_true.1 hoff
    -- All queues begin with the same key, so the banks cannot show results of different rounds.
    have hshown : ∀ l ∈ e.lanes, l.shown? = keys.head?.map l.bank.read := by
      intro l hl
      have hsome := hall _ (List.mem_map_of_mem hl)
      rw [h.shown?_eq hl] at hsome ⊢
      split at hsome
      · rw [if_pos ‹_›]
      · exact absurd hsome (by decide)
    cases keys with
    | nil =>
      obtain ⟨l, hl⟩ := List.exists_mem_of_ne_nil _ h.lanes_ne_nil
      have hsome := hall _ (List.mem_map_of_mem hl)
      rw [hshown l hl] at hsome
      cases hsome
    | cons key rest =>
      refine ⟨key, rest, rfl, ?_⟩
      rw [← Option.some.inj hr, reads, ← List.filterMap_eq_map]
      exact List.filterMap_congr fun l hl => hshown l hl
  · cases hr

theorem results?_of_nil (h : e.Built []) : e.results? = none := by
  cases hr : e.results? with
  | none => rfl
  | some ps =>
    obtain ⟨key, rest, hnil, -⟩ := h.results?_eq_some hr
    cases hnil

theorem results?_of_visible {key : Key} {rest : List Key} (h : e.Built (key :: rest))
    (hv : ∀ l ∈ e.lanes, l.gate.visible = true) : e.results? = some (e.reads key) := by
  have hshown : ∀ l ∈ e.lanes, l.shown? = some (l.bank.read key) := by
    intro l hl
    rw [h.shown?_eq hl, if_pos (hv l hl)]
    rfl
  have hoff : Handshake.offered (e.lanes.map (·.shown?.isSome)) = true := by
    rw [Handshake.offered_eq_true]
    refine ⟨by simpa using h.lanes_ne_nil, fun v hm => ?_⟩
    obtain ⟨l, hl, rfl⟩ := List.mem_map.1 hm
    rw [hshown l hl]
    rfl
  rw [results?, if_pos hoff, reads, ← List.filterMap_eq_map]
  exact congrArg some (List.filterMap_congr fun l hl => hshown l hl)

theorem duplicate?_eq_none_iff (h : e.Built keys) (key : Key) :
    Probe.duplicate? (e.reads key) e.config.banks = none ↔ Probe.SingleHit (e.reads key) :=
  Probe.duplicate?_eq_none_iff (h.length_reads key) h.banks_le

theorem singleHit_of_no_fault (h : e.Built keys) (hu : e.usesResults = true)
    (hf : e.fault? = none) {key : Key} (hr : e.results? = some (e.reads key)) :
    Probe.SingleHit (e.reads key) := by
  rw [fault?, if_pos hu, hr] at hf
  exact (h.duplicate?_eq_none_iff key).1 hf

theorem results?_of_fault (h : e.Built keys) {d : Duplicate} (hf : e.fault? = some d) :
    ∃ key rest, keys = key :: rest ∧
      Probe.duplicate? (e.reads key) e.config.banks = some d := by
  rw [fault?] at hf
  split at hf
  · obtain ⟨ps, hr, hd⟩ := Option.bind_eq_some_iff.1 hf
    obtain ⟨key, rest, rfl, rfl⟩ := h.results?_eq_some hr
    exact ⟨key, rest, rfl, hd⟩
  · cases hf

theorem accounted_idle (h : e.Built keys) (hp : e.phase = .idle) (hrow : e.sweep.row = 0)
    (hcount : keys.length + e.staging.holdsLookup.toNat = e.inFlight.count) :
    e.Accounted keys :=
  { h with
    row_eq := fun _ => hrow
    idle := fun _ => hcount
    busy := fun hne => absurd hp hne
    quiet := by simp [hp]
    updating := by simp [hp]
    staged := fun hne => absurd hp hne
    chosen := by simp [hp] }

theorem accounted_cleaning (h : e.Built []) (hp : e.phase = .cleaning)
    (hcount : e.inFlight.count = 0) (ho : e.staging.origin ≠ .lookup) : e.Accounted [] :=
  { h with
    row_eq := fun hne => absurd hp hne
    idle := by simp [hp]
    busy := fun _ => ⟨hcount, ho⟩
    quiet := fun _ => rfl
    updating := by simp [hp]
    staged := fun _ hne => absurd hp hne
    chosen := by simp [hp] }

theorem accounted_probing (h : e.Built []) (hp : e.phase = .probing) (hrow : e.sweep.row = 0)
    (hcount : e.inFlight.count = 0) (ho : e.staging.origin ≠ .lookup)
    (hs : e.staging.valid = (e.staging.origin == .insert)) : e.Accounted [] :=
  { h with
    row_eq := fun _ => hrow
    idle := by simp [hp]
    busy := fun _ => ⟨hcount, ho⟩
    quiet := fun _ => rfl
    updating := by simp [hp]
    staged := fun _ _ => hs
    chosen := by simp [hp] }

theorem accounted_waiting (h : e.Built [e.staging.key]) (hp : e.phase = .waiting)
    (hrow : e.sweep.row = 0) (hcount : e.inFlight.count = 0) (ho : e.staging.origin ≠ .lookup)
    (hs : e.staging.valid = (e.staging.origin == .insert)) : e.Accounted [e.staging.key] :=
  { h with
    row_eq := fun _ => hrow
    idle := by simp [hp]
    busy := fun _ => ⟨hcount, ho⟩
    quiet := by simp [hp]
    updating := fun _ => rfl
    staged := fun _ _ => hs
    chosen := by simp [hp] }

end Built
end Engine
end ClockedCuckoo
