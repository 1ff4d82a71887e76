import ClockedCuckoo.Proofs.LaneMembers
import ClockedCuckoo.Proofs.SlotView

/-! What a cycle without a fault does in each phase. The signals that a phase does not use are
silent, so the next state comes down to a few registers. -/

namespace ClockedCuckoo

def Phase.started : Option Request → Phase
  | some .clean => cleaning
  | some (.delete _) | some (.insert _ _) => probing
  | some (.lookup _) | none => idle

theorem Phase.isIdle_eq_true {p : Phase} : p.isIdle = true ↔ p = .idle :=
  beq_iff_eq

theorem Phase.isIdle_eq_false {p : Phase} : p.isIdle = false ↔ p ≠ .idle :=
  beq_eq_false_iff_ne

namespace Engine

variable {e : Engine} {lines : Lines}

theorem atRest_eq_true : e.atRest = true ↔
    e.phase = .idle ∧ e.inFlight.count = 0 ∧ e.staging.holdsLookup = false := by
  rw [atRest, Bool.and_eq_true, Bool.and_eq_true, Phase.isIdle_eq_true, InFlight.isZero_eq_true,
    Bool.not_eq_true', and_assoc]

section Silent

theorem roundDone_of_ne (h : e.phase ≠ .writing) : e.roundDone = false := by
  simp [roundDone, h]

theorem evicted?_of_ne (h : e.phase ≠ .writing) : e.evicted? = none := by
  simp [evicted?, roundDone_of_ne h]

theorem cleanTaken_of_ne (h : e.phase ≠ .cleaning) : e.cleanTaken = false := by
  simp [cleanTaken, h]

theorem decision?_of_ne (h : e.phase ≠ .waiting) : e.decision? = none := by
  simp [decision?, h]

theorem response?_of_ne (h : e.phase ≠ .idle) : e.response? = none := by
  simp [response?, Phase.isIdle, h]

theorem delivers_of_ne (h : e.phase ≠ .idle) : e.delivers lines = false := by
  simp [delivers, response?_of_ne h]

theorem idle_of_delivers (h : e.delivers lines = true) : e.phase = .idle := by
  by_cases hp : e.phase = .idle
  · exact hp
  · rw [delivers_of_ne hp] at h
    cases h

theorem accepted?_of_ne (h : e.phase ≠ .idle) : e.accepted? lines = none := by
  simp [accepted?, Arbiter.ready, Arbiter.Ready.pick?, conditions, Phase.isIdle, h]

theorem probing_of_ne (h : e.phase ≠ .idle) (h' : e.phase ≠ .probing) : e.probing = false := by
  simp [probing, Phase.isIdle, h, h']

theorem probeTaken_of_ne (h : e.phase ≠ .idle) (h' : e.phase ≠ .probing) :
    e.probeTaken = false := by
  simp [probeTaken, Handshake.fork, probing_of_ne h h']

theorem lookupTaken_eq_of_idle (h : e.phase = .idle) : e.probeTaken = e.lookupTaken := by
  simp only [lookupTaken, probeTaken, Handshake.fork, probing, Phase.isIdle, h]
  cases e.staging.holdsLookup <;> simp

theorem fault?_of_ne (h : e.phase ≠ .idle) (h' : e.phase ≠ .waiting) : e.fault? = none := by
  simp [fault?, usesResults, h, h']

theorem outputs_of_ne (h : e.phase ≠ .idle) : e.outputs lines = {} := by
  simp [outputs, accepted?_of_ne h, delivers_of_ne h]

theorem nextInFlight_of_ne (h : e.phase ≠ .idle) : e.nextInFlight lines = e.inFlight := by
  simp [nextInFlight, lookupAccepted, accepted?_of_ne h, delivers_of_ne h, InFlight.after_self]

theorem nextStaging_of_ne (h : e.phase ≠ .idle) (h' : e.phase ≠ .writing) :
    e.nextStaging lines = e.staging := by
  simp [nextStaging, Phase.isIdle, h, evicted?_of_ne h']

theorem nextRounds_of_ne (h : e.phase ≠ .idle) (h' : e.phase ≠ .writing) :
    e.nextRounds lines = e.rounds := by
  simp [nextRounds, exclusiveAccepted, accepted?_of_ne h, evicted?_of_ne h']

theorem step_cleanTaken_of_ne (h : e.phase ≠ .cleaning) : e.sweep.step e.cleanTaken = e.sweep := by
  rw [cleanTaken_of_ne h]
  rfl

theorem writes_of_ne (h : e.phase ≠ .cleaning) (h' : e.phase ≠ .writing) :
    e.writes = e.lanes.map fun _ => none := by
  rw [writes]
  split
  · exact absurd ‹_› h
  · exact absurd ‹_› h'
  · rfl

theorem writes_of_cleaning (h : e.phase = .cleaning) :
    e.writes = e.lanes.map fun _ => some (.clear e.sweep.row) := by
  rw [writes, h]

end Silent

theorem zipWith_cycle_map (lanes : List Lane) (f : Lane → Command) :
    List.zipWith Lane.cycle lanes (lanes.map f) = lanes.map fun l => l.cycle (f l) := by
  rw [List.zipWith_map_right, List.zipWith_self]

theorem nextLanes_of_no_write (h : e.writes = e.lanes.map fun _ => none) :
    e.nextLanes lines = e.lanes.map (·.cycle
      { probe := if e.probeTaken then some e.staging.key else none
        consume := e.consumes lines }) := by
  simp only [nextLanes, commands, h, List.map_map, Function.comp_def, ite_self]
  exact zipWith_cycle_map ..

theorem nextLanes_of_idle (h : e.phase = .idle) :
    e.nextLanes lines = e.lanes.map (·.cycle
      { probe := if e.lookupTaken then some e.staging.key else none
        consume := e.delivers lines }) := by
  have hc : e.consumes lines = e.delivers lines := by
    rw [consumes, roundDone_of_ne (by simp [h]), Bool.false_or]
    cases hd : e.delivers lines with
    | false => rw [Bool.and_false]
    | true =>
      rw [delivers, response?, Bool.and_eq_true] at hd
      cases hr : e.results? with
      | none => simp [hr] at hd
      | some ps => rfl
  rw [nextLanes_of_no_write (writes_of_ne (by simp [h]) (by simp [h])),
    lookupTaken_eq_of_idle h, hc]

theorem nextLanes_of_probing (h : e.phase = .probing) :
    e.nextLanes lines = e.lanes.map (·.cycle
      { probe := if e.probeTaken then some e.staging.key else none }) := by
  have hc : e.consumes lines = false := by
    rw [consumes, roundDone_of_ne (by simp [h]), delivers_of_ne (by simp [h])]
    exact Bool.and_false _
  rw [nextLanes_of_no_write (writes_of_ne (by simp [h]) (by simp [h])), hc]

theorem nextLanes_of_waiting (h : e.phase = .waiting) : e.nextLanes lines = e.lanes := by
  have hc : e.consumes lines = false := by
    rw [consumes, roundDone_of_ne (by simp [h]), delivers_of_ne (by simp [h])]
    exact Bool.and_false _
  rw [nextLanes_of_no_write (writes_of_ne (by simp [h]) (by simp [h])), hc,
    probeTaken_of_ne (by simp [h]) (by simp [h])]
  exact List.map_id _

theorem nextLanes_of_cleaning (h : e.phase = .cleaning) :
    e.nextLanes lines =
      if e.cleanTaken then e.lanes.map (·.cycle { write := some (.clear e.sweep.row) })
      else e.lanes := by
  have hc : e.consumes lines = false := by
    rw [consumes, roundDone_of_ne (by simp [h]), delivers_of_ne (by simp [h])]
    exact Bool.and_false _
  have ht : e.cleanTaken = e.writeTaken := by simp [cleanTaken, h]
  simp only [nextLanes, commands, writes_of_cleaning h, hc, ht,
    probeTaken_of_ne (e := e) (by simp [h]) (by simp [h]), List.map_map, Function.comp_def]
  rw [zipWith_cycle_map]
  cases e.writeTaken with
  | true => rfl
  | false => exact List.map_id _

/-- The lanes after a round that wrote the staged entry to one bank. -/
def overwritten (e : Engine) (bank : Nat) : List Lane :=
  e.lanes.mapIdx fun i l => l.cycle
    { consume := true
      write := if i = bank then some ⟨l.bank.home e.staging.key, e.staging.slot⟩ else none }

theorem writes_of_target {t : Nat} (h : e.phase = .writing) (hn : e.writeNeeded = true)
    (hr : e.results? = some (e.reads e.staging.key))
    (hw : e.config.banks ≤ LaneSet.maxWidth) (ht : t < e.config.banks)
    (hc : e.choice.target = .singleton t e.config.banks) :
    e.writes = e.lanes.mapIdx fun i l =>
      if i = t then some ⟨l.bank.home e.staging.key, e.staging.slot⟩ else none := by
  simp only [writes, h, hr, hn, if_true, reads, hc, LaneSet.contains_singleton ht hw]
  apply List.ext_getElem?
  intro i
  rw [List.getElem?_mapIdx, List.getElem?_mapIdx, List.getElem?_map]
  cases e.lanes[i]? with
  | none => rfl
  | some l =>
    by_cases hi : t = i
    · simp [hi, Bank.read]
    · simp [hi, Ne.symm hi]

theorem nextLanes_of_target {t : Nat} (h : e.phase = .writing) (hd : e.roundDone = true)
    (hw : e.writeTaken = true) (hr : e.results?.isSome = true)
    (hws : e.writes = e.lanes.mapIdx fun i l =>
      if i = t then some ⟨l.bank.home e.staging.key, e.staging.slot⟩ else none) :
    e.nextLanes lines = e.overwritten t := by
  have hc : e.consumes lines = true := by simp [consumes, hd, hr]
  simp only [nextLanes, commands, hws, hc, hw, overwritten,
    probeTaken_of_ne (e := e) (by simp [h]) (by simp [h])]
  apply List.ext_getElem?
  intro i
  rw [List.getElem?_zipWith, List.getElem?_map, List.getElem?_mapIdx, List.getElem?_mapIdx]
  cases e.lanes[i]? <;> rfl

end Engine
end ClockedCuckoo
