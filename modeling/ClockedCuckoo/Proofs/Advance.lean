import ClockedCuckoo.Proofs.Admission

/-! The state after a cycle without a fault, phase by phase. What is left open is the lanes of a
round that writes, and how such a round ends. -/

namespace ClockedCuckoo

namespace Engine

variable {e : Engine} {lines : Lines}

def served (e : Engine) (lines : Lines) (r : Recorder) : Engine :=
  { e with
    lanes := e.lanes.map (·.cycle
      { probe := if e.lookupTaken then some e.staging.key else none
        consume := e.delivers lines })
    phase := Phase.started (e.accepted? lines)
    staging := e.staging.take (e.accepted? lines) e.lookupTaken e.config.keyMask
      e.config.dataMask
    inFlight := e.nextInFlight lines
    rounds := if e.exclusiveAccepted lines then 0 else e.rounds
    recorder := r }

theorem sameSlots_served (e : Engine) (lines : Lines) (r : Recorder) :
    SameSlots e (e.served lines r) :=
  sameSlots_of_lanes_map rfl rfl

theorem advance_of_idle (hp : e.phase = .idle) :
    e.advance lines = e.served lines (e.recorder.recordAll (e.measurements lines)) := by
  have hi : e.phase.isIdle = true := Phase.isIdle_eq_true.2 hp
  have hev : e.evicted? = none := evicted?_of_ne (by simp [hp])
  have hst : e.nextStaging lines = e.staging.take (e.accepted? lines) e.lookupTaken
      e.config.keyMask e.config.dataMask := by
    rw [nextStaging, hev, if_pos hi]
  have hro : e.nextRounds lines = if e.exclusiveAccepted lines then 0 else e.rounds := by
    rw [nextRounds, hev]
    rfl
  rw [advance, nextLanes_of_idle hp, nextPhase_of_idle hp, hst, hro,
    decision?_of_ne (by simp [hp]), step_cleanTaken_of_ne (by simp [hp])]
  rfl

theorem advance_of_probing (hp : e.phase = .probing) : e.advance lines =
    { e with
      lanes := e.lanes.map (·.cycle { probe := if e.probeTaken then some e.staging.key else none })
      phase := if e.probeTaken then .waiting else .probing
      recorder := e.recorder.recordAll (e.measurements lines) } := by
  have hnext : e.nextPhase lines = if e.probeTaken then .waiting else .probing := by
    rw [nextPhase, hp]
    rfl
  have hni : e.phase ≠ .idle := by simp [hp]
  have hnw : e.phase ≠ .writing := by simp [hp]
  rw [advance, nextLanes_of_probing hp, hnext, nextStaging_of_ne hni hnw, nextInFlight_of_ne hni,
    nextRounds_of_ne hni hnw, decision?_of_ne (by simp [hp]),
    step_cleanTaken_of_ne (by simp [hp])]
  rfl

theorem advance_of_waiting (hp : e.phase = .waiting) : e.advance lines =
    { e with
      phase := if e.results?.isSome then .writing else .waiting
      choice := (e.results?.map e.choice.next).getD e.choice
      recorder := e.recorder.recordAll (e.measurements lines) } := by
  have hnext : e.nextPhase lines = if e.results?.isSome then .writing else .waiting := by
    rw [nextPhase, hp]
    rfl
  have hd : e.decision? = e.results?.map e.choice.next := by simp [decision?, hp]
  have hni : e.phase ≠ .idle := by simp [hp]
  have hnw : e.phase ≠ .writing := by simp [hp]
  rw [advance, nextLanes_of_waiting hp, hnext, nextStaging_of_ne hni hnw, nextInFlight_of_ne hni,
    nextRounds_of_ne hni hnw, hd, step_cleanTaken_of_ne (by simp [hp])]

theorem advance_of_cleaning (hp : e.phase = .cleaning) : e.advance lines =
    { e with
      lanes := if e.cleanTaken then
          e.lanes.map (·.cycle { write := some (.clear e.sweep.row) })
        else e.lanes
      phase := if e.cleanTaken && e.sweep.atLast then .idle else .cleaning
      sweep := e.sweep.step e.cleanTaken
      recorder := e.recorder.recordAll (e.measurements lines) } := by
  have hnext : e.nextPhase lines =
      if e.cleanTaken && e.sweep.atLast then .idle else .cleaning := by
    rw [nextPhase, hp]
    rfl
  have hni : e.phase ≠ .idle := by simp [hp]
  have hnw : e.phase ≠ .writing := by simp [hp]
  rw [advance, nextLanes_of_cleaning hp, hnext, nextStaging_of_ne hni hnw, nextInFlight_of_ne hni,
    nextRounds_of_ne hni hnw, decision?_of_ne (by simp [hp])]
  rfl

theorem advance_of_writing (hp : e.phase = .writing) : e.advance lines =
    { e with
      lanes := e.nextLanes lines
      phase := if e.writeDone then
          if e.staging.origin == .insert && !e.choice.final then .probing else .idle
        else .writing
      staging := (e.evicted?.map e.staging.takeEvicted).getD e.staging
      rounds := if e.evicted?.isSome then e.rounds + 1 else e.rounds
      recorder := e.recorder.recordAll (e.measurements lines) } := by
  have hni : e.phase ≠ .idle := by simp [hp]
  have hi : e.phase.isIdle = false := Phase.isIdle_eq_false.2 hni
  have hnext : e.nextPhase lines = if e.writeDone then
      if e.staging.origin == .insert && !e.choice.final then .probing else .idle
      else .writing := by
    rw [nextPhase, hp, Phase.next, signals]
    cases e.writeDone <;> rfl
  have hst : e.nextStaging lines = (e.evicted?.map e.staging.takeEvicted).getD e.staging := by
    rw [nextStaging, hi]
    cases e.evicted? <;> rfl
  have hro : e.nextRounds lines = if e.evicted?.isSome then e.rounds + 1 else e.rounds := by
    rw [nextRounds, exclusiveAccepted, accepted?_of_ne hni]
    rfl
  rw [advance, hnext, hst, hro, nextInFlight_of_ne hni, decision?_of_ne (by simp [hp]),
    step_cleanTaken_of_ne (by simp [hp])]
  rfl

theorem writes_of_not_needed (hn : e.writeNeeded = false) :
    e.writes = e.lanes.map fun _ => none := by
  rw [writes]
  split
  · rename_i hp
    simp [writeNeeded, hp] at hn
  · simp [hn]
  · rfl

theorem writeTaken_of_not_needed (hn : e.writeNeeded = false) : e.writeTaken = false := by
  simp [writeTaken, Handshake.fork, writes_of_not_needed hn]

theorem results?_of_writeTaken (hp : e.phase = .writing) (ht : e.writeTaken = true) :
    e.writeNeeded = true ∧ ∃ ps, e.results? = some ps := by
  cases hn : e.writeNeeded with
  | false =>
    rw [writeTaken_of_not_needed hn] at ht
    cases ht
  | true =>
    cases hr : e.results? with
    | none =>
      have hw : e.writes = e.lanes.map fun _ => none := by simp [writes, hp, hr]
      simp [writeTaken, Handshake.fork, hw] at ht
    | some ps => exact ⟨rfl, ps, rfl⟩

theorem nextLanes_of_not_needed (hp : e.phase = .writing) (hn : e.writeNeeded = false)
    (hr : e.results?.isSome = true) :
    e.nextLanes lines = e.lanes.map (·.cycle { consume := true }) := by
  have hc : e.consumes lines = true := by simp [consumes, roundDone, writeDone, hp, hn, hr]
  rw [nextLanes_of_no_write (writes_of_not_needed hn), hc,
    probeTaken_of_ne (by simp [hp]) (by simp [hp])]
  rfl

theorem evicted?_of_final (hf : e.choice.final = true) : e.evicted? = none := by
  simp [evicted?, hf]

theorem evicted?_of_delete (ho : e.staging.origin = .delete) : e.evicted? = none := by
  simp [evicted?, ho]

theorem evicted?_of_not_done (hd : e.writeDone = false) : e.evicted? = none := by
  simp [evicted?, roundDone, hd]

theorem origin_of_not_needed (hp : e.phase = .writing) (ho : e.staging.origin ≠ .lookup)
    (hn : e.writeNeeded = false) : e.staging.origin = .delete ∧ e.choice.found = false := by
  rw [writeNeeded, hp] at hn
  cases hor : e.staging.origin with
  | insert => simp [hor] at hn
  | lookup => exact absurd hor ho
  | delete => exact ⟨rfl, by simpa [hor] using hn⟩

theorem origin_of_needed (hp : e.phase = .writing) (ho : e.staging.origin ≠ .lookup)
    (hn : e.writeNeeded = true) (hf : e.choice.found = false) : e.staging.origin = .insert := by
  rw [writeNeeded, hp] at hn
  cases hor : e.staging.origin with
  | insert => rfl
  | lookup => exact absurd hor ho
  | delete => simp [hor, hf] at hn

end Engine
end ClockedCuckoo
