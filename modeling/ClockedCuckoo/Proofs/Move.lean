import ClockedCuckoo.Proofs.Accounting
import ClockedCuckoo.Proofs.Advance

/-! The shapes that a cycle of an accounted engine can take. Every proof about what cycles do to the
slots and registers goes through these cases. -/

namespace ClockedCuckoo

namespace Engine

/-- No bank holds the key where it belongs. -/
def Misses (e : Engine) (key : Key) : Prop :=
  ∀ t < e.lanes.length, (e.readAt t key).found = false

/-- What a cycle leads to. Only the recorder is left open. -/
inductive Move (e : Engine) (lines : Lines) : Engine → Except Duplicate Outputs → Prop
  | serve (r : Recorder) (hp : e.phase = .idle) (hf : e.fault? = none) :
    Move e lines (e.served lines r) (.ok (e.outputs lines))
  | refuse (r : Recorder) (d : Duplicate) (hp : e.phase = .idle) (hf : e.fault? = some d) :
    Move e lines
      { e with
        lanes := e.lanes.map (·.cycle { consume := true })
        inFlight := e.inFlight.after false true
        recorder := r }
      (.error d)
  | hold (r : Recorder) (hp : e.phase ≠ .idle) : Move e lines { e with recorder := r } (.ok {})
  | sweep (r : Recorder) (hp : e.phase = .cleaning) (ht : e.cleanTaken = true) :
    Move e lines
      { e with
        lanes := e.lanes.map (·.cycle { write := some (.clear e.sweep.row) })
        phase := if e.sweep.atLast then .idle else .cleaning
        sweep := e.sweep.step true
        recorder := r }
      (.ok {})
  | probe (r : Recorder) (hp : e.phase = .probing) (ht : e.probeTaken = true) :
    Move e lines
      { e with
        lanes := e.lanes.map (·.cycle { probe := some e.staging.key })
        phase := .waiting
        recorder := r }
      (.ok {})
  | choose (r : Recorder) (hp : e.phase = .waiting)
      (hs : Probe.SingleHit (e.reads e.staging.key)) :
    Move e lines
      { e with
        phase := .writing
        choice := e.choice.next (e.reads e.staging.key)
        recorder := r }
      (.ok {})
  | abort (r : Recorder) (d : Duplicate) (hp : e.phase = .waiting) (hf : e.fault? = some d) :
    Move e lines
      { e with
        lanes := e.lanes.map (·.cycle { consume := true })
        phase := .idle
        staging := {}
        recorder := r }
      (.error d)
  /-- The staged entry takes the place of its key: new data, or none after a delete. -/
  | update (r : Recorder) (t : Nat) (hp : e.phase = .writing) (ht : t < e.lanes.length)
      (hhit : (e.readAt t e.staging.key).found = true) :
    Move e lines { e with lanes := e.overwritten t, phase := .idle, recorder := r } (.ok {})
  | fill (r : Recorder) (t : Nat) (hp : e.phase = .writing) (ho : e.staging.origin = .insert)
      (hmiss : e.Misses e.staging.key) (ht : t < e.lanes.length)
      (hfree : (e.readAt t e.staging.key).occupied = false)
      (hlow : ∀ s < t, (e.readAt s e.staging.key).occupied = true) :
    Move e lines { e with lanes := e.overwritten t, phase := .idle, recorder := r } (.ok {})
  /-- The staged entry takes the place of another one, which is staged in turn. -/
  | evict (r : Recorder) (t : Nat) (hp : e.phase = .writing) (ho : e.staging.origin = .insert)
      (hmiss : e.Misses e.staging.key) (ht : t < e.lanes.length)
      (hfull : ∀ s < e.lanes.length, (e.readAt s e.staging.key).occupied = true)
      (hc : e.choice.target = .singleton t e.config.banks) :
    Move e lines
      { e with
        lanes := e.overwritten t
        phase := .probing
        staging := e.staging.takeEvicted
          ((e.readAt t e.staging.key).slot.key, (e.readAt t e.staging.key).slot.data)
        rounds := e.rounds + 1
        recorder := r }
      (.ok {})
  | miss (r : Recorder) (hp : e.phase = .writing) (ho : e.staging.origin = .delete)
      (hmiss : e.Misses e.staging.key) :
    Move e lines
      { e with
        lanes := e.lanes.map (·.cycle { consume := true })
        phase := .idle
        recorder := r }
      (.ok {})

variable {e : Engine} {keys : List Key} {lines : Lines}

namespace Accounted

theorem choice_cases (h : e.Accounted keys) (hp : e.phase = .writing) :
    (∃ t < e.lanes.length, (e.readAt t e.staging.key).found = true ∧
      e.choice = ⟨.singleton t e.config.banks, true, true⟩) ∨
    (e.Misses e.staging.key ∧ ∃ t < e.lanes.length,
      (e.readAt t e.staging.key).occupied = false ∧
      (∀ s < t, (e.readAt s e.staging.key).occupied = true) ∧
      e.choice = ⟨.singleton t e.config.banks, false, true⟩) ∨
    (e.Misses e.staging.key ∧
      (∀ s < e.lanes.length, (e.readAt s e.staging.key).occupied = true) ∧
      ∃ t < e.lanes.length, e.choice = ⟨.singleton t e.config.banks, false, false⟩) := by
  obtain ⟨hs, last, hlast, hc⟩ := h.chosen hp
  have hl := h.length_reads e.staging.key
  have hmiss : (∀ p ∈ e.reads e.staging.key, p.found = false) → e.Misses e.staging.key :=
    fun hall t ht => hall _ (List.mem_of_getElem? (getElem?_reads ht _))
  rw [hc]
  rcases Choice.next_cases hlast.width_eq hs hl h.banks_le with
    ⟨t, p, hi, hf, hnext⟩ | ⟨hall, t, p, hi, hfree, hlow, hnext⟩ | ⟨hall, hfull, hnext⟩
  · obtain ⟨ht, rfl⟩ := eq_readAt_of_getElem? hi
    exact .inl ⟨t, ht, hf, hnext⟩
  · obtain ⟨ht, rfl⟩ := eq_readAt_of_getElem? hi
    refine .inr (.inl ⟨hmiss hall, t, ht, hfree, fun s hs => ?_, hnext⟩)
    exact hlow s hs _ (getElem?_reads (Nat.lt_trans hs ht) _)
  · obtain ⟨t, ht, hv⟩ := hlast.victim h.valid.banks_pos h.banks_le
    refine .inr (.inr ⟨hmiss hall, fun s hs => ?_, t, h.lanes_length ▸ ht, hv ▸ hnext⟩)
    exact hfull _ (List.mem_of_getElem? (getElem?_reads hs _))

theorem results?_of_updating (h : e.Accounted keys)
    (hp : e.phase = .waiting ∨ e.phase = .writing) {ps : List Probe}
    (hr : e.results? = some ps) : e.results? = some (e.reads e.staging.key) := by
  obtain ⟨key, rest, hk, rfl⟩ := h.results?_eq_some hr
  have hkey : keys = [e.staging.key] := h.updating hp
  rw [hkey] at hk
  cases hk
  exact hr

end Accounted

section Writing

theorem Accounted.nextLanes_of_not_done (h : e.Accounted keys) (hp : e.phase = .writing)
    (hd : e.writeDone = false) : e.nextLanes lines = e.lanes := by
  have hwt : e.writeTaken = false := by
    rw [writeDone, Bool.or_eq_false_iff] at hd
    exact hd.2
  have hc : e.consumes lines = false := by
    have hdel : e.delivers lines = false := delivers_of_ne (by simp [hp])
    simp [consumes, roundDone, hd, hdel]
  -- No bank is told anything, but the commands must still be one for each bank.
  have hlen : e.writes.length = e.lanes.length := by
    cases hr : e.results? with
    | none => simp [writes, hp, hr]
    | some ps =>
      have hps := h.results?_of_updating (.inr hp) hr
      rw [hr] at hps
      cases hn : e.writeNeeded with
      | false => rw [writes_of_not_needed hn, List.length_map]
      | true => simp [writes, hp, hr, hn, Option.some.inj hps, Engine.length_reads]
  simp only [nextLanes, commands, hwt, hc,
    probeTaken_of_ne (e := e) (by simp [hp]) (by simp [hp])]
  apply List.ext_getElem?
  intro i
  rw [List.getElem?_zipWith, List.getElem?_map]
  by_cases hi : i < e.lanes.length
  · rw [List.getElem?_eq_getElem hi, List.getElem?_eq_getElem (hlen ▸ hi)]
    rfl
  · rw [List.getElem?_eq_none (Nat.le_of_not_lt hi)]

theorem Accounted.nextLanes_of_done (h : e.Accounted keys) (hp : e.phase = .writing)
    (ht : e.writeTaken = true) {t : Nat} (hlt : t < e.lanes.length)
    (hc : e.choice.target = .singleton t e.config.banks) :
    e.nextLanes lines = e.overwritten t := by
  obtain ⟨hn, ps, hr⟩ := results?_of_writeTaken hp ht
  have hr' := h.results?_of_updating (.inr hp) hr
  have hd : e.roundDone = true := by simp [roundDone, writeDone, hp, ht]
  refine nextLanes_of_target hp hd ht (by simp [hr]) ?_
  exact writes_of_target hp hn hr' h.banks_le (h.lanes_length ▸ hlt) hc

theorem Accounted.evicted?_eq (h : e.Accounted keys) (hp : e.phase = .writing)
    (ho : e.staging.origin = .insert) (ht : e.writeTaken = true) {t : Nat}
    (hlt : t < e.lanes.length)
    (hc : e.choice = ⟨.singleton t e.config.banks, false, false⟩) :
    e.evicted? = some
      ((e.readAt t e.staging.key).slot.key, (e.readAt t e.staging.key).slot.data) := by
  obtain ⟨-, ps, hr⟩ := results?_of_writeTaken hp ht
  have hr' := h.results?_of_updating (.inr hp) hr
  have hd : e.roundDone = true := by simp [roundDone, writeDone, hp, ht]
  have honly : (LaneSet.singleton t e.config.banks).only? = some t :=
    LaneSet.only?_singleton (h.lanes_length ▸ hlt) h.banks_le
  simp [evicted?, hd, ho, hc, honly, hr', getElem?_reads hlt]

end Writing

theorem Accounted.move_writing (h : e.Accounted keys) (hp : e.phase = .writing)
    (hb : e.endsBlind = false) : Move e lines (e.advance lines) (.ok {}) := by
  have ho := (h.busy (by simp [hp])).2
  rw [advance_of_writing hp]
  cases hd : e.writeDone with
  | false =>
    rw [h.nextLanes_of_not_done hp hd, evicted?_of_not_done hd, ← hp]
    exact .hold _ (by simp [hp])
  | true =>
    cases hn : e.writeNeeded with
    | false =>
      obtain ⟨hdel, hfound⟩ := origin_of_not_needed hp ho hn
      -- This round ends without looking at the results; only the hypothesis says that they show.
      have hr : e.results?.isSome = true := by
        rw [endsBlind, roundDone, hp, hd] at hb
        simpa using hb
      have hmiss : e.Misses e.staging.key := by
        rcases h.choice_cases hp with ⟨_, _, _, hc⟩ | ⟨hmiss, -⟩ | ⟨hmiss, -⟩
        · rw [hc] at hfound
          cases hfound
        · exact hmiss
        · exact hmiss
      rw [nextLanes_of_not_needed hp hn hr, evicted?_of_delete hdel]
      simp only [hdel]
      exact .miss _ hp hdel hmiss
    | true =>
      have ht : e.writeTaken = true := by simpa [writeDone, hn] using hd
      rcases h.choice_cases hp with
        ⟨t, hlt, hhit, hc⟩ | ⟨hmiss, t, hlt, hfree, hlow, hc⟩ | ⟨hmiss, hfull, t, hlt, hc⟩
      · rw [h.nextLanes_of_done hp ht hlt (by rw [hc]), evicted?_of_final (by rw [hc])]
        simp only [hc, Bool.not_true, Bool.and_false]
        exact hc ▸ .update _ t hp hlt hhit
      · have hins := origin_of_needed hp ho hn (by rw [hc])
        rw [h.nextLanes_of_done hp ht hlt (by rw [hc]), evicted?_of_final (by rw [hc])]
        simp only [hc, Bool.not_true, Bool.and_false]
        exact hc ▸ .fill _ t hp hins hmiss hlt hfree hlow
      · have hins := origin_of_needed hp ho hn (by rw [hc])
        rw [h.nextLanes_of_done hp ht hlt (by rw [hc]), h.evicted?_eq hp hins ht hlt hc]
        simp only [hins, hc]
        exact hc ▸ .evict _ t hp hins hmiss hlt hfull (by rw [hc])

/-- A cycle without a fault is one of the moves, unless it ends a round blindly. -/
theorem Accounted.move_advance (h : e.Accounted keys) (hf : e.fault? = none)
    (hb : e.endsBlind = false) : Move e lines (e.advance lines) (.ok (e.outputs lines)) := by
  cases hp : e.phase with
  | idle =>
    rw [advance_of_idle hp]
    exact .serve _ hp hf
  | cleaning =>
    rw [advance_of_cleaning hp, outputs_of_ne (by simp [hp])]
    cases ht : e.cleanTaken with
    | false =>
      rw [← hp]
      exact .hold _ (by simp [hp])
    | true => exact .sweep _ hp ht
  | probing =>
    rw [advance_of_probing hp, outputs_of_ne (by simp [hp])]
    cases ht : e.probeTaken with
    | false =>
      have hlanes : e.lanes.map (·.cycle {}) = e.lanes := List.map_id _
      simp only [Bool.false_eq_true, if_false, hlanes]
      rw [← hp]
      exact .hold _ (by simp [hp])
    | true => exact .probe _ hp ht
  | waiting =>
    rw [advance_of_waiting hp, outputs_of_ne (by simp [hp])]
    cases hr : e.results? with
    | none =>
      simp only [Option.isSome_none, Bool.false_eq_true, if_false, Option.map_none,
        Option.getD_none]
      rw [← hp]
      exact .hold _ (by simp [hp])
    | some ps =>
      have hr' := h.results?_of_updating (.inl hp) hr
      have hu : e.usesResults = true := by simp [usesResults, hp]
      rw [← Option.some.inj (hr.symm.trans hr').symm]
      exact .choose _ hp (h.singleHit_of_no_fault hu hf hr')
  | writing =>
    rw [outputs_of_ne (by simp [hp])]
    exact h.move_writing hp hb

theorem move_discard {d : Duplicate} (hf : e.fault? = some d) :
    Move e lines e.discard (.error d) := by
  rw [discard]
  by_cases hp : e.phase = .idle
  · have hi : e.phase.isIdle = true := Phase.isIdle_eq_true.2 hp
    simp only [hi, if_true]
    rw [← hp]
    exact .refuse _ d hp hf
  · have hw : e.phase = .waiting := by
      by_cases hw : e.phase = .waiting
      · exact hw
      · rw [fault?_of_ne hp hw] at hf
        cases hf
    have hi : e.phase.isIdle = false := Phase.isIdle_eq_false.2 hp
    simp only [hi, Bool.false_eq_true, if_false]
    exact .abort _ d hw hf

end Engine
end ClockedCuckoo
