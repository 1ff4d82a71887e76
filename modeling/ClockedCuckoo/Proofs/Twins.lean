import ClockedCuckoo.Proofs.Exclusion
import ClockedCuckoo.Proofs.FrontendRun

/-! Engines over the same banks whose registers differ only in what the next round sets anew. They run
alike, except that they may choose different victims, until a round has found its key or a free slot. -/

namespace ClockedCuckoo

section Take

variable {s s' : Staging} (hl : s'.lookup? = s.lookup?) (hd : s'.data = s.data)
  (accepted : Option Request) (taken : Bool) (keyMask dataMask : Word)

theorem Staging.holdsLookup_eq_isSome (s : Staging) : s.holdsLookup = s.lookup?.isSome := by
  rw [lookup?]
  cases s.holdsLookup <;> rfl

include hl in
theorem Staging.holdsLookup_eq : s'.holdsLookup = s.holdsLookup := by
  rw [holdsLookup_eq_isSome, holdsLookup_eq_isSome, hl]

include hl in
theorem Staging.key_eq (h : s.holdsLookup = true) : s'.key = s.key := by
  have h' := (holdsLookup_eq hl).trans h
  rw [lookup?, lookup?, h, h'] at hl
  exact Option.some.inj hl

include hl in
theorem Staging.lookup?_take_eq : (s'.take accepted taken keyMask dataMask).lookup? =
    (s.take accepted taken keyMask dataMask).lookup? := by
  cases accepted with
  | none =>
    cases taken with
    | false => exact hl
    | true => rfl
  | some r =>
    cases r with
    | clean => exact hl
    | delete key | insert key data | lookup key => rfl

include hd in
theorem Staging.data_take_eq : (s'.take accepted taken keyMask dataMask).data =
    (s.take accepted taken keyMask dataMask).data := by
  cases accepted with
  | none =>
    cases taken with
    | false => exact hd
    | true => exact hd
  | some r =>
    cases r with
    | insert key data => rfl
    | clean | delete key | lookup key => exact hd

include hd in
theorem Staging.take_eq (h : Phase.started accepted = .probing) :
    s'.take accepted taken keyMask dataMask = s.take accepted taken keyMask dataMask := by
  cases accepted with
  | none => cases h
  | some r =>
    cases r with
    | delete key =>
      rw [take, take, hd]
    | insert key data => rfl
    | clean | lookup key => cases h

end Take

namespace Choice

variable {last last' : Choice} (hw : last'.target.width = last.target.width)

include hw

theorem next_eq (hv : last'.victim = last.victim) (probes : List Probe) :
    last'.next probes = last.next probes := by
  rw [next, next, hw, hv]

theorem next_eq_or (probes : List Probe) : last'.next probes = last.next probes ∨
    ((last.next probes).found = false ∧ (last.next probes).final = false) ∧
      (last'.next probes).found = false ∧ (last'.next probes).final = false := by
  rw [next, next, hw]
  split
  · exact .inl rfl
  · split
    · exact .inl rfl
    · exact .inr ⟨⟨rfl, rfl⟩, rfl, rfl⟩

end Choice

namespace Engine

/-- The engines differ at most in what the next round sets anew: in the staged entry while there is
none, in the choice, in the counts. -/
structure Twin (e e' : Engine) : Prop where
  config_eq : e'.config = e.config
  lanes_eq : e'.lanes = e.lanes
  phase_eq : e'.phase = e.phase
  inFlight_eq : e'.inFlight = e.inFlight
  sweep_eq : e'.sweep = e.sweep
  lookup?_eq : e'.staging.lookup? = e.staging.lookup?
  data_eq : e'.staging.data = e.staging.data
  updating : e.Updating → e'.staging = e.staging ∧ e'.rounds = e.rounds
  chosen : e.phase = .writing → e'.choice = e.choice ∨
    (e.choice.found = false ∧ e.choice.final = false) ∧
      e'.choice.found = false ∧ e'.choice.final = false

structure Level (e e' : Engine) : Prop where
  victim_eq : e'.choice.victim = e.choice.victim
  choice_eq : e.phase = .writing → e'.choice = e.choice

/-- A round that writes has the same target in both engines, or is that of a delete which found nothing. -/
def WritesAlike (e e' : Engine) : Prop :=
  e.phase = .writing → e'.choice = e.choice ∨
    e.staging.origin = .delete ∧ e.choice.found = false ∧ e'.choice.found = false

variable {e e' : Engine} {keys keys' : List Key} {lines : Lines}

theorem Level.writesAlike (h : Level e e') : WritesAlike e e' :=
  fun hp => .inl (h.choice_eq hp)

namespace Twin

section Signals

variable (h : Twin e e')

include h

theorem phase_of {p : Phase} (hp : e.phase = p) : e'.phase = p :=
  h.phase_eq.trans hp

theorem holdsLookup_eq : e'.staging.holdsLookup = e.staging.holdsLookup :=
  Staging.holdsLookup_eq h.lookup?_eq

theorem results?_eq : e'.results? = e.results? := by
  rw [results?, results?, h.lanes_eq]

theorem fault?_eq : e'.fault? = e.fault? := by
  rw [fault?, fault?, usesResults, usesResults, h.results?_eq, h.phase_eq, h.config_eq]

theorem response?_eq : e'.response? = e.response? := by
  rw [response?, response?, h.results?_eq, h.phase_eq, h.config_eq]

theorem delivers_eq : e'.delivers lines = e.delivers lines := by
  rw [delivers, delivers, h.response?_eq]

theorem probeTaken_eq : e'.probeTaken = e.probeTaken := by
  rw [probeTaken, probeTaken, probing, probing, h.phase_eq, h.holdsLookup_eq, h.lanes_eq]

theorem lookupTaken_eq : e'.lookupTaken = e.lookupTaken := by
  rw [lookupTaken, lookupTaken, h.probeTaken_eq, h.holdsLookup_eq]

theorem accepted?_eq : e'.accepted? lines = e.accepted? lines := by
  have hconditions : e'.conditions = e.conditions := by
    rw [conditions, conditions, lookupsDone, lookupsDone, h.phase_eq, h.inFlight_eq,
      h.lookupTaken_eq, h.holdsLookup_eq]
  rw [accepted?, accepted?, hconditions]

theorem outputs_eq : e'.outputs lines = e.outputs lines := by
  rw [outputs, outputs, h.accepted?_eq, h.delivers_eq, h.response?_eq]

theorem nextInFlight_eq : e'.nextInFlight lines = e.nextInFlight lines := by
  rw [nextInFlight, nextInFlight, lookupAccepted, lookupAccepted, h.accepted?_eq, h.delivers_eq,
    h.inFlight_eq]

theorem cleanTaken_eq (hp : e.phase = .cleaning) : e'.cleanTaken = e.cleanTaken := by
  have hwrites : e'.writes = e.writes := by
    simp only [writes, h.phase_eq, hp, h.lanes_eq, h.sweep_eq]
  rw [cleanTaken, cleanTaken, writeTaken, writeTaken, hwrites, h.phase_eq, h.lanes_eq]

end Signals

theorem of_recorder (e : Engine) (r : Recorder) : Twin e { e with recorder := r } where
  config_eq := rfl
  lanes_eq := rfl
  phase_eq := rfl
  inFlight_eq := rfl
  sweep_eq := rfl
  lookup?_eq := rfl
  data_eq := rfl
  updating _ := ⟨rfl, rfl⟩
  chosen _ := .inl rfl

theorem eq_of_choice_eq (h : Twin e e') (hup : e.Updating) (hc : e'.choice = e.choice) :
    e' = { e with recorder := e'.recorder } := by
  obtain ⟨hs, hr⟩ := h.updating hup
  obtain ⟨config, lanes, phase, staging, inFlight, sweep, choice, rounds, recorder⟩ := e
  obtain ⟨config', lanes', phase', staging', inFlight', sweep', choice', rounds', recorder'⟩ := e'
  obtain ⟨rfl, rfl, rfl, rfl, rfl, -⟩ := h
  dsimp only at hs hr hc
  rw [hs, hr, hc]

theorem advance_idle (h : Twin e e') (hp : e.phase = .idle) (lines : Lines) :
    Twin (e.advance lines) (e'.advance lines) := by
  rw [advance_of_idle hp, advance_of_idle (h.phase_of hp)]
  have hprobe : (if e'.lookupTaken then some e'.staging.key else none) =
      if e.lookupTaken then some e.staging.key else none := by
    rw [h.lookupTaken_eq]
    split
    · rw [Staging.key_eq h.lookup?_eq (holdsLookup_of_lookupTaken ‹_›)]
    · rfl
  have htake : (e'.served lines (e'.recorder.recordAll (e'.measurements lines))).staging =
      e'.staging.take (e.accepted? lines) e.lookupTaken e.config.keyMask e.config.dataMask := by
    rw [served, h.accepted?_eq, h.lookupTaken_eq, h.config_eq]
  refine
    { config_eq := h.config_eq
      lanes_eq := ?_
      phase_eq := congrArg Phase.started h.accepted?_eq
      inFlight_eq := h.nextInFlight_eq
      sweep_eq := h.sweep_eq
      lookup?_eq := ?_
      data_eq := ?_
      updating := ?_
      chosen := ?_ }
  · simp only [served, h.lanes_eq, hprobe, h.delivers_eq]
  · rw [htake]
    exact Staging.lookup?_take_eq h.lookup?_eq ..
  · rw [htake]
    exact Staging.data_take_eq h.data_eq ..
  · intro hup
    -- An operation under way was accepted in this cycle, which stages the same entry in both.
    have hstarted : Phase.started (e.accepted? lines) = .probing := by
      rcases Phase.started_cases (e.accepted? lines) with hs | hs | hs
      · exact absurd hs hup.not_idle
      · exact absurd hs hup.not_cleaning
      · exact hs
    have hexclusive : e.exclusiveAccepted lines = true := by
      by_contra hx
      rw [started_of_no_exclusive (Bool.eq_false_iff.2 hx)] at hstarted
      cases hstarted
    have hexclusive' : e'.exclusiveAccepted lines = true := by
      rw [exclusiveAccepted, h.accepted?_eq]
      exact hexclusive
    refine ⟨htake.trans (Staging.take_eq h.data_eq _ _ _ _ hstarted), ?_⟩
    simp only [served, hexclusive, hexclusive', if_true]
  · intro hw
    rcases Phase.started_cases (e.accepted? lines) with hs | hs | hs <;>
      exact absurd (hs.symm.trans hw) (by decide)

theorem advance_probing (h : Twin e e') (hp : e.phase = .probing) (lines : Lines) :
    Twin (e.advance lines) (e'.advance lines) := by
  rw [advance_of_probing hp, advance_of_probing (h.phase_of hp)]
  obtain ⟨hs, hr⟩ := h.updating (.inl hp)
  exact
    { config_eq := h.config_eq
      lanes_eq := by simp only [h.lanes_eq, h.probeTaken_eq, hs]
      phase_eq := by simp only [h.probeTaken_eq]
      inFlight_eq := h.inFlight_eq
      sweep_eq := h.sweep_eq
      lookup?_eq := h.lookup?_eq
      data_eq := h.data_eq
      updating := fun _ => ⟨hs, hr⟩
      chosen := fun hw => by
        dsimp only at hw
        split at hw <;> cases hw }

theorem advance_waiting (h : Twin e e') (hp : e.phase = .waiting)
    (hw : e'.choice.target.width = e.choice.target.width) (lines : Lines) :
    Twin (e.advance lines) (e'.advance lines) := by
  rw [advance_of_waiting hp, advance_of_waiting (h.phase_of hp), h.results?_eq]
  exact
    { config_eq := h.config_eq
      lanes_eq := h.lanes_eq
      phase_eq := rfl
      inFlight_eq := h.inFlight_eq
      sweep_eq := h.sweep_eq
      lookup?_eq := h.lookup?_eq
      data_eq := h.data_eq
      updating := fun _ => h.updating (.inr (.inl hp))
      chosen := fun hwriting => by
        dsimp only at hwriting ⊢
        cases hr : e.results? with
        | none =>
          rw [hr] at hwriting
          cases hwriting
        | some ps => exact Choice.next_eq_or hw ps }

theorem advance_cleaning (h : Twin e e') (hp : e.phase = .cleaning) (lines : Lines) :
    Twin (e.advance lines) (e'.advance lines) := by
  rw [advance_of_cleaning hp, advance_of_cleaning (h.phase_of hp)]
  have hphase : ∀ b : Bool, (if b then Phase.idle else .cleaning) = .idle ∨
      (if b then Phase.idle else .cleaning) = .cleaning := by
    intro b
    cases b
    · exact .inr rfl
    · exact .inl rfl
  exact
    { config_eq := h.config_eq
      lanes_eq := by simp only [h.lanes_eq, h.cleanTaken_eq hp, h.sweep_eq]
      phase_eq := by simp only [h.cleanTaken_eq hp, h.sweep_eq]
      inFlight_eq := h.inFlight_eq
      sweep_eq := by simp only [h.cleanTaken_eq hp, h.sweep_eq]
      lookup?_eq := h.lookup?_eq
      data_eq := h.data_eq
      updating := fun hup => by
        rcases hphase (e.cleanTaken && e.sweep.atLast) with hs | hs
        · exact absurd hs hup.not_idle
        · exact absurd hs hup.not_cleaning
      chosen := fun hw => by
        rcases hphase (e.cleanTaken && e.sweep.atLast) with hs | hs <;>
          exact absurd (hs.symm.trans hw) (by decide) }

theorem writesAlike (h : Twin e e') (hk' : e'.Accounted keys') (hopen : e'.Open)
    (hev : e'.evicted? = none) : WritesAlike e e' := by
  intro hp
  have hp' := h.phase_of hp
  obtain ⟨hs, -⟩ := h.updating (.inr (.inr hp))
  refine (h.chosen hp).imp_right fun ⟨⟨hfound, _⟩, hfound', hfinal'⟩ => ⟨?_, hfound, hfound'⟩
  rw [← hs]
  cases ho : e'.staging.origin with
  | delete => rfl
  | lookup => exact absurd ho (hk'.busy (by simp [hp'])).2
  | insert =>
    -- With all gates open the round is over and has evicted.
    have hn : e'.writeNeeded = true := by rw [writeNeeded, hp', ho]
    have ht := hk'.writeTaken_of_open hopen hp' hn
    rcases hk'.choice_cases hp' with ⟨t, _, _, hc⟩ | ⟨_, t, _, _, _, hc⟩ | ⟨_, _, t, hlt, hc⟩
    · rw [hc] at hfinal'
      cases hfinal'
    · rw [hc] at hfinal'
      cases hfinal'
    · rw [hk'.evicted?_eq hp' ho ht hlt hc] at hev
      cases hev

theorem advance_writing (h : Twin e e') (hk : e.Accounted keys) (hopen : e.Open)
    (hp : e.phase = .writing) (hc : WritesAlike e e') (lines : Lines) :
    Twin (e.advance lines) (e'.advance lines) := by
  have hup : e.Updating := .inr (.inr hp)
  rcases hc hp with hc | ⟨ho, hfound, hfound'⟩
  · rw [h.eq_of_choice_eq hup hc]
    exact of_recorder _ _
  · have hp' := h.phase_of hp
    obtain ⟨hs, hr⟩ := h.updating hup
    have ho' : e'.staging.origin = .delete := hs ▸ ho
    have hn : e.writeNeeded = false := by rw [writeNeeded, hp, ho, hfound]
    have hn' : e'.writeNeeded = false := by rw [writeNeeded, hp', ho', hfound']
    have hresults : e.results?.isSome = true := by
      rw [hk.results?_of_open hopen (.inr hp)]
      rfl
    have hresults' : e'.results?.isSome = true := h.results?_eq ▸ hresults
    rw [advance_of_writing hp, advance_of_writing hp', nextLanes_of_not_needed hp hn hresults,
      nextLanes_of_not_needed hp' hn' hresults', evicted?_of_delete ho, evicted?_of_delete ho']
    have hdone : e.writeDone = true := by rw [writeDone, hn]; rfl
    have hdone' : e'.writeDone = true := by rw [writeDone, hn']; rfl
    simp only [hdone, hdone', ho, ho']
    exact
      { config_eq := h.config_eq
        lanes_eq := by simp only [h.lanes_eq]
        phase_eq := rfl
        inFlight_eq := h.inFlight_eq
        sweep_eq := h.sweep_eq
        lookup?_eq := h.lookup?_eq
        data_eq := h.data_eq
        updating := fun hup' => absurd rfl hup'.not_idle
        chosen := fun hw => by cases hw }

theorem width_eq (h : Twin e e') (hk : e.Accounted keys) (hk' : e'.Accounted keys') :
    e'.choice.target.width = e.choice.target.width := by
  rw [hk'.names.width_eq, hk.names.width_eq, h.config_eq]

theorem advance (h : Twin e e') (hk : e.Accounted keys) (hk' : e'.Accounted keys')
    (hopen : e.Open) (hc : WritesAlike e e') (lines : Lines) :
    Twin (e.advance lines) (e'.advance lines) := by
  cases hp : e.phase with
  | idle => exact h.advance_idle hp lines
  | cleaning => exact h.advance_cleaning hp lines
  | probing => exact h.advance_probing hp lines
  | waiting => exact h.advance_waiting hp (h.width_eq hk hk') lines
  | writing => exact h.advance_writing hk hopen hp hc lines

theorem evicted?_eq (h : Twin e e') (hc : WritesAlike e e') : e'.evicted? = e.evicted? := by
  by_cases hp : e.phase = .writing
  · rcases hc hp with hc | ⟨ho, -⟩
    · rw [h.eq_of_choice_eq (.inr (.inr hp)) hc]
      rfl
    · have ho' : e'.staging.origin = .delete := by
        rw [(h.updating (.inr (.inr hp))).1]
        exact ho
      rw [evicted?_of_delete ho, evicted?_of_delete ho']
  · rw [evicted?_of_ne hp, evicted?_of_ne (h.phase_eq.symm ▸ hp)]

theorem cycle (h : Twin e e') (hk : e.Accounted keys) (hk' : e'.Accounted keys') (hopen : e.Open)
    (hf : e'.fault? = none) (hc : WritesAlike e e')
    {o' : Outcome Engine Duplicate Outputs} (ho' : e'.cycle lines = .ok o') :
    e.cycle lines = .ok ⟨e.advance lines, o'.result, e.events lines⟩ ∧
      o'.state = e'.advance lines ∧ Twin (e.advance lines) (e'.advance lines) := by
  have hf' : e.fault? = none := h.fault?_eq.symm.trans hf
  rw [Engine.cycle, hf] at ho'
  obtain ⟨hnone, rfl⟩ := guarded_eq_ok.1 ho'
  refine ⟨?_, rfl, h.advance hk hk' hopen hc lines⟩
  rw [Engine.cycle, hf', ← h.outputs_eq]
  refine guarded_eq_ok.2 ⟨?_, rfl⟩
  rw [hk'.advanceViolation?_eq hf, h.evicted?_eq hc] at hnone
  rw [hk.advanceViolation?_eq hf']
  cases hev : e.evicted? with
  | none => rfl
  | some entry =>
    -- Evictions are counted alike since the insert was accepted.
    have hp : e.phase = .writing := by
      by_contra hp
      rw [evicted?_of_ne hp] at hev
      cases hev
    rwa [hev, (h.updating (.inr (.inr hp))).2] at hnone

end Twin

section Levels

theorem choice_advance_of_ne (hp : e.phase ≠ .waiting) (lines : Lines) :
    (e.advance lines).choice = e.choice := by
  show e.decision?.getD e.choice = e.choice
  rw [decision?_of_ne hp]
  rfl

theorem phase_of_advance_writing (h : (e.advance lines).phase = .writing) :
    e.phase = .waiting ∨ e.phase = .writing := by
  have hnext : e.phase.next (e.signals lines) = .writing := h
  cases hp : e.phase with
  | waiting => exact .inl rfl
  | writing => exact .inr rfl
  | idle =>
    rw [hp, Phase.next] at hnext
    split at hnext
    · cases hnext
    · split at hnext <;> cases hnext
  | cleaning | probing =>
    rw [hp, Phase.next] at hnext
    split at hnext <;> cases hnext

variable (h : Twin e e') (hw : e'.choice.target.width = e.choice.target.width)

include h hw

theorem Level.advance (hl : Level e e') (lines : Lines) :
    Level (e.advance lines) (e'.advance lines) := by
  by_cases hp : e.phase = .waiting
  · rw [advance_of_waiting hp, advance_of_waiting (h.phase_of hp), h.results?_eq]
    cases e.results? with
    | none => exact ⟨hl.victim_eq, fun hwriting => by cases hwriting⟩
    | some ps =>
      have hnext := Choice.next_eq hw hl.victim_eq ps
      exact ⟨congrArg Choice.victim hnext, fun _ => hnext⟩
  · have hp' : e'.phase ≠ .waiting := h.phase_eq.symm ▸ hp
    constructor
    · rw [choice_advance_of_ne hp, choice_advance_of_ne hp']
      exact hl.victim_eq
    · intro hwriting
      rw [choice_advance_of_ne hp, choice_advance_of_ne hp']
      exact hl.choice_eq ((phase_of_advance_writing hwriting).resolve_left hp)

theorem Twin.level_of_final (hfinal : e'.decision?.any Choice.final = true) (lines : Lines) :
    Level (e.advance lines) (e'.advance lines) := by
  obtain ⟨c, hd, hc⟩ := (Option.any_eq_true ..).1 hfinal
  have hp' : e'.phase = .waiting := by
    by_contra hp'
    rw [decision?_of_ne hp'] at hd
    cases hd
  have hp : e.phase = .waiting := h.phase_eq.symm.trans hp'
  rw [decision?, hp', h.results?_eq] at hd
  rw [advance_of_waiting hp, advance_of_waiting hp', h.results?_eq]
  obtain ⟨ps, hr, rfl⟩ := Option.map_eq_some_iff.1 hd
  have hnext : e'.choice.next ps = e.choice.next ps := by
    rcases Choice.next_eq_or hw ps with hnext | ⟨-, -, hfinal⟩
    · exact hnext
    · rw [hfinal] at hc
      cases hc
  rw [hr]
  exact ⟨congrArg Choice.victim hnext, fun _ => hnext⟩

end Levels

/-- No round evicts before one has found its key or a free slot. -/
def Undiverted : List Beat → Prop
  | [] => True
  | b :: bs => b.start.evicted? = none ∧
      (b.start.decision?.any Choice.final = true ∨ Undiverted bs)

instance decidableUndiverted : DecidablePred Undiverted
  | [] => inferInstanceAs (Decidable True)
  | _ :: bs =>
    have := decidableUndiverted bs
    inferInstanceAs (Decidable (_ ∧ (_ ∨ _)))

def Alike (b b' : Beat) : Prop :=
  SameSlots b.start b'.start ∧ b'.result = b.result

structure Steady (e : Engine) : Prop where
  accounted : ∃ keys, e.Accounted keys
  sound : e.Sound
  isOpen : e.Open

namespace Steady

theorem fault?_eq_none (h : Steady e) : e.fault? = none := by
  obtain ⟨keys, hk⟩ := h.accounted
  exact h.sound.toPlaced.fault?_eq_none hk.toBuilt

theorem tick_eq_cycle (h : Steady e) (l : Lines) : e.tick (.ofLines l) = e.cycle l := by
  rw [tick, behind_of_open h.isOpen]
  rfl

theorem start_beat (h : Steady e) (l : Lines) (o : Outcome Engine Duplicate Outputs) :
    (e.beat (.ofLines l) o).start = e :=
  behind_of_open h.isOpen l

theorem tick (h : Steady e) {l : Lines} {o : Outcome Engine Duplicate Outputs}
    (ho : e.tick (.ofLines l) = .ok o) : Steady o.state := by
  rw [h.tick_eq_cycle] at ho
  obtain ⟨keys, hk⟩ := h.accounted
  have hm := ((hk.cyclesTo_progress h.isOpen l).ok ho).1
  obtain ⟨keys', hk', -⟩ := hm.accounted hk
  exact ⟨⟨keys', hk'⟩, hm.sound hk h.sound, h.isOpen.cycle ho⟩

theorem run {ls : List Lines} {beats : List Beat} (h : Steady e)
    (hrun : e.run (ls.map .ofLines) = .ok (beats, e')) : Steady e' := by
  induction ls generalizing e beats with
  | nil =>
    cases hrun
    exact h
  | cons l ls ih =>
    obtain ⟨o, beats', ho, hrun', rfl⟩ := run_cons_eq_ok hrun
    exact ih (h.tick ho) hrun'

theorem tick_eq_ok (h : Steady e) (hev : e.evicted? = none) (l : Lines) :
    e.tick (.ofLines l) = .ok ⟨e.advance l, .ok (e.outputs l), e.events l⟩ := by
  obtain ⟨keys, hk⟩ := h.accounted
  rw [h.tick_eq_cycle]
  exact hk.cycle_of_no_eviction h.fault?_eq_none hev

end Steady

structure Pair (e e' : Engine) : Prop extends Twin e e' where
  left : Steady e
  right : Steady e'

namespace Pair

theorem width_eq (h : Pair e e') : e'.choice.target.width = e.choice.target.width := by
  obtain ⟨keys, hk⟩ := h.left.accounted
  obtain ⟨keys', hk'⟩ := h.right.accounted
  exact h.toTwin.width_eq hk hk'

theorem writesAlike (h : Pair e e') (hev : e'.evicted? = none) : WritesAlike e e' := by
  obtain ⟨keys', hk'⟩ := h.right.accounted
  exact h.toTwin.writesAlike hk' h.right.isOpen hev

theorem tick (h : Pair e e') (hc : WritesAlike e e') {l : Lines}
    {o' : Outcome Engine Duplicate Outputs} (ho' : e'.tick (.ofLines l) = .ok o') :
    ∃ o, e.tick (.ofLines l) = .ok o ∧ Pair o.state o'.state ∧
      Alike (e.beat (.ofLines l) o) (e'.beat (.ofLines l) o') ∧
      o.state = e.advance l ∧ o'.state = e'.advance l := by
  obtain ⟨keys, hk⟩ := h.left.accounted
  obtain ⟨keys', hk'⟩ := h.right.accounted
  have hright := h.right.tick ho'
  rw [h.right.tick_eq_cycle] at ho'
  obtain ⟨ho, hstate, hnext⟩ :=
    h.toTwin.cycle hk hk' h.left.isOpen h.right.fault?_eq_none hc ho'
  rw [← h.left.tick_eq_cycle] at ho
  refine ⟨_, ho, ⟨hstate ▸ hnext, h.left.tick ho, hright⟩, ⟨?_, rfl⟩, rfl, hstate⟩
  rw [h.left.start_beat, h.right.start_beat]
  exact sameSlots_of_lanes_eq h.lanes_eq

theorem run {ls : List Lines} {beats' : List Beat} {e₂' : Engine} (h : Pair e e')
    (hrun : e'.run (ls.map .ofLines) = .ok (beats', e₂'))
    (hl : Level e e' ∨ Undiverted beats') :
    ∃ beats e₂, e.run (ls.map .ofLines) = .ok (beats, e₂) ∧ List.Forall₂ Alike beats beats' ∧
      SameSlots e₂ e₂' := by
  induction ls generalizing e e' beats' with
  | nil =>
    cases hrun
    exact ⟨[], e, rfl, .nil, sameSlots_of_lanes_eq h.lanes_eq⟩
  | cons l ls ih =>
    obtain ⟨o', beats', ho', hrun', rfl⟩ := run_cons_eq_ok hrun
    have hstart := h.right.start_beat l o'
    have hc : WritesAlike e e' := by
      rcases hl with hl | ⟨hev, -⟩
      · exact hl.writesAlike
      · exact h.writesAlike (hstart ▸ hev)
    obtain ⟨o, ho, hpair, halike, hstate, hstate'⟩ := h.tick hc ho'
    -- Once the choices are level they stay so, and the rest of the run may evict.
    have hl' : Level o.state o'.state ∨ Undiverted beats' := by
      rw [hstate, hstate']
      rcases hl with hl | ⟨-, hfinal | hl⟩
      · exact .inl (hl.advance h.toTwin h.width_eq l)
      · exact .inl (h.level_of_final h.width_eq (hstart ▸ hfinal) l)
      · exact .inr hl
    obtain ⟨beats, e₂, hrun₂, hbeats, hsame⟩ := ih hpair hrun' hl'
    exact ⟨_, e₂, run_cons_of_ok ho hrun₂, .cons halike hbeats, hsame⟩

end Pair
end Engine
end ClockedCuckoo
