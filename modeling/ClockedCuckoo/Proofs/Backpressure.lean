import ClockedCuckoo.Proofs.Progress

/-! Gates change when an operation goes on, never what it does. The module compares an engine behind
gates with the same engine without them, the count of cycles left aside. -/

namespace ClockedCuckoo

namespace Recorder

def untimed : Recorder → Recorder
  | counting c => counting { c with ticks := 0 }
  | disabled => disabled

theorem untimed_record (r : Recorder) (m : Measurement) :
    (r.untimed.record m).untimed = (r.record m).untimed := by
  cases r with
  | disabled => rfl
  | counting c =>
    cases m with
    | accepted op => cases op <;> rfl
    | answered found | deleted hit | evicted chain | tick | stalled | faulted => rfl

theorem untimed_recordAll (r : Recorder) (ms : List Measurement) :
    (r.untimed.recordAll ms).untimed = (r.recordAll ms).untimed := by
  induction ms generalizing r with
  | nil => cases r <;> rfl
  | cons m ms ih =>
    change ((r.untimed.record m).recordAll ms).untimed = ((r.record m).recordAll ms).untimed
    rw [← ih, untimed_record, ih]

theorem totals_untimed (r : Recorder) : r.untimed.totals = { r.totals with ticks := 0 } := by
  cases r <;> rfl

theorem untimed_tick (r : Recorder) : (r.recordAll [.tick]).untimed = r.untimed := by
  cases r <;> rfl

end Recorder

namespace Engine

def bare (e : Engine) : Engine :=
  { e.behind fun _ => {} with recorder := e.recorder.untimed }

variable {c : Config} {lanes : List Lane} {e e' : Engine} {keys : List Key} {lines : Lines}

theorem bare_behind (e : Engine) (gates : Nat → Gate) : (e.behind gates).bare = e.bare := by
  simp [bare, behind, List.mapIdx_mapIdx, Function.comp_def]

theorem open_bare (e : Engine) : e.bare.Open :=
  e.open_behind {}

theorem reads_bare (e : Engine) (key : Key) : e.bare.reads key = e.reads key :=
  e.reads_behind _ key

theorem banks_bare (e : Engine) : e.bare.lanes.map (·.bank) = e.lanes.map (·.bank) := by
  apply List.ext_getElem?
  intro t
  rw [List.getElem?_map, List.getElem?_map, bare, getElem?_lanes_behind, Option.map_map]
  rfl

theorem Accounted.bare (h : e.Accounted keys) : e.bare.Accounted keys :=
  { h.behind fun _ => {} with }

theorem lanes_behind_of_cycles (gates : Nat → Gate) (lanes : List Lane) (cs : List Command) :
    (List.zipWith Lane.cycle lanes cs).mapIdx (fun i l => { l with gate := gates i }) =
      List.zipWith Lane.cycle (lanes.mapIdx fun i l => { l with gate := gates i }) cs := by
  apply List.ext_getElem?
  intro i
  simp only [List.getElem?_mapIdx, List.getElem?_zipWith]
  cases lanes[i]? with
  | none => rfl
  | some l => cases cs[i]? <;> rfl

theorem bare_discard (e : Engine) : e.discard.bare = e.bare.discard.bare := by
  rw [bare, bare, Engine.mk.injEq]
  refine ⟨rfl, ?_, rfl, rfl, rfl, rfl, rfl, rfl, ?_⟩
  · apply List.ext_getElem?
    intro i
    simp only [behind, discard, bare, List.getElem?_mapIdx, List.getElem?_map]
    cases e.lanes[i]? <;> rfl
  · exact (Recorder.untimed_recordAll e.recorder _).symm

section Handshakes

/-! Where the same handshakes take place, the engine goes on as it would without gates. -/

variable (hresults : e.bare.results? = e.results?) (hprobe : e.bare.probeTaken = e.probeTaken)
  (hwrite : e.bare.writeTaken = e.writeTaken)

include hresults in
theorem fault?_bare : e.bare.fault? = e.fault? := by
  rw [fault?, fault?, hresults]
  rfl

include hresults in
theorem response?_bare : e.bare.response? = e.response? := by
  rw [response?, response?, hresults]
  rfl

include hresults in
theorem delivers_bare : e.bare.delivers lines = e.delivers lines := by
  rw [delivers, delivers, response?_bare hresults]

include hresults in
theorem decision?_bare : e.bare.decision? = e.decision? := by
  rw [decision?, decision?, hresults]
  rfl

include hresults in
theorem writes_bare : e.bare.writes = e.writes := by
  have hconst : ∀ w : Option SlotWrite, (e.bare.lanes.map fun _ => w) = e.lanes.map fun _ => w := by
    simp [bare, behind, List.map_const']
  rw [writes, writes, hresults, hconst, hconst]
  rfl

include hprobe in
theorem accepted?_bare : e.bare.accepted? lines = e.accepted? lines := by
  rw [accepted?, accepted?, conditions, conditions, lookupTaken, lookupTaken, hprobe]
  rfl

include hwrite in
theorem roundDone_bare : e.bare.roundDone = e.roundDone := by
  rw [roundDone, roundDone, writeDone, writeDone, hwrite]
  rfl

include hresults hwrite in
theorem evicted?_bare : e.bare.evicted? = e.evicted? := by
  rw [evicted?, evicted?, roundDone_bare hwrite, hresults]
  rfl

include hresults hprobe in
theorem nextInFlight_bare : e.bare.nextInFlight lines = e.nextInFlight lines := by
  rw [nextInFlight, nextInFlight, lookupAccepted, lookupAccepted, accepted?_bare hprobe,
    delivers_bare hresults]
  rfl

include hresults hprobe hwrite

theorem commands_bare : e.bare.commands lines = e.commands lines := by
  rw [commands, commands, writes_bare hresults, consumes, consumes, roundDone_bare hwrite,
    delivers_bare hresults, hresults, hprobe, hwrite]
  rfl

theorem measurements_bare : e.bare.measurements lines = e.measurements lines := by
  rw [measurements, measurements, stalls, stalls, evicted?_bare hresults hwrite,
    roundDone_bare hwrite, accepted?_bare hprobe, response?_bare hresults, delivers_bare hresults]
  rfl

theorem nextPhase_bare : e.bare.nextPhase lines = e.nextPhase lines := by
  rw [nextPhase, nextPhase, signals, signals, cleanTaken, cleanTaken, writeDone, writeDone, hresults,
    hprobe, hwrite]
  rfl

theorem nextStaging_bare : e.bare.nextStaging lines = e.nextStaging lines := by
  rw [nextStaging, nextStaging, evicted?_bare hresults hwrite, accepted?_bare hprobe, lookupTaken,
    lookupTaken, hprobe]
  rfl

theorem nextRounds_bare : e.bare.nextRounds lines = e.nextRounds lines := by
  rw [nextRounds, nextRounds, exclusiveAccepted, exclusiveAccepted, accepted?_bare hprobe,
    evicted?_bare hresults hwrite]
  rfl

theorem bare_advance (lines : Lines) : (e.advance lines).bare = (e.bare.advance lines).bare := by
  have hlanes : ((e.advance lines).behind fun _ => {}).lanes =
      ((e.bare.advance lines).behind fun _ => {}).lanes := by
    simp only [behind, advance, nextLanes]
    rw [lanes_behind_of_cycles, lanes_behind_of_cycles, commands_bare hresults hprobe hwrite]
    simp [bare, behind, List.mapIdx_mapIdx, Function.comp_def]
  have hrecorder : (e.advance lines).recorder.untimed =
      (e.bare.advance lines).recorder.untimed := by
    simp only [advance, measurements_bare hresults hprobe hwrite]
    exact (Recorder.untimed_recordAll e.recorder _).symm
  have hsweep : e.bare.cleanTaken = e.cleanTaken := by
    rw [cleanTaken, cleanTaken, hwrite]
    rfl
  rw [bare, bare, hlanes, hrecorder]
  simp only [advance, behind, nextPhase_bare hresults hprobe hwrite,
    nextStaging_bare hresults hprobe hwrite, nextRounds_bare hresults hprobe hwrite,
    nextInFlight_bare hresults hprobe, decision?_bare hresults, hsweep]
  rfl

end Handshakes

/-- What an operation under way comes to in its next cycle without gates. -/
def onward (e : Engine) : Engine :=
  if e.fault?.isSome then e.discard.bare else (e.advance {}).bare

theorem measurements_of_busy (hp : e.phase ≠ .idle) (hd : e.roundDone = false) :
    e.measurements lines = [.tick] := by
  simp [measurements, evicted?, hd, accepted?_of_ne hp, stalls, Phase.isIdle_eq_false.2 hp,
    response?_of_ne hp]

theorem advance_of_busy (hp : e.phase ≠ .idle) (lines lines' : Lines) :
    e.advance lines = e.advance lines' := by
  have hnext : ∀ p : Phase, p ≠ .idle → p.next (e.signals lines) = p.next (e.signals lines') := by
    intro p hne
    cases p with
    | idle => exact absurd rfl hne
    | cleaning | probing | waiting | writing => rfl
  have hlanes : e.nextLanes lines = e.nextLanes lines' := by
    simp only [nextLanes, commands, consumes, delivers_of_ne hp]
  have hmeasured : e.measurements lines = e.measurements lines' := by
    simp only [measurements, accepted?_of_ne hp, response?_of_ne hp, stalls,
      Phase.isIdle_eq_false.2 hp, Bool.false_and]
  rw [advance, advance, hlanes, hmeasured, nextPhase, hnext e.phase hp, nextInFlight_of_ne hp,
    nextInFlight_of_ne hp, nextStaging, nextStaging, nextRounds, nextRounds, exclusiveAccepted,
    exclusiveAccepted, accepted?_of_ne hp, accepted?_of_ne hp]
  rfl

theorem bare_of_held (h : e' = { e with recorder := e.recorder.recordAll [.tick] }) :
    e'.bare = e.bare := by
  rw [h, bare, Recorder.untimed_tick]
  rfl

namespace Accounted

theorem results?_bare (h : e.Accounted keys) (hv : ∀ l ∈ e.lanes, l.gate.visible = true) :
    e.bare.results? = e.results? := by
  cases keys with
  | nil => rw [h.results?_of_nil, h.bare.results?_of_nil]
  | cons key rest =>
    have hopen : ∀ l ∈ e.bare.lanes, l.gate.visible = true := by
      intro l hl
      rw [e.open_bare l hl]
    rw [h.results?_of_visible hv, h.bare.results?_of_visible hopen, reads_bare]

/-- An operation under way waits for a gate, or the same handshakes take place as without gates. -/
theorem held_or_taken (h : e.Accounted keys) (hp : e.phase ≠ .idle) (lines : Lines) :
    (e.advance lines).bare = e.bare ∨
      e.bare.probeTaken = e.probeTaken ∧ e.bare.writeTaken = e.writeTaken := by
  have hp' : e.bare.phase = e.phase := rfl
  have hneeded : e.bare.writeNeeded = e.writeNeeded := rfl
  have hwrite : e.writeNeeded = false → e.bare.writeTaken = e.writeTaken := fun hn => by
    rw [writeTaken_of_not_needed hn, writeTaken_of_not_needed (hneeded.trans hn)]
  have hprobe : e.phase ≠ .probing → e.bare.probeTaken = e.probeTaken := fun hne => by
    rw [probeTaken_of_ne hp hne, probeTaken_of_ne (hp' ▸ hp) (hp' ▸ hne)]
  -- Each phase waits for one handshake. A gate may hold it back, and then only time goes by.
  cases hphase : e.phase with
  | idle => exact absurd hphase hp
  | cleaning =>
    have hd := roundDone_of_ne (e := e) (by simp [hphase])
    cases ht : e.cleanTaken with
    | false =>
      refine .inl (bare_of_held ?_)
      rw [advance_of_cleaning hphase, ht, measurements_of_busy hp hd, ← hphase]
      rfl
    | true =>
      refine .inr ⟨hprobe (by simp [hphase]), ?_⟩
      have htaken : e.bare.cleanTaken = true := by
        rw [h.bare.cleanTaken_iff (hp'.trans hphase)]
        intro l hl
        rw [e.open_bare l hl]
      rw [cleanTaken, Bool.and_eq_true] at ht htaken
      rw [ht.2, htaken.2]
  | probing =>
    have hd := roundDone_of_ne (e := e) (by simp [hphase])
    cases ht : e.probeTaken with
    | false =>
      refine .inl (bare_of_held ?_)
      have hlanes : e.lanes.map (·.cycle {}) = e.lanes := List.map_id _
      rw [advance_of_probing hphase, ht, measurements_of_busy hp hd, ← hphase]
      simp only [Bool.false_eq_true, if_false, hlanes]
    | true =>
      refine .inr ⟨?_, hwrite (by rw [writeNeeded, hphase])⟩
      exact h.bare.probeTaken_of_open e.open_bare (hp'.trans hphase)
  | waiting =>
    exact .inr ⟨hprobe (by simp [hphase]), hwrite (by rw [writeNeeded, hphase])⟩
  | writing =>
    cases hd : e.writeDone with
    | false =>
      refine .inl (bare_of_held ?_)
      rw [advance_of_writing hphase, hd, h.nextLanes_of_not_done hphase hd,
        evicted?_of_not_done hd, measurements_of_busy hp (by simp [roundDone, hd]), ← hphase]
      rfl
    | true =>
      refine .inr ⟨hprobe (by simp [hphase]), ?_⟩
      cases hn : e.writeNeeded with
      | false => exact hwrite hn
      | true =>
        rw [writeDone, hn] at hd
        rw [h.bare.writeTaken_of_open e.open_bare (hp'.trans hphase) hn]
        exact hd.symm

theorem bare_cycle (h : e.Accounted keys) (hv : ∀ l ∈ e.lanes, l.gate.visible = true)
    (hp : e.phase ≠ .idle) {o : Outcome Engine Duplicate Outputs} (ho : e.cycle lines = .ok o) :
    o.state.bare = e.bare ∨ o.state.bare = e.bare.onward := by
  have hresults := h.results?_bare hv
  rcases cycle_eq_ok ho with ⟨d, hf, rfl⟩ | ⟨hf, rfl⟩
  · right
    rw [onward, fault?_bare hresults, hf]
    exact e.bare_discard
  · refine (h.held_or_taken hp lines).imp_right fun ⟨hprobe, hwrite⟩ => ?_
    have hp' : e.bare.phase ≠ .idle := hp
    rw [onward, fault?_bare hresults, hf, advance_of_busy hp' {} lines]
    exact bare_advance hresults hprobe hwrite lines

end Accounted

/-- Going on without gates until idle comes to the second state. -/
inductive Leads : Engine → Engine → Prop
  | stop {e : Engine} (hp : e.phase = .idle) : Leads e e
  | go {e f : Engine} (hp : e.phase ≠ .idle) (h : Leads e.onward f) : Leads e f

theorem Leads.unique {f f' : Engine} (h : Leads e f) (h' : Leads e f') : f' = f := by
  induction h with
  | stop hp =>
    cases h' with
    | stop _ => rfl
    | go hne _ => exact absurd hp hne
  | go hne _ ih =>
    cases h' with
    | stop hp => exact absurd hp hne
    | go _ hgo => exact ih hgo

theorem accepted?_of_isQuiet (hq : lines.isQuiet = true) : e.accepted? lines = none := by
  by_cases hp : e.phase = .idle
  · rw [Lines.isQuiet, Bool.and_eq_true, Bool.not_eq_true', Option.isNone_iff_eq_none] at hq
    rw [accepted?_of_no_exclusive hp hq.1, hq.2, Option.map_none, ite_self]
  · exact accepted?_of_ne hp

namespace Accounted

theorem bare_cycle_of_isQuiet (h : e.Accounted keys) (hp : e.phase = .idle)
    (hcount : e.inFlight.count = 0) (hq : lines.isQuiet = true)
    {o : Outcome Engine Duplicate Outputs} (ho : e.cycle lines = .ok o) :
    o.state.bare = e.bare := by
  obtain ⟨rfl, hstaged⟩ : keys = [] ∧ e.staging.holdsLookup = false := by
    have hidle := h.idle hp
    rw [hcount] at hidle
    simpa using hidle
  have hresults := h.results?_of_nil
  have hacc := accepted?_of_isQuiet (e := e) hq
  have htaken : e.lookupTaken = false := by rw [lookupTaken, hstaged, Bool.and_false]
  have hdelivers : e.delivers lines = false := by simp [delivers, response?, hresults]
  have hexclusive : lines.hasExclusive = false := by
    rw [Lines.isQuiet, Bool.and_eq_true, Bool.not_eq_true'] at hq
    exact hq.1
  have hmeasured : e.measurements lines = [.tick] := by
    simp [measurements, evicted?_of_ne (e := e) (by simp [hp]),
      roundDone_of_ne (e := e) (by simp [hp]), hacc, stalls, hexclusive, response?, hresults]
  have hlanes : e.lanes.map (·.cycle {}) = e.lanes := List.map_id _
  have hf : e.fault? = none := by simp [fault?, hresults]
  apply bare_of_held
  rw [state_of_cycle hf ho]
  simp only [advance_of_idle hp, served, hmeasured, hacc, htaken, hdelivers, exclusiveAccepted,
    nextInFlight, lookupAccepted, InFlight.after_self, Bool.false_eq_true, if_false,
    Option.any_none, hlanes]
  show ({ e with phase := .idle, recorder := _ } : Engine) = _
  rw [← hp]

theorem bare_cycle_of_exclusive (h : e.Accounted keys) {r : Request}
    (hacc : e.accepted? lines = some r) (hx : r.isExclusive = true)
    {o : Outcome Engine Duplicate Outputs} (ho : e.cycle lines = .ok o) :
    o.state.bare = (e.bare.advance lines).bare := by
  have hp := (accepted?_cases hacc).1
  obtain ⟨rfl, -, hstaged⟩ := h.keys_nil_of_lookupsDone hp (lookupsDone_of_exclusive hacc hx)
  have hprobing : e.probing = false := by simp [probing, hp, hstaged]
  have hneeded : e.writeNeeded = false := by rw [writeNeeded, hp]
  have hf : e.fault? = none := by simp [fault?, h.results?_of_nil]
  rw [state_of_cycle hf ho]
  apply bare_advance
  · rw [h.results?_of_nil, h.bare.results?_of_nil]
  · have hprobing' : e.bare.probing = false := hprobing
    rw [probeTaken, probeTaken, hprobing, hprobing']
    rfl
  · have hneeded' : e.bare.writeNeeded = false := hneeded
    rw [writeTaken_of_not_needed hneeded, writeTaken_of_not_needed hneeded']

theorem leads_of_run {ds : List Drive} {beats : List Beat} (h : e.Accounted keys)
    (hcount : e.inFlight.count = 0) (hv : ∀ d ∈ ds, ∀ t, (d.gates t).visible = true)
    (hrun : e.run ds = .ok (beats, e'))
    (hquiet : ∀ b ∈ beats, b.start.phase = .idle → b.lines.isQuiet = true)
    (hidle : e'.phase = .idle) : Leads e.bare e'.bare := by
  induction ds generalizing e keys beats with
  | nil =>
    cases hrun
    exact .stop hidle
  | cons d ds ih =>
    obtain ⟨o, beats, htick, hrun', rfl⟩ := run_cons_eq_ok hrun
    have hvd := hv d List.mem_cons_self
    have ha := h.behind d.gates
    obtain ⟨hm, -⟩ := (ha.cyclesTo_moves d.lines (h.endsBlind_behind hvd)).ok htick
    obtain ⟨keys', ha', -⟩ := hm.accounted ha
    have hrest : o.state.inFlight.count = 0 → Leads o.state.bare e'.bare := fun hzero =>
      ih ha' hzero (fun d' hd' => hv d' (List.mem_cons_of_mem d hd')) hrun'
        fun b hb => hquiet b (List.mem_cons_of_mem _ hb)
    by_cases hp : e.phase = .idle
    · have hbare := ha.bare_cycle_of_isQuiet hp hcount (hquiet _ List.mem_cons_self hp) htick
      rw [bare_behind] at hbare
      have hzero : o.state.bare.inFlight.count = 0 := by rw [hbare, ← hcount]; rfl
      exact hbare ▸ hrest hzero
    · have hzero : o.state.inFlight.count = 0 := by rw [hm.inFlight_eq hp, ← hcount]; rfl
      have hvisible := (h.forall_gate_behind d.gates (·.visible = true)).2 fun t _ => hvd t
      rcases ha.bare_cycle hvisible hp htick with hbare | hbare
      · rw [bare_behind] at hbare
        exact hbare ▸ hrest hzero
      · rw [bare_behind] at hbare
        exact .go hp (hbare ▸ hrest hzero)

end Accounted

/-- A run that ends idle, in which all results show and no request is made in idle cycles after the
first. -/
def Finishes (e : Engine) (first : Drive) (later : List Drive) (e' : Engine) : Prop :=
  (∀ d ∈ first :: later, ∀ t, (d.gates t).visible = true) ∧ e'.phase = .idle ∧
    ∃ beats, e.run (first :: later) = .ok (beats, e') ∧
      ∀ b ∈ beats.tail, b.start.phase = .idle → b.lines.isQuiet = true

theorem Accounted.leads_of_finishes (h : e.Accounted keys) {r : Request}
    (hacc : e.accepted? lines = some r) (hx : r.isExclusive = true) {gates : Nat → Gate}
    {later : List Drive} (hrun : e.Finishes ⟨lines, gates⟩ later e') :
    Leads (e.bare.advance lines).bare e'.bare := by
  obtain ⟨hv, hidle, beats, hrun, hquiet⟩ := hrun
  obtain ⟨o, beats', htick, hrun', rfl⟩ := run_cons_eq_ok hrun
  obtain ⟨o', htick', -, hbegan⟩ := h.tick_of_exclusive hacc hx gates
  obtain rfl := Except.ok.inj (htick'.symm.trans htick)
  have hne : o'.state.phase ≠ .idle := by
    rw [hbegan.phase_eq]
    cases r with
    | lookup key => cases hx
    | clean | delete key | insert key data => simp [Phase.started]
  have hfirst := (h.behind gates).bare_cycle_of_exclusive
    (accepted?_behind_of_exclusive hacc hx gates) hx htick
  rw [bare_behind] at hfirst
  rw [← hfirst]
  exact hbegan.accounted.leads_of_run (hbegan.accounted.busy hne).1
    (fun d hd => hv d (List.mem_cons_of_mem _ hd)) hrun' hquiet hidle

/-- However the banks hold back probes and writes, an exclusive request leaves the same behind once the
engine is idle again: the same slots, queues and registers, and the same statistics but for the count
of cycles. -/
theorem gates_only_delay (h : ofLanes c lanes = .ok e)
    (hready : ∀ l ∈ lanes, l.bank.hasher.IsTotal ∧ 0 < l.bank.depth ∧ l.bank.results = [])
    {before : List Drive} (hvisible : ∀ d ∈ before, ∀ t, (d.gates t).visible = true)
    {beats₀ : List Beat} {e₀ : Engine} (hrun : e.run before = .ok (beats₀, e₀)) {r : Request}
    (hacc : e₀.accepted? lines = some r) (hx : r.isExclusive = true)
    {gates₁ gates₂ : Nat → Gate} {later₁ later₂ : List Drive} {e₁ e₂ : Engine}
    (h₁ : e₀.Finishes ⟨lines, gates₁⟩ later₁ e₁) (h₂ : e₀.Finishes ⟨lines, gates₂⟩ later₂ e₂) :
    e₂.lanes.map (·.bank) = e₁.lanes.map (·.bank) ∧ e₂.staging = e₁.staging ∧
      e₂.choice = e₁.choice ∧ e₂.sweep = e₁.sweep ∧ e₂.rounds = e₁.rounds ∧
      e₂.inFlight = e₁.inFlight ∧
      { e₂.recorder.totals with ticks := 0 } = { e₁.recorder.totals with ticks := 0 } := by
  have hstart := accounted_start h hready
  obtain ⟨-, -, -, rfl⟩ := ofLanes_eq_ok h
  obtain ⟨-, ⟨keys, hk⟩, -⟩ := (hstart.runsTo rfl hvisible).ok hrun
  have hbare : e₂.bare = e₁.bare :=
    (hk.leads_of_finishes hacc hx h₁).unique (hk.leads_of_finishes hacc hx h₂)
  have hbanks := congrArg (fun e => e.lanes.map (·.bank)) hbare
  have htotals := congrArg (fun e => e.recorder.totals) hbare
  simp only [banks_bare] at hbanks
  refine ⟨hbanks, (congrArg staging hbare :), (congrArg choice hbare :), (congrArg sweep hbare :),
    (congrArg rounds hbare :), (congrArg inFlight hbare :), ?_⟩
  rwa [← Recorder.totals_untimed, ← Recorder.totals_untimed]

/-- The insert of 7 evicts the key 5 from bank 1, and the next round finds it in bank 0: once with all
gates open, once with bank 1 refusing a probe and a write and bank 0 another write. -/
theorem gates_only_delay_clash :
    ∃ e₁ e₂, (start smallConfig clashingLanes).Finishes ⟨{ insert := some (7, 70) }, fun _ => {}⟩
        (List.replicate 6 ⟨{}, fun _ => {}⟩) e₁ ∧
      (start smallConfig clashingLanes).Finishes ⟨{ insert := some (7, 70) }, fun _ => {}⟩
        ([fun t => { probe := t == 0 }, fun _ => {}, fun _ => {}, fun t => { write := t == 0 },
          fun _ => {}, fun _ => {}, fun _ => {}, fun t => { write := t == 1 }, fun _ => {}].map
            (⟨{}, ·⟩)) e₂ ∧
      e₁.recorder.totals.ticks = 7 ∧ e₂.recorder.totals.ticks = 10 ∧ e₁.rounds = 1 ∧
      e₂.rounds = e₁.rounds ∧ e₂.staging = e₁.staging ∧
      e₂.lanes.map (·.bank) = e₁.lanes.map (·.bank) := by
  have hacc : (start smallConfig clashingLanes).accepted? { insert := some (7, 70) } =
      some (.insert 7 70) := rfl
  obtain ⟨e₁, h₁, hticks₁, hrounds₁⟩ : ∃ e₁, (start smallConfig clashingLanes).Finishes
      ⟨{ insert := some (7, 70) }, fun _ => {}⟩ (List.replicate 6 ⟨{}, fun _ => {}⟩) e₁ ∧
      e₁.recorder.totals.ticks = 7 ∧ e₁.rounds = 1 := by
    refine ⟨_, ⟨by simp, rfl, _, rfl, ?_⟩, rfl, rfl⟩
    simp only [List.tail_cons, List.forall_mem_cons]
    exact ⟨nofun, nofun, nofun, nofun, nofun, nofun, by simp⟩
  obtain ⟨e₂, h₂, hticks₂⟩ : ∃ e₂, (start smallConfig clashingLanes).Finishes
      ⟨{ insert := some (7, 70) }, fun _ => {}⟩
      ([fun t => { probe := t == 0 }, fun _ => {}, fun _ => {}, fun t => { write := t == 0 },
        fun _ => {}, fun _ => {}, fun _ => {}, fun t => { write := t == 1 }, fun _ => {}].map
          (⟨{}, ·⟩)) e₂ ∧ e₂.recorder.totals.ticks = 10 := by
    refine ⟨_, ⟨by simp, rfl, _, rfl, ?_⟩, rfl⟩
    simp only [List.tail_cons, List.forall_mem_cons]
    exact ⟨nofun, nofun, nofun, nofun, nofun, nofun, nofun, nofun, nofun, by simp⟩
  have hbefore : ∀ d ∈ ([] : List Drive), ∀ t, (d.gates t).visible = true := by simp
  obtain ⟨hbanks, hstaging, -, -, hrounds, -⟩ :=
    gates_only_delay ofLanes_clashingLanes ready_clashingLanes hbefore rfl hacc rfl h₁ h₂
  exact ⟨e₁, e₂, h₁, h₂, hticks₁, hticks₂, hrounds₁, hrounds, hstaging, hbanks⟩

end Engine
end ClockedCuckoo
