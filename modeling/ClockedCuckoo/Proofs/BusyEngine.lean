import ClockedCuckoo.Proofs.Backpressure

/-! The request lines of a busy engine. They are masked wherever a cycle reads them, so that two runs
that differ in their requests stay together until the operation under way is over. -/

namespace ClockedCuckoo

def Beat.seen (b : Beat) : Engine × Except Duplicate Outputs × List Event :=
  (b.start, b.result, b.events)

namespace Engine

def BusyFor (e : Engine) : List Drive → Prop
  | [] => True
  | d :: ds => e.phase ≠ .idle ∧ ∀ o, e.tick d = .ok o → o.state.BusyFor ds

def observed (e : Engine) (ds : List Drive) :
    Checked (List (Engine × Except Duplicate Outputs × List Event) × Engine) :=
  (e.run ds).map (Prod.map (List.map Beat.seen) id)

variable {e e' : Engine} {d d' : Drive} {ds ds' : List Drive} {beats : List Beat}
  {o : Outcome Engine Duplicate Outputs}

section Masked

variable (hp : e.phase ≠ .idle) (lines lines' : Lines)

include hp

theorem commands_of_busy : e.commands lines = e.commands lines' := by
  simp only [commands, consumes, delivers_of_ne hp]

theorem nextPhase_of_busy : e.nextPhase lines = e.nextPhase lines' :=
  congrArg phase (advance_of_busy hp lines lines')

theorem events_of_busy : e.events lines = e.events lines' := by
  simp only [events, commands_of_busy hp lines lines', accepted?_of_ne hp,
    nextPhase_of_busy hp lines lines']

theorem advanceViolation?_of_busy : e.advanceViolation? lines = e.advanceViolation? lines' := by
  simp only [advanceViolation?, commands_of_busy hp lines lines', lookupAccepted,
    accepted?_of_ne hp, delivers_of_ne hp]
  rfl

/-- A failing cycle does not look at the lines at all, and in any other they are masked. -/
theorem cycle_of_busy : e.cycle lines = e.cycle lines' := by
  rw [cycle, cycle, advance_of_busy hp lines lines', advanceViolation?_of_busy hp lines lines',
    events_of_busy hp lines lines', outputs_of_ne hp, outputs_of_ne hp]

end Masked

theorem quiet_of_busy (hp : e.phase ≠ .idle) (ho : e.tick d = .ok o) :
    (e.beat d o).accepted? = none ∧ (e.beat d o).response? = none := by
  have hp' : (e.behind d.gates).phase ≠ .idle := hp
  rcases cycle_eq_ok ho with ⟨_, -, rfl⟩ | ⟨-, rfl⟩
  · exact ⟨rfl, rfl⟩
  · simp [Beat.accepted?, Beat.response?, beat, outputs_of_ne hp']

theorem observed_cons (e : Engine) (d : Drive) (ds : List Drive) :
    e.observed (d :: ds) =
      match e.tick d with
      | .error v => .error v
      | .ok o => (o.state.observed ds).map (Prod.map ((e.beat d o).seen :: ·) id) := by
  rw [observed, run]
  cases e.tick d with
  | error v => rfl
  | ok o =>
    dsimp only [observed]
    cases o.state.run ds <;> rfl

theorem tick_of_busy (hp : e.phase ≠ .idle) (hgates : d'.gates = d.gates) : e.tick d' = e.tick d := by
  have hp' : (e.behind d.gates).phase ≠ .idle := hp
  rw [tick, tick, hgates]
  exact cycle_of_busy hp' ..

namespace BusyFor

theorem of_gates (h : e.BusyFor ds) (hgates : ds'.map (·.gates) = ds.map (·.gates)) :
    e.BusyFor ds' := by
  induction ds generalizing e ds' with
  | nil =>
    rw [List.map_eq_nil_iff.1 hgates]
    trivial
  | cons d ds ih =>
    obtain ⟨d', ds', rfl, hd, hds⟩ := List.map_eq_cons_iff.1 hgates
    refine ⟨h.1, fun o ho => ih (h.2 o ?_) hds⟩
    rwa [← tick_of_busy h.1 hd]

theorem observed_eq (h : e.BusyFor ds) (hgates : ds'.map (·.gates) = ds.map (·.gates)) :
    e.observed ds' = e.observed ds := by
  induction ds generalizing e ds' with
  | nil => rw [List.map_eq_nil_iff.1 hgates]
  | cons d ds ih =>
    obtain ⟨d', ds', rfl, hd, hds⟩ := List.map_eq_cons_iff.1 hgates
    rw [observed_cons, observed_cons, tick_of_busy h.1 hd]
    cases ho : e.tick d with
    | error v => rfl
    | ok o =>
      have hseen : (e.beat d' o).seen = (e.beat d o).seen := by
        rw [Beat.seen, Beat.seen, beat, beat, hd]
      dsimp only
      rw [ih (h.2 o ho) hds, hseen]

theorem quiet (h : e.BusyFor ds) (hrun : e.run ds = .ok (beats, e')) :
    Beat.accepted beats = [] ∧ Beat.responses beats = [] := by
  induction ds generalizing e beats with
  | nil =>
    cases hrun
    exact ⟨rfl, rfl⟩
  | cons d ds ih =>
    obtain ⟨o, beats', ho, hrun', rfl⟩ := run_cons_eq_ok hrun
    obtain ⟨hacc, hresp⟩ := quiet_of_busy h.1 ho
    obtain ⟨haccs, hresps⟩ := ih (h.2 o ho) hrun'
    rw [Beat.accepted, Beat.responses, List.filterMap_cons_none hacc,
      List.filterMap_cons_none hresp]
    exact ⟨haccs, hresps⟩

end BusyFor

/-- Two runs from one state, behind the same gates, are the same cycle by cycle for as long as an
operation is under way, the cycle that ends it included: the states met and left, the results, faults
among them, the events, and the rule that is broken if one is. Neither accepts a request or delivers a
response meanwhile. -/
theorem busy_engine_ignores_lines (h : e.BusyFor ds)
    (hgates : ds'.map (·.gates) = ds.map (·.gates)) :
    e.BusyFor ds' ∧ e.observed ds' = e.observed ds ∧
      ∀ beats e', e.run ds = .ok (beats, e') ∨ e.run ds' = .ok (beats, e') →
        Beat.accepted beats = [] ∧ Beat.responses beats = [] := by
  refine ⟨h.of_gates hgates, h.observed_eq hgates, fun beats e' hrun => ?_⟩
  rcases hrun with hrun | hrun
  · exact h.quiet hrun
  · exact (h.of_gates hgates).quiet hrun

/-- The delete of 5 fails in its second cycle. Requests made meanwhile, and a response line pulled low,
change nothing about it. -/
theorem busy_engine_ignores_lines_clash :
    ∃ e₀, (start smallConfig clashingLanes).Reaches e₀ ∧ e₀.phase = .probing ∧
      e₀.BusyFor ([{}, {}].map .ofLines) ∧
      (∃ beats e', e₀.run ([{}, {}].map .ofLines) = .ok (beats, e') ∧ e'.phase = .idle ∧
        beats.map (·.result) = [.ok {}, .error ⟨5, [0, 1]⟩]) ∧
      e₀.observed ([{ lookup := some 4, resultReady := false }, { clean := true }].map .ofLines) =
        e₀.observed ([{}, {}].map .ofLines) := by
  obtain ⟨e₀, hreach, hp, o, ho, hp', beats, e', hrun, hidle, hresults⟩ : ∃ e₀,
      (start smallConfig clashingLanes).Reaches e₀ ∧ e₀.phase = .probing ∧
      ∃ o, e₀.tick (.ofLines {}) = .ok o ∧ o.state.phase = .waiting ∧
      ∃ beats e', e₀.run ([{}, {}].map .ofLines) = .ok (beats, e') ∧ e'.phase = .idle ∧
        beats.map (·.result) = [.ok {}, .error ⟨5, [0, 1]⟩] :=
    ⟨_, ⟨[{ delete := some 5 }], _, rfl⟩, rfl, _, rfl, rfl, _, _, rfl, rfl, rfl⟩
  have hbusy : e₀.BusyFor ([{}, {}].map .ofLines) := by
    refine ⟨by simp [hp], fun o' ho' => ?_⟩
    cases ho.symm.trans ho'
    exact ⟨by simp [hp'], fun _ _ => trivial⟩
  have hgates : ([{ lookup := some 4, resultReady := false }, { clean := true }].map
      Drive.ofLines).map (·.gates) = ([{}, {}].map Drive.ofLines).map (·.gates) := rfl
  exact ⟨e₀, hreach, hp, hbusy, ⟨beats, e', hrun, hidle, hresults⟩,
    (busy_engine_ignores_lines hbusy hgates).2.1⟩

end Engine
end ClockedCuckoo
