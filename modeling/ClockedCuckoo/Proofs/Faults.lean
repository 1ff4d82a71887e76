import ClockedCuckoo.Proofs.Ports

/-! A fault drops the results that it was seen in and does nothing else: when a cycle fails, and what
it leaves of the engine and of its front end. -/

namespace ClockedCuckoo

namespace Engine

/-- The oldest results of the banks are up for use, and two banks or more hold their key. -/
structure Clashes (e : Engine) (d : Duplicate) : Prop where
  phase : e.phase = .idle ∨ e.phase = .waiting
  oldest : ∀ l ∈ e.lanes, l.bank.oldest?.map (·.key) = some d.key
  banks_eq : d.banks = e.holders d.key
  two_le : 2 ≤ d.banks.length

/-- Every bank has lost its oldest result. A lookup is counted out, and one staged behind it stays; an
operation is given up. -/
structure Discarded (e e' : Engine) : Prop where
  lanes_eq : e'.lanes =
    e.lanes.map fun l => { l with bank := { l.bank with results := l.bank.results.tail } }
  config_eq : e'.config = e.config
  choice_eq : e'.choice = e.choice
  sweep_eq : e'.sweep = e.sweep
  rounds_eq : e'.rounds = e.rounds
  phase_eq : e'.phase = .idle
  idle : e.phase = .idle →
    e'.staging = e.staging ∧ e'.inFlight.count + 1 = e.inFlight.count
  waiting : e.phase = .waiting →
    e'.staging = {} ∧ e'.inFlight.count = 0 ∧ ∀ l ∈ e'.lanes, l.bank.results = []

end Engine

structure Frontend.Refilled (f f' : Frontend) : Prop where
  held : ∀ op r, f.lines.held? op = some r →
    f'.lines.held? op = some r ∧ f'.backlog.queued op = f.backlog.queued op
  free : ∀ op, f.lines.held? op = none →
    f'.lines.held? op = (f.backlog.queued op).head? ∧
      f'.backlog.queued op = (f.backlog.queued op).tail
  resultReady_eq : f'.lines.resultReady = f.lines.resultReady
  responses_eq : f'.responses = f.responses
  ticks_eq : f'.ticks = f.ticks

theorem Frontend.refilled_fillLines (f : Frontend) : f.Refilled f.fillLines where
  held op r hr := by
    obtain ⟨e, b, ⟨clean, delete, insert, lookup, ready⟩, responses, ticks⟩ := f
    refine ⟨held?_fillLines hr, ?_⟩
    cases op with
    | clean =>
      obtain ⟨hclean, -⟩ := Option.ite_none_right_eq_some.1 hr
      simp_all [fillLines, Backlog.drain, Backlog.queued]
    | delete | insert | lookup =>
      obtain ⟨x, hx, -⟩ := Option.map_eq_some_iff.1 hr
      simp_all [fillLines, Backlog.drain, Backlog.queued, Backlog.rest]
  free op hnone := by
    obtain ⟨e, ⟨cleans, deletes, inserts, lookups⟩, ⟨clean, delete, insert, lookup, ready⟩,
      responses, ticks⟩ := f
    cases op with
    | clean =>
      cases cleans <;> simp_all [fillLines, Lines.held?, Backlog.fill, Backlog.drain,
        Backlog.queued, List.replicate_succ]
    | delete | insert | lookup =>
      simp_all [fillLines, Lines.held?, Backlog.fill, Backlog.drain, Backlog.queued,
        Backlog.raise, Backlog.rest, List.head?_map, List.map_tail]
  resultReady_eq := rfl
  responses_eq := rfl
  ticks_eq := rfl

namespace Engine

variable {c : Config} {lanes : List Lane} {e e₀ : Engine} {keys : List Key} {lines : Lines}
  {d : Duplicate} {o : Outcome Engine Duplicate Outputs}

theorem Reaches.isOpen (hr : e.Reaches e₀) (h : e.Open) : e₀.Open := by
  obtain ⟨ls, beats, hrun⟩ := hr
  induction ls generalizing e beats with
  | nil =>
    cases hrun
    exact h
  | cons l ls ih =>
    obtain ⟨o, beats', ht, hrest, -⟩ := run_cons_eq_ok hrun
    exact ih ((open_behind e l).cycle ht) beats' hrest

theorem Accounted.fault?_eq_some_iff (h : e.Accounted keys) (hopen : e.Open) :
    e.fault? = some d ↔ e.Clashes d := by
  constructor
  · intro hf
    obtain ⟨key, rest, rfl, hd⟩ := h.results?_of_fault hf
    rw [h.duplicate?_reads] at hd
    split at hd
    · rename_i hlt
      cases hd
      refine ⟨?_, fun l hl => ?_, rfl, hlt⟩
      · by_contra hne
        rw [fault?_of_ne (fun hp => hne (.inl hp)) (fun hp => hne (.inr hp))] at hf
        cases hf
      · rw [(h.answers l hl).oldest?_eq]
        rfl
    · cases hd
  · rintro ⟨hp, holdest, hbanks, htwo⟩
    -- Some bank has an oldest result, so all of them show one, for the same key.
    obtain ⟨l, hl⟩ := List.exists_mem_of_ne_nil _ h.lanes_ne_nil
    have hkey := holdest l hl
    rw [(h.answers l hl).oldest?_eq] at hkey
    cases keys with
    | nil => cases hkey
    | cons key rest =>
      obtain rfl : key = d.key := Option.some.inj hkey
      have hu : e.usesResults = true := by
        rcases hp with hp | hp <;> rw [usesResults, hp] <;> rfl
      have hlt : 1 < (e.holders d.key).length := hbanks ▸ htwo
      rw [fault?, if_pos hu, h.results?_of_visible hopen.visible, Option.bind_some,
        h.duplicate?_reads, if_pos hlt, ← hbanks]

theorem Accounted.discarded (h : e.Accounted keys) (hf : e.fault? = some d) :
    Discarded e e.discard where
  lanes_eq := rfl
  config_eq := rfl
  choice_eq := rfl
  sweep_eq := rfl
  rounds_eq := rfl
  phase_eq := rfl
  idle hp := by
    rw [discard, hp]
    exact ⟨rfl, h.count_after_refuse hp (h.keys_ne_nil_of_fault hf)⟩
  waiting hp := by
    obtain rfl := h.updating (.inl hp)
    refine ⟨?_, ?_, fun l' hl' => ?_⟩
    · rw [discard, hp]
      rfl
    · rw [discard, hp]
      exact (h.busy (by simp [hp])).1
    · obtain ⟨l, hl, rfl⟩ := List.mem_map.1 hl'
      show l.bank.results.tail = []
      rw [(h.answers l hl).results_eq]
      rfl

theorem Accounted.cycle_fails_iff (h : e.Accounted keys) (hopen : e.Open) :
    (∃ o, e.cycle lines = .ok o ∧ o.result = .error d) ↔ e.Clashes d := by
  rw [← h.fault?_eq_some_iff hopen]
  constructor
  · rintro ⟨o, ho, hd⟩
    rcases cycle_eq_ok ho with ⟨d', hf, rfl⟩ | ⟨-, rfl⟩
    · cases hd
      exact hf
    · cases hd
  · intro hf
    exact ⟨_, h.cycle_of_fault hf, rfl⟩

theorem Accounted.discarded_of_cycle (h : e.Accounted keys) (ho : e.cycle lines = .ok o)
    (hd : o.result = .error d) : Discarded e o.state := by
  rcases cycle_eq_ok ho with ⟨d', hf, rfl⟩ | ⟨-, rfl⟩
  · exact h.discarded hf
  · cases hd

/-- Whatever the slots hold, a cycle fails exactly when the oldest results are for a key that several
banks hold, and it names them. It accepts nothing and discards those results. A front end is left
with its lines refilled. -/
theorem faults_are_atomic (h : ofLanes c lanes = .ok e)
    (hready : ∀ l ∈ lanes, l.bank.hasher.IsTotal ∧ 0 < l.bank.depth ∧ l.bank.results = [])
    (hgates : ∀ l ∈ lanes, l.gate = {}) (hr : e.Reaches e₀) (lines : Lines) (d : Duplicate) :
    ((∃ o, e₀.tick (.ofLines lines) = .ok o ∧ o.result = .error d) ↔ e₀.Clashes d) ∧
    (∀ o, e₀.tick (.ofLines lines) = .ok o → o.result = .error d →
      (e₀.beat (.ofLines lines) o).accepted? = none ∧ Discarded e₀ o.state) ∧
    ∀ (f : Frontend) (o : Outcome Frontend Duplicate Outputs), f.engine = e₀ →
      f.step = .ok o → o.result = .error d →
        Discarded e₀ o.state.engine ∧ f.Refilled o.state := by
  have hstart := accounted_start h hready
  obtain ⟨-, -, -, rfl⟩ := ofLanes_eq_ok h
  obtain ⟨-, keys, hk⟩ := hr.accounted hstart rfl
  have hopen : e₀.Open := hr.isOpen hgates
  rw [tick, behind_of_open hopen]
  refine ⟨hk.cycle_fails_iff hopen, fun o ho hd => ⟨?_, hk.discarded_of_cycle ho hd⟩, ?_⟩
  · rw [Beat.accepted?, beat, hd]
  · rintro f o rfl ho hd
    obtain ⟨o', ho', rfl⟩ := Frontend.step_eq_ok ho
    constructor
    · rw [Frontend.engine_settle]
      exact hk.discarded_of_cycle ho' hd
    · rw [Frontend.step_of_error ho hd]
      exact { f.refilled_fillLines with }

/-- The lookup of 5 fails with a lookup of 4 staged behind it and a delete asked for. -/
theorem faults_are_atomic_clash :
    ∃ e₀ o, (start smallConfig clashingLanes).Reaches e₀ ∧
      e₀.tick (.ofLines { delete := some 5 }) = .ok o ∧ o.result = .error ⟨5, [0, 1]⟩ ∧
      e₀.Clashes ⟨5, [0, 1]⟩ ∧ Discarded e₀ o.state ∧
      o.state.staging.lookup? = some 4 ∧ o.state.inFlight.count = 1 ∧
      ∃ (f : Frontend) (o' : _), f.engine = e₀ ∧
        f.backlog.queued .delete = [.delete 5, .delete 6] ∧
        f.step = .ok o' ∧ o'.state.lines.held? .delete = some (.delete 5) ∧
        o'.state.backlog.queued .delete = [.delete 6] ∧ f.Refilled o'.state := by
  obtain ⟨e₀, hr, ⟨o, ho, hd, hstaged, hcount⟩, f, o', hengine, hqueued, ho', hd', hheld, hleft⟩ :
      ∃ e₀, (start smallConfig clashingLanes).Reaches e₀ ∧
        (∃ o, e₀.tick (.ofLines { delete := some 5 }) = .ok o ∧
          o.result = .error ⟨5, [0, 1]⟩ ∧ o.state.staging.lookup? = some 4 ∧
          o.state.inFlight.count = 1) ∧
        ∃ (f : Frontend) (o' : _), f.engine = e₀ ∧
          f.backlog.queued .delete = [.delete 5, .delete 6] ∧
          f.step = .ok o' ∧ o'.result = .error ⟨5, [0, 1]⟩ ∧
          o'.state.lines.held? .delete = some (.delete 5) ∧
          o'.state.backlog.queued .delete = [.delete 6] :=
    ⟨_, ⟨[{ lookup := some 5 }, { lookup := some 4 }], _, rfl⟩, ⟨_, rfl, rfl, rfl, rfl⟩,
      { engine := _, backlog := { deletes := [5, 6] } }, _, rfl, rfl, rfl, rfl, rfl, rfl⟩
  obtain ⟨hclashes, hdiscarded, hfront⟩ := faults_are_atomic ofLanes_clashingLanes
    ready_clashingLanes gate_clashingLanes hr { delete := some 5 } ⟨5, [0, 1]⟩
  exact ⟨e₀, o, hr, ho, hd, hclashes.1 ⟨o, ho, hd⟩, (hdiscarded o ho hd).2, hstaged, hcount,
    f, o', hengine, hqueued, ho', hheld, hleft, (hfront f o' hengine ho' hd').2⟩

end Engine
end ClockedCuckoo
