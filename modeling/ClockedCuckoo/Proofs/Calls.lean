import ClockedCuckoo.Proofs.Resume
import ClockedCuckoo.Proofs.Totals

/-! What calls of a front end lead to. Its engine goes through a run of cycles meanwhile, and counts all
of these; the front end counts those that end without a fault. -/

namespace ClockedCuckoo.Frontend

inductive Reaches (f : Frontend) : Frontend → Prop
  | refl : f.Reaches f
  | push {g : Frontend} (r : Request) : f.Reaches g → f.Reaches (g.push r)
  | setReady {g : Frontend} (ready : Bool) : f.Reaches g → f.Reaches (g.setReady ready)
  | step {g : Frontend} {o : Outcome Frontend Duplicate Outputs} :
    f.Reaches g → g.step = .ok o → f.Reaches o.state
  | run {g : Frontend} {budget : Nat} {o : Outcome Frontend Error Nat} :
    f.Reaches g → g.run budget = .ok o → f.Reaches o.state
  | perform {g : Frontend} {r : Request} {budget : Nat} {o : Outcome Frontend Error Unit} :
    f.Reaches g → g.perform r budget = .ok o → f.Reaches o.state
  | lookup {g : Frontend} {key : Key} {budget : Nat} {o : Outcome Frontend Error Response} :
    f.Reaches g → g.lookup key budget = .ok o → f.Reaches o.state
  | collect {g : Frontend} : f.Reaches g → f.Reaches g.collect.2

variable {f f' f'' g : Frontend} {budget : Nat}

theorem perform_eq_ok {r : Request} {o : Outcome Frontend Error Unit}
    (h : f.perform r budget = .ok o) : ∃ o', (f.push r).run budget = .ok o' ∧
      o.state = o'.state ∧ (o.result = .ok () → ∃ n, o'.result = .ok n) := by
  unfold perform at h
  split at h
  · cases h
  · rename_i o' ho
    cases h
    refine ⟨o', ho, rfl, fun hok => ?_⟩
    dsimp only at hok
    split at hok
    · exact ⟨_, ‹_›⟩
    · cases hok

theorem perform_of_lookup {key : Key} {o : Outcome Frontend Error Response}
    (h : f.lookup key budget = .ok o) : ∃ o' rs, f.perform (.lookup key) budget = .ok o' ∧
      o.state = { o'.state with responses := rs } ∧
      ∀ resp, o.result = .ok resp → o'.result = .ok () := by
  unfold lookup at h
  split at h
  · cases h
  · rename_i o' ho
    split at h
    · cases h
      exact ⟨o', _, ho, rfl, nofun⟩
    · rename_i hok
      dsimp only at h
      split at h
      · cases h
        exact ⟨o', _, ho, rfl, fun _ _ => hok⟩
      · cases h
        exact ⟨o', _, ho, rfl, nofun⟩

theorem ticks_step {o : Outcome Frontend Duplicate Outputs} (h : f.step = .ok o) :
    o.state.ticks = f.ticks + o.result.isOk.toNat := by
  obtain ⟨o', -, rfl⟩ := step_eq_ok h
  unfold settle
  cases o'.result <;> rfl

theorem ticks_play {acts : List Action} {beats : List Beat} (h : f.play acts = .ok (beats, f')) :
    f'.ticks = f.ticks + beats.countP (·.result.isOk) := by
  have hp := played h
  clear h
  induction hp with
  | nil => rfl
  | push _ ih | setReady _ ih => exact ih
  | @step f f' acts beats o ho _ ih =>
    have hbeat : (f.beat o).result.isOk = o.result.isOk := rfl
    rw [ih, ticks_step ho, List.countP_cons, hbeat, Nat.add_assoc, Nat.add_comm (List.countP _ _)]
    cases o.result.isOk <;> rfl

/-- The cycles between two states of a front end: its engine went through them, and those without a
fault were counted. -/
structure History (f : Frontend) (beats : List Beat) (g : Frontend) : Prop where
  run : f.engine.run ((beats.map (·.lines)).map .ofLines) = .ok (beats, g.engine)
  isOpen : g.engine.Open
  ticks_eq : g.ticks = f.ticks + beats.countP (·.result.isOk)

theorem history_of_play (hopen : f.engine.Open) {acts : List Action} {beats : List Beat}
    (h : f.play acts = .ok (beats, g)) : f.History beats g := by
  obtain ⟨hrun, hopen'⟩ := run_of_play hopen h
  exact ⟨hrun, hopen', ticks_play h⟩

theorem History.append {beats beats' : List Beat} (h : f.History beats f')
    (h' : f'.History beats' f'') : f.History (beats ++ beats') f'' := by
  refine ⟨?_, h'.isOpen, ?_⟩
  · rw [List.map_append, List.map_append]
    exact Engine.run_append_of_ok h.run h'.run
  · rw [h'.ticks_eq, h.ticks_eq, List.countP_append, Nat.add_assoc]

theorem History.run_budget {beats : List Beat} (h : f.History beats f')
    {o : Outcome Frontend Error Nat} (ho : f'.run budget = .ok o) :
    ∃ beats', f.History beats' o.state := by
  obtain ⟨m, -, beats', hplay, -⟩ := play_of_run ho
  exact ⟨_, h.append (history_of_play h.isOpen hplay)⟩

theorem History.push {beats : List Beat} (h : f.History beats f') (r : Request) :
    f.History beats (f'.push r) :=
  ⟨h.run, h.isOpen, h.ticks_eq⟩

theorem Reaches.history (h : f.Reaches g) (hopen : f.engine.Open) :
    ∃ beats, f.History beats g := by
  induction h with
  | refl => exact ⟨[], rfl, hopen, rfl⟩
  | push r _ ih =>
    obtain ⟨beats, hg⟩ := ih
    exact ⟨beats, hg.push r⟩
  | setReady ready _ ih =>
    obtain ⟨beats, hg⟩ := ih
    exact ⟨beats, hg.run, hg.isOpen, hg.ticks_eq⟩
  | collect _ ih =>
    obtain ⟨beats, hg⟩ := ih
    exact ⟨beats, hg.run, hg.isOpen, hg.ticks_eq⟩
  | @step g o _ ho ih =>
    obtain ⟨beats, hg⟩ := ih
    have hplay : g.play [.step] = .ok ([g.beat o], o.state) := by
      rw [play, ho]
      rfl
    exact ⟨_, hg.append (history_of_play hg.isOpen hplay)⟩
  | run _ ho ih =>
    obtain ⟨beats, hg⟩ := ih
    exact hg.run_budget ho
  | perform _ ho ih =>
    obtain ⟨beats, hg⟩ := ih
    obtain ⟨o', ho', hstate, -⟩ := perform_eq_ok ho
    rw [hstate]
    exact (hg.push _).run_budget ho'
  | lookup _ ho ih =>
    obtain ⟨beats, hg⟩ := ih
    obtain ⟨o', rs, ho', hstate, -⟩ := perform_of_lookup ho
    obtain ⟨o'', ho'', hstate', -⟩ := perform_eq_ok ho'
    obtain ⟨beats', hend⟩ := (hg.push _).run_budget ho''
    rw [hstate, hstate']
    exact ⟨beats', hend.run, hend.isOpen, hend.ticks_eq⟩

theorem Reaches.engine (h : f.Reaches g) (hopen : f.engine.Open) :
    f.engine.Reaches g.engine ∧ g.engine.Open := by
  obtain ⟨beats, hg⟩ := h.history hopen
  exact ⟨⟨_, beats, hg.run⟩, hg.isOpen⟩

theorem Reaches.play (h : f.Reaches f') {acts : List Action} {beats : List Beat}
    (hplay : f'.play acts = .ok (beats, g)) : f.Reaches g := by
  have hp := played hplay
  clear hplay
  induction hp with
  | nil => exact h
  | push _ ih => exact ih (h.push _)
  | setReady _ ih => exact ih (h.setReady _)
  | step ho _ ih => exact ih (h.step ho)

/-- The engine is ahead of its front end by the cycles with a fault, and only by these. -/
theorem engine_ahead_by_faults {e : Engine} (hopen : e.Open) (hrec : e.recorder = .counting {})
    (hr : (ofEngine e).Reaches f) :
    (∃ beats, e.run ((beats.map (·.lines)).map .ofLines) = .ok (beats, f.engine) ∧
      f.ticks = beats.countP (·.result.isOk) ∧
      f.engine.recorder.totals.faults = .ofNat (beats.countP (!·.result.isOk))) ∧
    f.engine.recorder.totals.ticks = .ofNat f.ticks + f.engine.recorder.totals.faults ∧
    (f.ticks < UInt64.size →
      (f.engine.recorder.totals.ticks.toNat = f.ticks ↔ f.engine.recorder.totals.faults = 0)) := by
  obtain ⟨beats, hf⟩ := hr.history hopen
  have hok : f.ticks = beats.countP (·.result.isOk) := hf.ticks_eq.trans (Nat.zero_add _)
  have hfaults : f.engine.recorder.totals.faults = .ofNat (beats.countP (!·.result.isOk)) :=
    Engine.total_of_run hrec hf.run .faults
  have hall : f.engine.recorder.totals.ticks = .ofNat (beats.countP fun _ => true) :=
    Engine.total_of_run hrec hf.run .ticks
  have hticks : f.engine.recorder.totals.ticks =
      .ofNat f.ticks + f.engine.recorder.totals.faults := by
    rw [hall, hfaults, hok, ← UInt64.ofNat_add, List.countP_true,
      List.length_eq_countP_add_countP (·.result.isOk)]
    simp only [Bool.not_eq_true, Bool.decide_eq_false]
  refine ⟨⟨beats, hf.run, hok, hfaults⟩, hticks, fun hlt => ?_⟩
  have htime : (UInt64.ofNat f.ticks).toNat = f.ticks := by
    rw [UInt64.toNat_ofNat']
    exact Nat.mod_eq_of_lt hlt
  rw [← UInt64.toNat_inj.trans UInt64.add_eq_left, ← hticks, htime]

/-- The third cycle finds the key in both banks. -/
theorem engine_ahead_by_faults_clash :
    ∃ f, (ofEngine (.start Engine.smallConfig Engine.clashingLanes)).Reaches f ∧
      f.ticks = 2 ∧ f.engine.recorder.totals.faults = 1 ∧
      f.engine.recorder.totals.ticks = .ofNat 2 + 1 ∧
      f.engine.recorder.totals.ticks.toNat ≠ 2 := by
  obtain ⟨⟨beats, f⟩, hplay, hticks, hfaults⟩ := exists_of_toOption_any
    (x := (ofEngine (.start Engine.smallConfig Engine.clashingLanes)).play
      [.push (.lookup 5), .step, .step, .step])
    (p := fun p => p.2.ticks = 2 ∧ p.2.engine.recorder.totals.faults = 1)
    (by decide +kernel)
  have hr : (ofEngine (.start Engine.smallConfig Engine.clashingLanes)).Reaches f :=
    Reaches.refl.play hplay
  have hopen : (Engine.start Engine.smallConfig Engine.clashingLanes).Open :=
    Engine.gate_clashingLanes
  obtain ⟨-, hahead, hagree⟩ := engine_ahead_by_faults hopen rfl hr
  rw [hticks, hfaults] at hahead hagree
  exact ⟨f, hr, hticks, hfaults, hahead, fun h => absurd ((hagree (by decide)).1 h) (by decide)⟩

/-- The clocks of a front end and its engine do not always agree. -/
theorem clocks_apart_clash :
    ∃ f, (ofEngine (.start Engine.smallConfig Engine.clashingLanes)).Reaches f ∧
      f.ticks = 2 ∧ f.engine.recorder.totals.ticks.toNat = 3 := by
  obtain ⟨⟨beats, f⟩, hplay, hticks⟩ := exists_of_toOption_any
    (x := (ofEngine (.start Engine.smallConfig Engine.clashingLanes)).play
      [.push (.lookup 5), .step, .step, .step])
    (p := fun p => p.2.ticks = 2 ∧ p.2.engine.recorder.totals.ticks.toNat = 3)
    (by decide +kernel)
  exact ⟨f, Reaches.refl.play hplay, hticks⟩

end ClockedCuckoo.Frontend
