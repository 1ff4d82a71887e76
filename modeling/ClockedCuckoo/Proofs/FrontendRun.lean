import ClockedCuckoo.Frontend
import ClockedCuckoo.Proofs.Progress

/-! What a front end is put through: requests pushed, responses taken or held back, steps. Its engine
goes through a run of its own meanwhile, under the lines that the front end drives. -/

namespace ClockedCuckoo

inductive Action
  | push (r : Request)
  | setReady (ready : Bool)
  | step
  deriving DecidableEq, Repr

def Action.pushed (acts : List Action) : List Request :=
  acts.filterMap fun
    | push r => some r
    | _ => none

namespace Engine

variable {e : Engine} {lines : Lines} {o : Outcome Engine Duplicate Outputs}

theorem behind_of_open (h : e.Open) (lines : Lines) :
    e.behind (Drive.ofLines lines).gates = e := by
  have hlanes : (e.behind (Drive.ofLines lines).gates).lanes = e.lanes := by
    apply List.ext_getElem?
    intro t
    rw [getElem?_lanes_behind]
    cases hl : e.lanes[t]? with
    | none => rfl
    | some l =>
      have hgate : l.gate = {} := h l (List.mem_of_getElem? hl)
      rw [Option.map_some, Drive.ofLines, ← hgate]
  show { e with lanes := (e.behind (Drive.ofLines lines).gates).lanes } = e
  rw [hlanes]

theorem Open.cycle (h : e.Open) (ho : e.cycle lines = .ok o) : o.state.Open := by
  rcases cycle_eq_ok ho with ⟨d, -, rfl⟩ | ⟨-, rfl⟩
  · intro l' hl'
    obtain ⟨l, hl, rfl⟩ := List.mem_map.1 hl'
    exact h l hl
  · intro l' hl'
    obtain ⟨t, ht⟩ := List.getElem?_of_mem hl'
    obtain ⟨l, c, hl, -, rfl⟩ := List.getElem?_zipWith_eq_some.1 ht
    exact h l (List.mem_of_getElem? hl)

end Engine

namespace Frontend

def beat (f : Frontend) (o : Outcome Frontend Duplicate Outputs) : Beat :=
  ⟨f.engine, f.fillLines.lines, o.result, o.events⟩

def play (f : Frontend) : List Action → Checked (List Beat × Frontend)
  | [] => .ok ([], f)
  | .push r :: acts => (f.push r).play acts
  | .setReady ready :: acts => (f.setReady ready).play acts
  | .step :: acts =>
    match f.step with
    | .error v => .error v
    | .ok o =>
      match o.state.play acts with
      | .error v => .error v
      | .ok (beats, f') => .ok (f.beat o :: beats, f')

/-- Actions that go through lead to `p`. Only the count of evictions can stop them. -/
def PlaysTo (f : Frontend) (acts : List Action) (p : List Beat → Frontend → Prop) : Prop :=
  match f.play acts with
  | .ok (beats, f') => p beats f'
  | .error v => v = .overflow ∧ UInt64.size ≤ acts.length

variable {f f' : Frontend} {acts : List Action} {beats : List Beat}
  {o : Outcome Frontend Duplicate Outputs}

theorem step_eq (f : Frontend) : f.step = (f.engine.cycle f.fillLines.lines).map fun o =>
    ⟨f.fillLines.settle o, o.result, o.events⟩ := by
  have hengine : f.fillLines.engine = f.engine := rfl
  rw [step, hengine]
  cases f.engine.cycle f.fillLines.lines <;> rfl

theorem step_eq_ok (h : f.step = .ok o) : ∃ o', f.engine.cycle f.fillLines.lines = .ok o' ∧
    o = ⟨f.fillLines.settle o', o'.result, o'.events⟩ := by
  unfold step at h
  split at h
  · cases h
  · rename_i o' ho
    cases h
    exact ⟨o', ho, rfl⟩

theorem step_of_error {d : Duplicate} (h : f.step = .ok o) (hd : o.result = .error d) :
    o.state = { f.fillLines with engine := f.engine.discard } := by
  obtain ⟨o', ho, rfl⟩ := step_eq_ok h
  rcases Engine.cycle_eq_ok ho with ⟨d', -, rfl⟩ | ⟨-, rfl⟩
  · rfl
  · cases hd

theorem step_of_ok {out : Outputs} (h : f.step = .ok o) (hout : o.result = .ok out) :
    out = f.engine.outputs f.fillLines.lines ∧
      o.state.lines = f.fillLines.lines.release out.accepted ∧
      o.state.backlog = f.fillLines.backlog ∧
      o.state.responses = f.responses ++ out.response.toList := by
  obtain ⟨o', ho, rfl⟩ := step_eq_ok h
  rcases Engine.cycle_eq_ok ho with ⟨d, -, rfl⟩ | ⟨-, rfl⟩
  · cases hout
  · cases hout
    exact ⟨rfl, rfl, rfl, rfl⟩

theorem engine_settle (f : Frontend) (o : Outcome Engine Duplicate Outputs) :
    (f.settle o).engine = o.state := by
  unfold settle
  split <;> rfl

theorem tick_of_step (hopen : f.engine.Open) (h : f.step = .ok o) :
    ∃ o', f.engine.tick (.ofLines f.fillLines.lines) = .ok o' ∧ o'.state = o.state.engine ∧
      f.beat o = f.engine.beat (.ofLines f.fillLines.lines) o' ∧ o.state.engine.Open := by
  obtain ⟨o', ho, rfl⟩ := step_eq_ok h
  have hstate := f.fillLines.engine_settle o'
  refine ⟨o', ?_, hstate.symm, ?_, hstate.symm ▸ hopen.cycle ho⟩
  · rw [Engine.tick, Engine.behind_of_open hopen]
    exact ho
  · rw [Engine.beat, Engine.behind_of_open hopen]
    rfl

theorem step_eq_error {v : Violation} (hopen : f.engine.Open) (h : f.step = .error v) :
    f.engine.tick (.ofLines f.fillLines.lines) = .error v := by
  rw [Engine.tick, Engine.behind_of_open hopen]
  unfold step at h
  split at h
  · rename_i ho
    cases h
    exact ho
  · cases h

theorem play_step (h : f.play (.step :: acts) = .ok (beats, f')) :
    ∃ o beats', f.step = .ok o ∧ o.state.play acts = .ok (beats', f') ∧
      beats = f.beat o :: beats' := by
  rw [play] at h
  split at h
  · cases h
  · rename_i o ho
    split at h
    · cases h
    · rename_i beats' f'' hplay
      cases h
      exact ⟨o, beats', ho, hplay, rfl⟩

inductive Played : Frontend → List Action → List Beat → Frontend → Prop
  | nil {f : Frontend} : Played f [] [] f
  | push {f f' : Frontend} {r : Request} {acts : List Action} {beats : List Beat} :
    Played (f.push r) acts beats f' → Played f (.push r :: acts) beats f'
  | setReady {f f' : Frontend} {ready : Bool} {acts : List Action} {beats : List Beat} :
    Played (f.setReady ready) acts beats f' → Played f (.setReady ready :: acts) beats f'
  | step {f f' : Frontend} {acts : List Action} {beats : List Beat}
    {o : Outcome Frontend Duplicate Outputs} :
    f.step = .ok o → Played o.state acts beats f' → Played f (.step :: acts) (f.beat o :: beats) f'

theorem played (h : f.play acts = .ok (beats, f')) : Played f acts beats f' := by
  induction acts generalizing f beats with
  | nil =>
    cases h
    exact .nil
  | cons a acts ih =>
    cases a with
    | push r => exact .push (ih h)
    | setReady ready => exact .setReady (ih h)
    | step =>
      obtain ⟨o, beats', ho, hplay, rfl⟩ := play_step h
      exact .step ho (ih hplay)

theorem accepted_beats (f : Frontend) (o : Outcome Frontend Duplicate Outputs) (beats : List Beat) :
    Beat.accepted (f.beat o :: beats) = (f.beat o).accepted?.toList ++ Beat.accepted beats := by
  rw [Beat.accepted, List.filterMap_cons]
  cases (f.beat o).accepted? <;> rfl

theorem responses_beats (f : Frontend) (o : Outcome Frontend Duplicate Outputs)
    (beats : List Beat) :
    Beat.responses (f.beat o :: beats) = (f.beat o).response?.toList ++ Beat.responses beats := by
  rw [Beat.responses, List.filterMap_cons]
  cases (f.beat o).response? <;> rfl

theorem responses_step (h : f.step = .ok o) :
    o.state.responses = f.responses ++ (f.beat o).response?.toList := by
  cases hr : o.result with
  | error d =>
    rw [step_of_error h hr, Beat.response?, beat, hr]
    exact (List.append_nil _).symm
  | ok out =>
    rw [(step_of_ok h hr).2.2.2, Beat.response?, beat, hr]

theorem responses_play (h : f.play acts = .ok (beats, f')) :
    f'.responses = f.responses ++ Beat.responses beats := by
  have hp := played h
  clear h
  induction hp with
  | nil => exact (List.append_nil _).symm
  | push _ ih | setReady _ ih => exact ih
  | step ho _ ih => rw [ih, responses_step ho, responses_beats, List.append_assoc]

theorem run_of_play (hopen : f.engine.Open) (h : f.play acts = .ok (beats, f')) :
    f.engine.run ((beats.map (·.lines)).map .ofLines) = .ok (beats, f'.engine) ∧
      f'.engine.Open := by
  have hp := played h
  clear h
  induction hp with
  | nil => exact ⟨rfl, hopen⟩
  | push _ ih | setReady _ ih => exact ih hopen
  | @step f f' acts beats o ho _ ih =>
    obtain ⟨o', ht, hstate, hbeat, hopen'⟩ := tick_of_step hopen ho
    obtain ⟨hrun, hopen''⟩ := ih hopen'
    have ht' : f.engine.tick (.ofLines (f.beat o).lines) = .ok o' := ht
    rw [← hstate] at hrun
    refine ⟨?_, hopen''⟩
    rw [List.map_cons, List.map_cons, Engine.run_cons_of_ok ht' hrun, hbeat]
    rfl

theorem run_of_play_error {v : Violation} (hopen : f.engine.Open) (h : f.play acts = .error v) :
    ∃ ls : List Lines, ls.length ≤ acts.length ∧ f.engine.run (ls.map .ofLines) = .error v := by
  induction acts generalizing f with
  | nil => cases h
  | cons a acts ih =>
    cases a with
    | push r =>
      obtain ⟨ls, hle, hrun⟩ := ih (f := f.push r) hopen h
      exact ⟨ls, Nat.le_succ_of_le hle, hrun⟩
    | setReady ready =>
      obtain ⟨ls, hle, hrun⟩ := ih (f := f.setReady ready) hopen h
      exact ⟨ls, Nat.le_succ_of_le hle, hrun⟩
    | step =>
      rw [play] at h
      split at h
      · rename_i v' ho
        cases h
        refine ⟨[f.fillLines.lines], Nat.succ_le_succ (Nat.zero_le _), ?_⟩
        rw [List.map_singleton, Engine.run, step_eq_error hopen ho]
      · rename_i o ho
        split at h
        · rename_i v' hplay
          cases h
          obtain ⟨o', ht, hstate, -, hopen'⟩ := tick_of_step hopen ho
          obtain ⟨ls, hle, hrun⟩ := ih hopen' hplay
          refine ⟨f.fillLines.lines :: ls, Nat.succ_le_succ hle, ?_⟩
          rw [List.map_cons, Engine.run, ht]
          dsimp only
          rw [hstate, hrun]
        · cases h

theorem PlaysTo.ok {p : List Beat → Frontend → Prop} (h : f.PlaysTo acts p)
    (hplay : f.play acts = .ok (beats, f')) : p beats f' := by
  unfold PlaysTo at h
  rwa [hplay] at h

/-- What holds after every run of the engine, and what the actions lead to by themselves, holds after
all actions. -/
theorem playsTo_of_runsTo {p : List Beat → Engine → Prop} {q : List Beat → Frontend → Prop}
    (hopen : f.engine.Open) (hruns : ∀ ls : List Lines, f.engine.RunsTo (ls.map .ofLines) p)
    (hpq : ∀ beats f', f.play acts = .ok (beats, f') → p beats f'.engine → q beats f') :
    f.PlaysTo acts q := by
  unfold PlaysTo
  cases hplay : f.play acts with
  | error v =>
    obtain ⟨ls, hle, hrun⟩ := run_of_play_error hopen hplay
    have hstop := hruns ls
    unfold Engine.RunsTo at hstop
    rw [hrun, List.length_map] at hstop
    exact ⟨hstop.1, Nat.le_trans hstop.2 hle⟩
  | ok r =>
    obtain ⟨beats, f'⟩ := r
    have hrun := (run_of_play hopen hplay).1
    exact hpq beats f' hplay ((hruns _).ok hrun)

end Frontend
end ClockedCuckoo
