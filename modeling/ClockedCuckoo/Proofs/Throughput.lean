import ClockedCuckoo.Proofs.Serving

/-! The rate of lookups. With room in the queues and in the count, a lookup is accepted, probed and
answered in three cycles in turn, and the cycles of different lookups overlap without a gap. -/

namespace ClockedCuckoo

theorem Beat.map_response?_eq_responses {beats : List Beat} {n : Nat}
    (h : beats.map (·.response?.isSome) = List.replicate n true) :
    beats.map (·.response?) = (responses beats).map some := by
  induction beats generalizing n with
  | nil => rfl
  | cons b beats ih =>
    cases n with
    | zero => cases h
    | succ n =>
      obtain ⟨hb, hbeats⟩ := List.cons_eq_cons.1 h
      obtain ⟨r, hr⟩ := Option.isSome_iff_exists.1 hb
      rw [responses, List.filterMap_cons_some hr, List.map_cons, List.map_cons, hr, ih hbeats]
      rfl

theorem Beat.map_response?_of_timetable {beats : List Beat} {n : Nat}
    (h : beats.map (·.response?.isSome) = false :: false :: List.replicate n true) :
    beats.map (·.response?) = none :: none :: (responses beats).map some := by
  obtain ⟨b₁, beats₁, rfl, h₁, hrest₁⟩ := List.map_eq_cons_iff.1 h
  obtain ⟨b₂, beats₂, rfl, h₂, hrest₂⟩ := List.map_eq_cons_iff.1 hrest₁
  have hb₁ := Option.isSome_eq_false_iff.1 h₁
  have hb₂ := Option.isSome_eq_false_iff.1 h₂
  rw [Option.isNone_iff_eq_none] at hb₁ hb₂
  rw [responses, List.filterMap_cons_none hb₁, List.filterMap_cons_none hb₂, List.map_cons,
    List.map_cons, hb₁, hb₂, map_response?_eq_responses hrest₂]
  rfl

namespace Frontend

/-- Whether a lookup is answered in each of the coming cycles, up to the last answer. One may show its
result and one may be staged; those of `ks` are still to be asked for. -/
def timetable : (shown staged : Bool) → (ks : List Key) → List Bool
  | shown, staged, _ :: ks => shown :: timetable staged true ks
  | shown, true, [] => [shown, true]
  | true, false, [] => [true]
  | false, false, [] => []

variable {c : Config} {f : Frontend} {shown staged : Bool} {ks : List Key}

theorem timetable_cons {b : Bool} {bs : List Bool} (h : timetable shown staged ks = b :: bs) :
    b = shown ∧ timetable staged ks.head?.isSome ks.tail = bs := by
  cases ks with
  | nil => cases staged <;> cases shown <;> cases h <;> exact ⟨rfl, rfl⟩
  | cons k ks =>
    cases h
    exact ⟨rfl, rfl⟩

theorem timetable_eq_nil :
    timetable shown staged ks = [] ↔ shown = false ∧ staged = false ∧ ks = [] := by
  cases ks <;> cases staged <;> cases shown <;> simp [timetable]

theorem timetable_of_ne_nil (h : ks ≠ []) :
    timetable shown staged ks = shown :: staged :: List.replicate ks.length true := by
  induction ks generalizing shown staged with
  | nil => exact absurd rfl h
  | cons k ks ih =>
    cases ks with
    | nil => rfl
    | cons k' ks =>
      rw [timetable, ih (List.cons_ne_nil _ _)]
      rfl

/-- Lookups of `ks` are queued and nothing else, the line is free, and of those asked for one may show
its result and one may be staged. -/
structure Flowing (c : Config) (shown staged : Bool) (ks : List Key) (f : Frontend) : Prop where
  serving : f.engine.Serving c shown.toNat staged
  lines_eq : f.lines = {}
  backlog_eq : f.backlog = { lookups := ks }

theorem step_of_cycle {o : Outcome Engine Duplicate Outputs}
    (h : f.engine.cycle f.fillLines.lines = .ok o) :
    f.step = .ok ⟨f.fillLines.settle o, o.result, o.events⟩ := by
  have hcycle : f.fillLines.engine.cycle f.fillLines.lines = .ok o := h
  rw [Frontend.step, hcycle]

namespace Flowing

theorem atRest_iff (h : Flowing c shown staged ks f) :
    f.atRest = true ↔ timetable shown staged ks = [] := by
  rw [timetable_eq_nil, atRest, h.lines_eq, h.backlog_eq, Bool.and_eq_true, Engine.atRest_eq_true,
    h.serving.count_eq, h.serving.staged_eq]
  have hp := h.serving.idle
  cases shown <;> cases staged <;> simp [Lines.isQuiet, Lines.hasExclusive, Backlog.isEmpty, hp]

theorem fillLines_eq (h : Flowing c shown staged ks f) :
    f.fillLines.lines = { lookup := ks.head? } ∧ f.fillLines.backlog = { lookups := ks.tail } := by
  rw [fillLines, h.lines_eq, h.backlog_eq]
  exact ⟨rfl, rfl⟩

variable (hoverlap : 4 ≤ c.maxOverlap) (hdepth : 2 ≤ c.queueDepth)

include hoverlap hdepth

theorem accepted?_eq (h : Flowing c shown staged ks f) :
    f.engine.accepted? f.fillLines.lines = ks.head?.map .lookup := by
  have hshown := Bool.toNat_le shown
  have hstaged := Bool.toNat_le staged
  rw [h.fillLines_eq.1, h.serving.accepted?_eq rfl, if_pos ⟨fun _ => by omega, by omega⟩]

theorem serving_advance (h : Flowing c shown staged ks f) :
    Engine.Serving c staged.toNat ks.head?.isSome (f.engine.advance f.fillLines.lines) := by
  obtain ⟨hlines, -⟩ := h.fillLines_eq
  have hroom : decide (shown.toNat < c.queueDepth) = true :=
    decide_eq_true ((Bool.toNat_le shown).trans_lt hdepth)
  have hready : f.fillLines.lines.resultReady = true := by rw [hlines]
  have hshown : decide (0 < shown.toNat) = shown := by cases shown <;> rfl
  have hx : f.engine.exclusiveAccepted f.fillLines.lines = false := by
    apply h.serving.exclusiveAccepted_of_no_exclusive
    rw [hlines]
    rfl
  have hnext := h.serving.advance hx
  rwa [hready, hshown, hroom, h.accepted?_eq hoverlap hdepth, Bool.true_and, Bool.and_true,
    Nat.add_sub_cancel_left, Bool.not_true, Bool.and_false, Bool.or_false,
    Option.isSome_map] at hnext

theorem step (h : Flowing c shown staged ks f) : ∃ o out, f.step = .ok o ∧ o.result = .ok out ∧
    out.accepted = ks.head?.map .lookup ∧ out.response.isSome = shown ∧
    Flowing c staged ks.head?.isSome ks.tail o.state := by
  obtain ⟨hlines, hbacklog⟩ := h.fillLines_eq
  have hacc : (f.engine.outputs f.fillLines.lines).accepted = ks.head?.map .lookup :=
    h.accepted?_eq hoverlap hdepth
  have hcycle := h.serving.tick_eq f.fillLines.lines
  rw [h.serving.steady.tick_eq_cycle] at hcycle
  have hstep := step_of_cycle hcycle
  obtain ⟨-, hlines', hbacklog', -⟩ := step_of_ok hstep rfl
  refine ⟨_, _, hstep, rfl, hacc, ?_, ?_, ?_, ?_⟩
  · rw [h.serving.isSome_response, hlines]
    cases shown <;> rfl
  · rw [engine_settle]
    exact h.serving_advance hoverlap hdepth
  · rw [hlines', hacc, hlines]
    cases ks <;> rfl
  · rw [hbacklog', hbacklog]

theorem runFrom (h : Flowing c shown staged ks f) (spent : Nat) (trace : List Event)
    (budget : Nat) : ∃ o, f.runFrom spent trace budget = .ok o ∧
      o.result = if (timetable shown staged ks).length ≤ budget then
        .ok (spent + (timetable shown staged ks).length)
      else .error (.timeout "run_until_quiescent" (spent + budget)) := by
  induction budget generalizing shown staged ks f spent trace with
  | zero =>
    cases ht : timetable shown staged ks with
    | nil =>
      rw [Frontend.runFrom, if_pos (h.atRest_iff.2 ht)]
      exact ⟨_, rfl, rfl⟩
    | cons b bs =>
      rw [Frontend.runFrom, if_neg (by simp [h.atRest_iff, ht])]
      exact ⟨_, rfl, rfl⟩
  | succ budget ih =>
    cases ht : timetable shown staged ks with
    | nil =>
      rw [Frontend.runFrom.eq_def, if_pos (h.atRest_iff.2 ht)]
      exact ⟨_, rfl, rfl⟩
    | cons b bs =>
      obtain ⟨o, out, ho, hout, -, -, hnext⟩ := h.step hoverlap hdepth
      obtain ⟨-, hbs⟩ := timetable_cons ht
      obtain ⟨o', ho', hresult⟩ := ih hnext (spent + 1) (o.events.reverse ++ trace)
      rw [hbs] at hresult
      refine ⟨o', ?_, ?_⟩
      · rw [Frontend.runFrom.eq_def, if_neg (by simp [h.atRest_iff, ht]), ho]
        dsimp only
        rw [hout]
        exact ho'
      · rw [hresult, List.length_cons, Nat.add_assoc, Nat.add_assoc, Nat.add_comm 1,
          Nat.add_comm 1]
        simp only [Nat.add_le_add_iff_right]

theorem play (h : Flowing c shown staged ks f) : ∃ beats f',
    f.play (List.replicate (timetable shown staged ks).length .step) = .ok (beats, f') ∧
    beats.map (·.response?.isSome) = timetable shown staged ks ∧
    Beat.accepted beats = ks.map .lookup ∧ f'.atRest = true := by
  generalize ht : timetable shown staged ks = bs
  induction bs generalizing shown staged ks f with
  | nil =>
    obtain ⟨-, -, rfl⟩ := timetable_eq_nil.1 ht
    exact ⟨[], f, rfl, rfl, rfl, h.atRest_iff.2 ht⟩
  | cons b bs ih =>
    obtain ⟨rfl, hbs⟩ := timetable_cons ht
    obtain ⟨o, out, ho, hout, hacc, hresp, hnext⟩ := h.step hoverlap hdepth
    obtain ⟨beats, f', hplay, hresps, haccs, hrest⟩ := ih hnext hbs
    refine ⟨f.beat o :: beats, f', ?_, ?_, ?_, hrest⟩
    · rw [List.length_cons, List.replicate_succ, Frontend.play, ho]
      dsimp only
      rw [hplay]
    · rw [List.map_cons, hresps, Beat.response?, beat, hout]
      exact congrArg (· :: bs) hresp
    · rw [accepted_beats, haccs, Beat.accepted?, beat, hout]
      dsimp only
      rw [hacc]
      cases ks <;> rfl

end Flowing

theorem pushes_lookups (f : Frontend) (ks : List Key) : (ks.map .lookup).foldl push f =
    { f with backlog := { f.backlog with lookups := f.backlog.lookups ++ ks } } := by
  induction ks generalizing f with
  | nil => rw [List.append_nil]; rfl
  | cons k ks ih =>
    rw [List.map_cons, List.foldl_cons, ih, push, Backlog.push]
    dsimp only
    rw [List.append_assoc]
    rfl

variable {e : Engine} {hash : Nat → Key → Word} {budget : Nat}

theorem flowing_pushes (h : Engine.ofLanes c (Engine.emptyLanes c hash fun _ => c.queueDepth) = .ok e)
    (hr : (ofEngine e).Reaches f) (hrest : f.atRest = true) (hready : f.lines.resultReady = true)
    (ks : List Key) : Flowing c false false ks ((ks.map .lookup).foldl push f) := by
  obtain ⟨hreach, -⟩ := hr.of_empty h
  rw [atRest, Bool.and_eq_true, Bool.and_eq_true] at hrest
  obtain ⟨⟨hquiet, hempty⟩, hengine⟩ := hrest
  rw [pushes_lookups]
  refine ⟨hreach.serving h hengine, ?_, ?_⟩
  · rw [Lines.eq_of_isQuiet hquiet, hready]
  · rw [Backlog.eq_of_isEmpty hempty]
    rfl

/-- Lookups pushed at rest, and nothing else, take as many cycles as there are, and two. All cycles but
the first two deliver an answer, in the order of the pushes. In less time the run is not over. -/
theorem lookups_at_full_rate
    (h : Engine.ofLanes c (Engine.emptyLanes c hash fun _ => c.queueDepth) = .ok e)
    (hoverlap : 4 ≤ c.maxOverlap) (hdepth : 2 ≤ c.queueDepth) (hr : (ofEngine e).Reaches f)
    (hrest : f.atRest = true) (hready : f.lines.resultReady = true) (hks : ks ≠ [])
    (budget : Nat) : ∃ o, ((ks.map .lookup).foldl push f).run budget = .ok o ∧
      (budget < ks.length + 2 → o.result = .error (.timeout "run_until_quiescent" budget)) ∧
      (ks.length + 2 ≤ budget → o.result = .ok (ks.length + 2) ∧
        ∃ beats rs, ((ks.map .lookup).foldl push f).play (List.replicate (ks.length + 2) .step) =
            .ok (beats, o.state) ∧
          beats.map (·.response?) = none :: none :: rs.map some ∧
          o.state.responses = f.responses ++ rs ∧
          rs.map Response.answer = ks.map fun k => f.engine.store.answer (k &&& c.keyMask)) := by
  have hflow := flowing_pushes h hr hrest hready ks
  have htimes : timetable false false ks = false :: false :: List.replicate ks.length true :=
    timetable_of_ne_nil hks
  have hlength : (timetable false false ks).length = ks.length + 2 := by
    rw [htimes, List.length_cons, List.length_cons, List.length_replicate]
  obtain ⟨o, ho, hresult⟩ := hflow.runFrom hoverlap hdepth 0 [] budget
  rw [hlength, Nat.zero_add, Nat.zero_add] at hresult
  refine ⟨o, ho, fun hlt => ?_, fun hle => ?_⟩
  · rw [hresult, if_neg (by omega)]
  rw [if_pos hle] at hresult
  obtain ⟨beats, f', hplay, hresps, hacc, -⟩ := hflow.play hoverlap hdepth
  obtain ⟨m, -, beats', hplay', hend⟩ := play_of_run ho
  obtain ⟨hm, hrest', -⟩ := hend _ hresult
  -- The run is the one that the timetable tells of.
  rw [hlength] at hplay
  rw [← hm, hplay] at hplay'
  cases hplay'
  refine ⟨hresult, beats, Beat.responses beats, hplay, ?_, ?_, ?_⟩
  · exact Beat.map_response?_of_timetable (hresps.trans htimes)
  · rw [responses_play hplay, (pushes_eq f _).2]
  · obtain ⟨-, -, hanswers⟩ := store_of_play h hr hrest hplay hrest'
    rw [hanswers, hacc, Store.expected_lookups]

def roomyEngine : Engine :=
  .start Engine.smallConfig
    (Engine.emptyLanes Engine.smallConfig (fun _ => id) fun _ => Engine.smallConfig.queueDepth)

/-- The stored key 1 and the missing key 2 take turns. -/
theorem lookups_at_full_rate_mixed :
    ∃ f o o', (ofEngine roomyEngine).Reaches f ∧ f.engine.pairs = [(1, 10)] ∧
      (([1, 2, 1, 2].map .lookup).foldl push f).run 6 = .ok o ∧ o.result = .ok 6 ∧
      (([1, 2, 1, 2].map .lookup).foldl push f).run 5 = .ok o' ∧
      o'.result = .error (.timeout "run_until_quiescent" 5) ∧
      ∃ beats rs, (([1, 2, 1, 2].map .lookup).foldl push f).play (List.replicate 6 .step) =
          .ok (beats, o.state) ∧
        beats.map (·.response?) = none :: none :: rs.map some ∧
        o.state.responses = f.responses ++ rs ∧
        rs.map Response.answer =
          [(1, true, some 10), (2, false, none), (1, true, some 10), (2, false, none)] := by
  obtain ⟨o₀, ho₀, hrest, hready, hpairs, hstore⟩ := exists_of_toOption_any
    (x := (ofEngine roomyEngine).perform (.insert 1 10) 20)
    (p := fun o₀ => o₀.state.atRest = true ∧ o₀.state.lines.resultReady = true ∧
      o₀.state.engine.pairs = [(1, 10)] ∧
      ([1, 2, 1, 2].map fun k => o₀.state.engine.store.answer (k &&& Engine.smallConfig.keyMask)) =
        [(1, true, some 10), (2, false, none), (1, true, some 10), (2, false, none)])
    (by decide +kernel)
  have h : Engine.ofLanes Engine.smallConfig (Engine.emptyLanes Engine.smallConfig (fun _ => id)
    fun _ => Engine.smallConfig.queueDepth) = .ok roomyEngine := rfl
  have hr : (ofEngine roomyEngine).Reaches o₀.state := .perform .refl ho₀
  have hks : ([1, 2, 1, 2] : List Key) ≠ [] := List.cons_ne_nil _ _
  have hrate := lookups_at_full_rate h (by decide) (by decide) hr hrest hready hks
  obtain ⟨o, ho, -, hend⟩ := hrate 6
  obtain ⟨hresult, beats, rs, hplay, hresps, hresponses, hanswers⟩ := hend (by decide)
  obtain ⟨o', ho', htimeout, -⟩ := hrate 5
  exact ⟨o₀.state, o, o', hr, hpairs, ho, hresult, ho', htimeout (by decide), beats, rs, hplay,
    hresps, hresponses, hanswers.trans hstore⟩

end Frontend
end ClockedCuckoo
