import ClockedCuckoo.Engine.Cycle

/-! Runs of an engine: one cycle after another under the lines and gates that the surroundings
drive. The module holds the views of a run and the induction from one cycle to all of them. -/

namespace ClockedCuckoo

structure Drive where
  lines : Lines
  gates : Nat → Gate := fun _ => {}

def Drive.ofLines (lines : Lines) : Drive where
  lines := lines

theorem visible_ofLines (ls : List Lines) :
    ∀ d ∈ ls.map Drive.ofLines, ∀ t, (d.gates t).visible = true := by
  intro d hd t
  obtain ⟨l, -, rfl⟩ := List.mem_map.1 hd
  rfl

/-- One cycle of a run: the engine it met, behind the gates of that cycle, and what came of it. -/
structure Beat where
  start : Engine
  lines : Lines
  result : Except Duplicate Outputs
  events : List Event

namespace Beat

def accepted? (b : Beat) : Option Request :=
  match b.result with
  | .ok out => out.accepted
  | .error _ => none

def response? (b : Beat) : Option Response :=
  match b.result with
  | .ok out => out.response
  | .error _ => none

def accepted (beats : List Beat) : List Request :=
  beats.filterMap accepted?

def responses (beats : List Beat) : List Response :=
  beats.filterMap response?

theorem accepted_append (as bs : List Beat) : accepted (as ++ bs) = accepted as ++ accepted bs :=
  List.filterMap_append

theorem responses_append (as bs : List Beat) :
    responses (as ++ bs) = responses as ++ responses bs :=
  List.filterMap_append

end Beat

theorem exists_of_toOption_any {α : Type} {x : Checked α} {p : α → Prop} [DecidablePred p]
    (h : x.toOption.any (p ·) = true) : ∃ a, x = .ok a ∧ p a := by
  cases x with
  | error v => cases h
  | ok a => exact ⟨a, rfl, of_decide_eq_true h⟩

namespace Engine

def behind (e : Engine) (gates : Nat → Gate) : Engine :=
  { e with lanes := e.lanes.mapIdx fun i l => { l with gate := gates i } }

def tick (e : Engine) (d : Drive) : Checked (Outcome Engine Duplicate Outputs) :=
  (e.behind d.gates).cycle d.lines

def beat (e : Engine) (d : Drive) (o : Outcome Engine Duplicate Outputs) : Beat :=
  ⟨e.behind d.gates, d.lines, o.result, o.events⟩

/-- All cycles in turn, failing ones included; a broken rule ends the run. -/
def run (e : Engine) : List Drive → Checked (List Beat × Engine)
  | [] => .ok ([], e)
  | d :: ds =>
    match e.tick d with
    | .error v => .error v
    | .ok o =>
      match o.state.run ds with
      | .error v => .error v
      | .ok (beats, e') => .ok (e.beat d o :: beats, e')

/-- A run that goes through leads to `p`. Only the count of evictions can stop one, and that takes
as many cycles as a word can count. -/
def RunsTo (e : Engine) (ds : List Drive) (p : List Beat → Engine → Prop) : Prop :=
  match e.run ds with
  | .ok (beats, e') => p beats e'
  | .error v => v = .overflow ∧ UInt64.size ≤ ds.length

def CyclesTo (e : Engine) (lines : Lines) (p : Outcome Engine Duplicate Outputs → Prop) : Prop :=
  match e.cycle lines with
  | .ok o => p o
  | .error v => v = .overflow ∧ UInt64.size ≤ e.rounds + 1

variable {e e' : Engine} {d : Drive} {ds : List Drive} {beats : List Beat}

theorem run_append (e : Engine) (ds ds' : List Drive) :
    e.run (ds ++ ds') =
      match e.run ds with
      | .error v => .error v
      | .ok (beats, e') =>
        match e'.run ds' with
        | .error v => .error v
        | .ok (beats', e'') => .ok (beats ++ beats', e'') := by
  induction ds generalizing e with
  | nil =>
    simp only [List.nil_append, run]
    cases e.run ds' <;> rfl
  | cons d ds ih =>
    rw [List.cons_append, run, run]
    cases e.tick d with
    | error v => rfl
    | ok o =>
      simp only [ih]
      cases o.state.run ds with
      | error v => rfl
      | ok r =>
        dsimp only
        cases r.2.run ds' <;> rfl

theorem run_snoc (e : Engine) (ds : List Drive) (d : Drive) :
    e.run (ds ++ [d]) =
      match e.run ds with
      | .error v => .error v
      | .ok (beats, e') =>
        match e'.tick d with
        | .error v => .error v
        | .ok o => .ok (beats ++ [e'.beat d o], o.state) := by
  rw [run_append]
  cases e.run ds with
  | error v => rfl
  | ok r =>
    dsimp only
    rw [run]
    cases r.2.tick d <;> rfl

theorem run_append_of_ok {e'' : Engine} {ds' : List Drive} {beats' : List Beat}
    (h : e.run ds = .ok (beats, e')) (h' : e'.run ds' = .ok (beats', e'')) :
    e.run (ds ++ ds') = .ok (beats ++ beats', e'') := by
  rw [run_append, h]
  dsimp only
  rw [h']

theorem run_cons_eq_ok (h : e.run (d :: ds) = .ok (beats, e')) : ∃ o beats', e.tick d = .ok o ∧
      o.state.run ds = .ok (beats', e') ∧ beats = e.beat d o :: beats' := by
  rw [run] at h
  split at h
  · cases h
  · rename_i o ho
    split at h
    · cases h
    · rename_i beats' e'' hrun
      cases h
      exact ⟨o, beats', ho, hrun, rfl⟩

theorem run_cons_of_ok {o : Outcome Engine Duplicate Outputs} (ht : e.tick d = .ok o)
    (hrun : o.state.run ds = .ok (beats, e')) : e.run (d :: ds) = .ok (e.beat d o :: beats, e') := by
  rw [run, ht]
  dsimp only
  rw [hrun]

theorem cycle_eq_ok {lines : Lines} {o : Outcome Engine Duplicate Outputs}
    (h : e.cycle lines = .ok o) :
    (∃ d, e.fault? = some d ∧ o = ⟨e.discard, .error d, [.discarded d e.phase]⟩) ∨
      e.fault? = none ∧ o = ⟨e.advance lines, .ok (e.outputs lines), e.events lines⟩ := by
  rw [cycle] at h
  split at h
  · rename_i d hf
    exact .inl ⟨d, hf, (guarded_eq_ok.1 h).2.symm⟩
  · rename_i hf
    exact .inr ⟨hf, (guarded_eq_ok.1 h).2.symm⟩

theorem state_of_cycle {lines : Lines} {o : Outcome Engine Duplicate Outputs}
    (hf : e.fault? = none) (h : e.cycle lines = .ok o) : o.state = e.advance lines := by
  rcases cycle_eq_ok h with ⟨d, hd, -⟩ | ⟨-, rfl⟩
  · rw [hf] at hd
    cases hd
  · rfl

theorem accepted?_of_cycle {lines : Lines} {o : Outcome Engine Duplicate Outputs} {b : Beat}
    {r : Request} (h : e.cycle lines = .ok o) (hb : b.result = o.result)
    (hr : b.accepted? = some r) : e.accepted? lines = some r := by
  rw [Beat.accepted?, hb] at hr
  rcases cycle_eq_ok h with ⟨d, -, rfl⟩ | ⟨-, rfl⟩
  · cases hr
  · exact hr

theorem rounds_le_of_cycle {lines : Lines} {o : Outcome Engine Duplicate Outputs}
    (h : e.cycle lines = .ok o) : o.state.rounds ≤ e.rounds + 1 := by
  rcases cycle_eq_ok h with ⟨d, -, rfl⟩ | ⟨-, rfl⟩
  · exact Nat.le_succ _
  · change e.nextRounds lines ≤ _
    rw [nextRounds]
    split
    · exact Nat.zero_le _
    · split
      · exact Nat.le_refl _
      · exact Nat.le_succ _

theorem rounds_le_of_run (h : e.run ds = .ok (beats, e')) :
    e'.rounds ≤ e.rounds + ds.length := by
  induction ds generalizing e beats with
  | nil =>
    cases h
    exact Nat.le_refl _
  | cons d ds ih =>
    obtain ⟨o, beats', htick, hrun, rfl⟩ := run_cons_eq_ok h
    have hone := rounds_le_of_cycle htick
    have hrest := ih hrun
    rw [List.length_cons]
    change _ ≤ e.rounds + 1 at hone
    omega

theorem exists_of_mem_run (h : e.run ds = .ok (beats, e')) {b : Beat} (hb : b ∈ beats) :
    ∃ pre d post before e₀ o, ds = pre ++ d :: post ∧ e.run pre = .ok (before, e₀) ∧
      e₀.tick d = .ok o ∧ b = e₀.beat d o := by
  induction ds generalizing e beats with
  | nil =>
    cases h
    cases hb
  | cons d ds ih =>
    obtain ⟨o, beats', ht, hrun, rfl⟩ := run_cons_eq_ok h
    rcases List.mem_cons.1 hb with rfl | hb
    · exact ⟨[], d, ds, [], e, o, rfl, rfl, ht, rfl⟩
    · obtain ⟨pre, d', post, before, e₀, o', rfl, hpre, ht', rfl⟩ := ih hrun hb
      exact ⟨d :: pre, d', post, _, e₀, o', rfl, run_cons_of_ok ht hpre, ht', rfl⟩

theorem config_of_cycle {lines : Lines} {o : Outcome Engine Duplicate Outputs}
    (h : e.cycle lines = .ok o) : o.state.config = e.config := by
  rcases cycle_eq_ok h with ⟨_, -, rfl⟩ | ⟨-, rfl⟩ <;> rfl

theorem config_of_run (h : e.run ds = .ok (beats, e')) : e'.config = e.config := by
  induction ds generalizing e beats with
  | nil =>
    cases h
    rfl
  | cons d ds ih =>
    obtain ⟨o, beats', ht, hrun, -⟩ := run_cons_eq_ok h
    have hc : o.state.config = e.config := config_of_cycle (e := e.behind d.gates) ht
    rw [ih hrun, hc]

theorem config_of_mem_run (h : e.run ds = .ok (beats, e')) {b : Beat} (hb : b ∈ beats) :
    b.start.config = e.config := by
  obtain ⟨_, _, _, _, e₀, _, -, hpre, -, rfl⟩ := exists_of_mem_run h hb
  have hc : e₀.config = e.config := config_of_run hpre
  exact hc

theorem length_of_run (h : e.run ds = .ok (beats, e')) : beats.length = ds.length := by
  induction ds generalizing e beats with
  | nil =>
    cases h
    rfl
  | cons d ds ih =>
    obtain ⟨o, beats', -, hrun, rfl⟩ := run_cons_eq_ok h
    rw [List.length_cons, List.length_cons, ih hrun]

theorem RunsTo.of_cycles {p : List Beat → Engine → Prop} (hzero : e.rounds = 0) (hnil : p [] e)
    (hstep : ∀ pre d post, ds = pre ++ d :: post → ∀ beats e', e.run pre = .ok (beats, e') →
      p beats e' → (e'.behind d.gates).CyclesTo d.lines fun o =>
        p (beats ++ [e'.beat d o]) o.state) :
    e.RunsTo ds p := by
  -- Cycle by cycle from the front: the evictions counted so far never exceed the cycles gone by.
  have key : ∀ n ≤ ds.length, e.RunsTo (ds.take n) p := by
    intro n
    induction n with
    | zero =>
      intro _
      rw [List.take_zero]
      exact hnil
    | succ n ih =>
      intro hn
      have hlt : n < ds.length := hn
      have hpre := ih (Nat.le_of_lt hlt)
      have hds : ds = ds.take n ++ ds[n] :: ds.drop (n + 1) := by
        rw [List.getElem_cons_drop, List.take_append_drop]
      rw [List.take_succ_eq_append_getElem hlt]
      unfold RunsTo at hpre ⊢
      rw [run_snoc]
      cases hrun : e.run (ds.take n) with
      | error v =>
        rw [hrun] at hpre
        dsimp only at hpre ⊢
        refine ⟨hpre.1, Nat.le_trans hpre.2 ?_⟩
        rw [List.length_append]
        exact Nat.le_add_right ..
      | ok r =>
        obtain ⟨beats, e'⟩ := r
        rw [hrun] at hpre
        have htick := hstep _ _ _ hds beats e' hrun hpre
        unfold CyclesTo at htick
        dsimp only [tick]
        cases ht : (e'.behind ds[n].gates).cycle ds[n].lines with
        | error v =>
          rw [ht] at htick
          have hsame : (e'.behind ds[n].gates).rounds = e'.rounds := rfl
          have hrounds := rounds_le_of_run hrun
          refine ⟨htick.1, Nat.le_trans htick.2 ?_⟩
          rw [List.length_append, List.length_singleton]
          omega
        | ok o =>
          rw [ht] at htick
          exact htick
  have hall := key ds.length (Nat.le_refl _)
  rwa [List.take_length] at hall

theorem RunsTo.ok {p : List Beat → Engine → Prop} (h : e.RunsTo ds p)
    (hrun : e.run ds = .ok (beats, e')) : p beats e' := by
  unfold RunsTo at h
  rwa [hrun] at h

theorem RunsTo.of_run {p : List Beat → Engine → Prop} (hrun : e.run ds = .ok (beats, e'))
    (hp : p beats e') : e.RunsTo ds p := by
  unfold RunsTo
  rwa [hrun]

theorem RunsTo.mono {p q : List Beat → Engine → Prop} (h : e.RunsTo ds p)
    (hpq : ∀ beats e', e.run ds = .ok (beats, e') → p beats e' → q beats e') :
    e.RunsTo ds q := by
  unfold RunsTo at h ⊢
  cases hrun : e.run ds with
  | error v =>
    rw [hrun] at h
    exact h
  | ok r =>
    rw [hrun] at h
    exact hpq _ _ hrun h

theorem RunsTo.cons {p : List Beat → Engine → Prop} {o : Outcome Engine Duplicate Outputs}
    (ht : e.tick d = .ok o) (h : o.state.RunsTo ds fun beats e' => p (e.beat d o :: beats) e') :
    e.RunsTo (d :: ds) p := by
  unfold RunsTo at h ⊢
  rw [run, ht]
  dsimp only
  cases hrun : o.state.run ds with
  | error v =>
    rw [hrun] at h
    exact ⟨h.1, Nat.le_succ_of_le h.2⟩
  | ok r =>
    rw [hrun] at h
    exact h

theorem CyclesTo.ok {p : Outcome Engine Duplicate Outputs → Prop} {lines : Lines}
    (h : e.CyclesTo lines p) {o : Outcome Engine Duplicate Outputs}
    (ho : e.cycle lines = .ok o) : p o := by
  unfold CyclesTo at h
  rwa [ho] at h

theorem CyclesTo.of_ok {p q : Outcome Engine Duplicate Outputs → Prop} {lines : Lines}
    (h : e.CyclesTo lines p) (hq : ∀ o, e.cycle lines = .ok o → q o) : e.CyclesTo lines q := by
  unfold CyclesTo at h ⊢
  cases hc : e.cycle lines with
  | error v =>
    rw [hc] at h
    exact h
  | ok o => exact hq o hc

theorem CyclesTo.mono {p q : Outcome Engine Duplicate Outputs → Prop} {lines : Lines}
    (h : e.CyclesTo lines p) (hpq : ∀ o, p o → q o) : e.CyclesTo lines q :=
  h.of_ok fun o ho => hpq o (h.ok ho)

theorem RunsTo.exists_of_lt {p : List Beat → Engine → Prop} (h : e.RunsTo ds p)
    (hlt : ds.length < UInt64.size) : ∃ beats e', e.run ds = .ok (beats, e') ∧ p beats e' := by
  unfold RunsTo at h
  cases hrun : e.run ds with
  | error v =>
    rw [hrun] at h
    exact absurd h.2 (Nat.not_le.2 hlt)
  | ok r =>
    rw [hrun] at h
    exact ⟨r.1, r.2, rfl, h⟩

/-- Each cycle keeps to `p` or leads to `q`: some first part of the run leads to `q`, or all of it keeps
to `p`. -/
theorem RunsTo.of_cycles_until {p q : List Beat → Engine → Prop} (hzero : e.rounds = 0)
    (hnil : p [] e)
    (hstep : ∀ d ∈ ds, ∀ beats e', p beats e' → (e'.behind d.gates).CyclesTo d.lines fun o =>
      p (beats ++ [e'.beat d o]) o.state ∨ q (beats ++ [e'.beat d o]) o.state) :
    (∃ k ≤ ds.length, ∃ beats e', e.run (ds.take k) = .ok (beats, e') ∧ q beats e') ∨
      e.RunsTo ds p := by
  by_cases hq : ∃ k ≤ ds.length, ∃ beats e', e.run (ds.take k) = .ok (beats, e') ∧ q beats e'
  · exact .inl hq
  · refine .inr (RunsTo.of_cycles hzero hnil ?_)
    intro pre d post hds beats e' hrun hp
    have hcycle := hstep d (by simp [hds]) beats e' hp
    apply hcycle.of_ok
    intro o ho
    refine (hcycle.ok ho).resolve_right fun hqo => hq ⟨pre.length + 1, ?_, _, _, ?_, hqo⟩
    · simp [hds]
    · have htake : ds.take (pre.length + 1) = pre ++ [d] := by
        rw [hds, List.take_length_add_append, List.take_succ_cons, List.take_zero]
      rw [htake, run_snoc, hrun]
      dsimp only [tick]
      rw [ho]

end Engine
end ClockedCuckoo
