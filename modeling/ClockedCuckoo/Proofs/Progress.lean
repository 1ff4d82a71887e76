import ClockedCuckoo.Proofs.Placement

/-! With all gates open no update stands still: a round of an insert or a delete takes three cycles.
The module also holds how an exclusive request is taken up in a state that a run reaches. -/

namespace ClockedCuckoo

def Phase.elapsed : Phase → Nat
  | waiting => 1
  | writing => 2
  | _ => 0

theorem Phase.elapsed_lt (p : Phase) : p.elapsed < 3 := by
  cases p <;> decide

namespace Engine

/-- A run with all gates open leads from one state to the other. -/
def Reaches (e e' : Engine) : Prop :=
  ∃ (ls : List Lines) (beats : List Beat), e.run (ls.map .ofLines) = .ok (beats, e')

def Open (e : Engine) : Prop :=
  ∀ l ∈ e.lanes, l.gate = {}

variable {e e' : Engine} {keys : List Key} {lines : Lines}

theorem open_behind (e : Engine) (l : Lines) : (e.behind (Drive.ofLines l).gates).Open := by
  intro l' hl'
  obtain ⟨t, ht⟩ := List.getElem?_of_mem hl'
  rw [getElem?_lanes_behind, Option.map_eq_some_iff] at ht
  obtain ⟨l, -, rfl⟩ := ht
  rfl

theorem Open.visible (h : e.Open) : ∀ l ∈ e.lanes, l.gate.visible = true := by
  intro l hl
  rw [h l hl]

theorem Built.cleanTaken_iff (h : e.Built keys) (hp : e.phase = .cleaning) :
    e.cleanTaken = true ↔ ∀ l ∈ e.lanes, l.gate.write = true := by
  have hany : (e.writes.any Option.isSome) = true := by
    obtain ⟨l, hl⟩ := List.exists_mem_of_ne_nil _ h.lanes_ne_nil
    rw [writes_of_cleaning hp, List.any_eq_true]
    exact ⟨_, List.mem_map_of_mem hl, rfl⟩
  have hreadies : List.zipWith (fun l w => w.isNone || l.takesWrite) e.lanes e.writes =
      e.lanes.map fun l => l.gate.write := by
    rw [writes_of_cleaning hp, List.zipWith_map_right, List.zipWith_self]
    rfl
  rw [cleanTaken, hp, writeTaken, hany, hreadies]
  simp [Handshake.fork]

theorem Built.probeTaken_of_nil (h : e.Built []) (hopen : e.Open) (hp : e.probing = true) :
    e.probeTaken = true := by
  rw [probeTaken, Handshake.fork_eq_true]
  refine ⟨hp, fun r hr => ?_⟩
  obtain ⟨l, hl, rfl⟩ := List.mem_map.1 hr
  have hanswers := h.answers l hl
  have hroom : l.bank.hasRoom = true := by
    rw [Bank.hasRoom, hanswers.results_eq, decide_eq_true_eq]
    exact hanswers.depth_pos
  rw [Lane.takesProbe, hopen l hl, hroom]
  rfl

namespace Accounted

theorem probeTaken_of_open (h : e.Accounted keys) (hopen : e.Open) (hp : e.phase = .probing) :
    e.probeTaken = true := by
  obtain rfl := h.quiet (.inr hp)
  exact h.probeTaken_of_nil hopen (by simp [probing, hp])

theorem results?_of_open (h : e.Accounted keys) (hopen : e.Open)
    (hp : e.phase = .waiting ∨ e.phase = .writing) :
    e.results? = some (e.reads e.staging.key) := by
  obtain rfl := h.updating hp
  exact h.results?_of_visible hopen.visible

theorem writeTaken_of_open (h : e.Accounted keys) (hopen : e.Open) (hp : e.phase = .writing)
    (hn : e.writeNeeded = true) : e.writeTaken = true := by
  obtain ⟨t, ht, hc⟩ : ∃ t < e.lanes.length, e.choice.target = .singleton t e.config.banks := by
    rcases h.choice_cases hp with ⟨t, ht, -, hc⟩ | ⟨-, t, ht, -, -, hc⟩ | ⟨-, -, t, ht, hc⟩
    · exact ⟨t, ht, by rw [hc]⟩
    · exact ⟨t, ht, by rw [hc]⟩
    · exact ⟨t, ht, by rw [hc]⟩
  have hwrites := writes_of_target hp hn (h.results?_of_open hopen (.inr hp)) h.banks_le
    (h.lanes_length ▸ ht) hc
  rw [writeTaken, Handshake.fork_eq_true, hwrites]
  constructor
  · rw [List.any_eq_true]
    refine ⟨_, List.mem_mapIdx.2 ⟨t, ht, rfl⟩, ?_⟩
    rw [if_pos rfl]
    rfl
  · intro r hr
    obtain ⟨i, hi⟩ := List.getElem?_of_mem hr
    obtain ⟨l, w, hl, -, rfl⟩ := List.getElem?_zipWith_eq_some.1 hi
    rw [Lane.takesWrite, hopen l (List.mem_of_getElem? hl)]
    exact Bool.or_true _

theorem writeDone_of_open (h : e.Accounted keys) (hopen : e.Open) (hp : e.phase = .writing) :
    e.writeDone = true := by
  rw [writeDone]
  cases hn : e.writeNeeded with
  | false => rfl
  | true => exact h.writeTaken_of_open hopen hp hn

theorem phase_advance_ne (h : e.Accounted keys) (hopen : e.Open) (hup : e.Updating)
    (lines : Lines) : (e.advance lines).phase ≠ e.phase := by
  rcases hup with hp | hp | hp
  · rw [advance_of_probing hp, h.probeTaken_of_open hopen hp, hp]
    simp
  · rw [advance_of_waiting hp, h.results?_of_open hopen (.inl hp), hp]
    simp
  · rw [advance_of_writing hp, h.writeDone_of_open hopen hp, hp]
    cases e.staging.origin == .insert && !e.choice.final <;> simp

theorem cyclesTo_progress (h : e.Accounted keys) (hopen : e.Open) (lines : Lines) :
    e.CyclesTo lines fun o => Move e lines o.state o.result ∧
      (e.Updating → o.state.phase ≠ e.phase) := by
  have hb : e.endsBlind = false := h.endsBlind_of_visible hopen.visible
  apply h.cyclesTo
  · intro d hf
    exact ⟨move_discard hf, fun hup heq => hup.not_idle heq.symm⟩
  · intro hf
    exact ⟨h.move_advance hf hb, fun hup => h.phase_advance_ne hopen hup lines⟩

end Accounted

theorem Accounted.move_of_tick (h : e.Accounted keys) {l : Lines}
    {o : Outcome Engine Duplicate Outputs} (ht : e.tick (.ofLines l) = .ok o) :
    Move (e.behind (Drive.ofLines l).gates) l o.state o.result ∧
      (e.Updating → o.state.phase ≠ e.phase) :=
  ((h.behind _).cyclesTo_progress (e.open_behind l) l).ok ht

/-- With all gates open no update stands still: moves that keep to `p` or lead to `q` come to `q` within
the run, or all of it keeps to `p`. -/
theorem runsTo_open_until {p q : List Beat → Engine → Prop} (hzero : e.rounds = 0) (hnil : p [] e)
    (hacc : ∀ beats e', p beats e' → ∃ keys, e'.Accounted keys)
    (hstep : ∀ beats e' l o, p beats e' →
      Move (e'.behind (Drive.ofLines l).gates) l o.state o.result →
      (e'.Updating → o.state.phase ≠ e'.phase) →
      p (beats ++ [e'.beat (.ofLines l) o]) o.state ∨
        q (beats ++ [e'.beat (.ofLines l) o]) o.state) (ls : List Lines) :
    (∃ k ≤ ls.length, ∃ beats e', e.run ((ls.take k).map .ofLines) = .ok (beats, e') ∧
      q beats e') ∨ e.RunsTo (ls.map .ofLines) p := by
  have hcycle : ∀ d ∈ ls.map Drive.ofLines, ∀ beats e', p beats e' →
      (e'.behind d.gates).CyclesTo d.lines fun o =>
        p (beats ++ [e'.beat d o]) o.state ∨ q (beats ++ [e'.beat d o]) o.state := by
    intro d hd beats e' hp
    obtain ⟨l, -, rfl⟩ := List.mem_map.1 hd
    obtain ⟨keys, hk⟩ := hacc beats e' hp
    apply ((hk.behind _).cyclesTo_progress (e'.open_behind l) l).mono
    rintro o ⟨hm, hgo⟩
    exact hstep beats e' l o hp hm hgo
  simpa only [List.length_map, List.map_take] using RunsTo.of_cycles_until hzero hnil hcycle

theorem runsTo_open {p : List Beat → Engine → Prop} (hzero : e.rounds = 0) (hnil : p [] e)
    (hacc : ∀ beats e', p beats e' → ∃ keys, e'.Accounted keys)
    (hstep : ∀ beats e' l o, p beats e' →
      Move (e'.behind (Drive.ofLines l).gates) l o.state o.result →
      (e'.Updating → o.state.phase ≠ e'.phase) →
      p (beats ++ [e'.beat (.ofLines l) o]) o.state) (ls : List Lines) :
    e.RunsTo (ls.map .ofLines) p := by
  have huntil := runsTo_open_until (q := fun _ _ => False) hzero hnil hacc
    (fun beats e' l o hp hm hgo => .inl (hstep beats e' l o hp hm hgo)) ls
  rcases huntil with ⟨-, -, -, -, -, hfalse⟩ | hruns
  · exact hfalse.elim
  · exact hruns

theorem Move.clock {result : Except Duplicate Outputs} (hm : Move e lines e' result)
    (hup : e.Updating) (hne : e'.phase ≠ e.phase) :
    (e'.Updating ∧ e'.staging.origin = e.staging.origin ∧
      3 * e'.rounds + e'.phase.elapsed = 3 * e.rounds + e.phase.elapsed + 1) ∨
    (e'.phase = .idle ∧ e'.rounds = e.rounds ∧ (e.phase = .writing ∨ ∃ d, result = .error d)) := by
  cases hm with
  | serve r hp _ | refuse r d hp _ => exact absurd hp hup.not_idle
  | sweep r hp _ => exact absurd hp hup.not_cleaning
  | hold r _ => exact absurd rfl hne
  | probe r hp _ => exact .inl ⟨.inr (.inl rfl), rfl, by simp [hp, Phase.elapsed]⟩
  | choose r hp _ => exact .inl ⟨.inr (.inr rfl), rfl, by simp [hp, Phase.elapsed]⟩
  | abort r d hp _ => exact .inr ⟨rfl, rfl, .inr ⟨d, rfl⟩⟩
  | update r t hp _ _ => exact .inr ⟨rfl, rfl, .inl hp⟩
  | fill r t hp _ _ _ _ _ => exact .inr ⟨rfl, rfl, .inl hp⟩
  | evict r t hp _ _ _ _ _ =>
    exact .inl ⟨.inl rfl, rfl, by simp only [hp, Phase.elapsed]; omega⟩
  | miss r hp _ _ => exact .inr ⟨rfl, rfl, .inl hp⟩

/-- What an exclusive request finds changed once it is accepted: the registers that it sets, and
nothing else. -/
structure Began (e : Engine) (r : Request) (e' : Engine) : Prop where
  move : ∃ lines gates, (e.behind gates).accepted? lines = some r ∧
    Move (e.behind gates) lines e' (.ok { accepted := some r })
  accounted : e'.Accounted []
  sameSlots : SameSlots e e'
  config_eq : e'.config = e.config
  phase_eq : e'.phase = Phase.started (some r)
  staging_eq : e'.staging = e.staging.take (some r) false e.config.keyMask e.config.dataMask
  choice_eq : e'.choice = e.choice
  rounds_eq : e'.rounds = 0

theorem Accounted.cycle_of_no_eviction (h : e.Accounted keys) (hf : e.fault? = none)
    (hev : e.evicted? = none) :
    e.cycle lines = .ok ⟨e.advance lines, .ok (e.outputs lines), e.events lines⟩ := by
  have hv : e.advanceViolation? lines = none := by
    rw [h.advanceViolation?_eq hf, hev]
    rfl
  rw [cycle, hf]
  simp only [hv]
  rfl

theorem Accounted.cycle_of_fault (h : e.Accounted keys) {d : Duplicate} (hf : e.fault? = some d) :
    e.cycle lines = .ok ⟨e.discard, .error d, [.discarded d e.phase]⟩ := by
  rw [cycle, hf]
  simp only [h.discardViolation?_eq_none hf]
  rfl

theorem accepted?_behind_of_exclusive {r : Request} (hacc : e.accepted? lines = some r)
    (hx : r.isExclusive = true) (gates : Nat → Gate) :
    (e.behind gates).accepted? lines = some r := by
  have hp := (accepted?_cases hacc).1
  have hp' : (e.behind gates).phase = .idle := hp
  cases hl : lines.hasExclusive with
  | true =>
    rw [accepted?_of_exclusive hp hl] at hacc
    rw [accepted?_of_exclusive hp' hl]
    exact hacc
  | false =>
    rw [accepted?_of_no_exclusive hp hl] at hacc
    split at hacc
    · obtain ⟨key, -, rfl⟩ := Option.map_eq_some_iff.1 hacc
      cases hx
    · cases hacc

theorem lookupsDone_of_exclusive {r : Request} (hacc : e.accepted? lines = some r)
    (hx : r.isExclusive = true) : e.lookupsDone = true := by
  obtain ⟨-, ⟨-, hdone⟩ | ⟨⟨key, rfl⟩, -⟩⟩ := accepted?_cases hacc
  · exact hdone
  · cases hx

theorem Accounted.tick_of_exclusive (h : e.Accounted keys) {r : Request}
    (hacc : e.accepted? lines = some r) (hx : r.isExclusive = true) (gates : Nat → Gate) :
    ∃ o, e.tick ⟨lines, gates⟩ = .ok o ∧ o.result = .ok { accepted := some r } ∧
      Began e r o.state := by
  have hp : (e.behind gates).phase = .idle := (accepted?_cases hacc).1
  have hdone := lookupsDone_of_exclusive hacc hx
  have hacc' := accepted?_behind_of_exclusive hacc hx gates
  obtain ⟨rfl, -, hstaged⟩ := h.keys_nil_of_lookupsDone hp hdone
  have hb := h.behind gates
  have hf : (e.behind gates).fault? = none := by simp [fault?, hb.results?_of_nil]
  have hdel : (e.behind gates).delivers lines = false := by
    simp [delivers, response?, hb.results?_of_nil]
  have hev : (e.behind gates).evicted? = none := evicted?_of_ne (by simp [hp])
  have htaken : (e.behind gates).lookupTaken = false := by
    rw [lookupTaken]
    exact Bool.and_eq_false_imp.2 fun _ => hstaged
  have hserved : ((e.behind gates).served lines _).Accounted _ := hb.serve hp
    ((e.behind gates).recorder.recordAll ((e.behind gates).measurements lines))
  rw [(hb.nextKeys_of_lookupsDone hp hdone lines).1, ← advance_of_idle hp] at hserved
  have hout : (e.behind gates).outputs lines = { accepted := some r } := by
    simp [outputs, hacc', hdel]
  refine ⟨_, hb.cycle_of_no_eviction hf hev, congrArg _ hout, ?_⟩
  rw [advance_of_idle hp] at hserved ⊢
  exact
    { move := ⟨lines, gates, hacc', hout ▸ .serve _ hp hf⟩
      accounted := hserved
      sameSlots := (sameSlots_behind gates).trans (sameSlots_served _ _ _)
      config_eq := rfl
      phase_eq := by simp only [served, hacc']
      staging_eq := by
        simp only [served, hacc', htaken]
        rfl
      choice_eq := rfl
      rounds_eq := by simp [served, exclusiveAccepted, hacc', hx] }

/-- What holds as an exclusive request begins, and what every move preserves, holds after the run
that it is accepted in. -/
theorem Accounted.runsTo_began {p : List Beat → Engine → Prop} (h : e.Accounted keys)
    {r : Request} (hacc : e.accepted? lines = some r) (hx : r.isExclusive = true)
    (hnil : ∀ e', Began e r e' → p [] e')
    (hkeys : ∀ beats e', p beats e' → ∃ keys, e'.Accounted keys)
    (hstep : ∀ beats e' l o, p beats e' →
      Move (e'.behind (Drive.ofLines l).gates) l o.state o.result →
      (e'.Updating → o.state.phase ≠ e'.phase) →
      p (beats ++ [e'.beat (.ofLines l) o]) o.state) (ls : List Lines) :
    e.RunsTo ((lines :: ls).map .ofLines) fun beats e' => p beats.tail e' := by
  obtain ⟨o, ht, -, hbegan⟩ := h.tick_of_exclusive hacc hx (Drive.ofLines lines).gates
  exact .cons ht (runsTo_open hbegan.rounds_eq (hnil _ hbegan) hkeys hstep ls)

theorem Reaches.refl (e : Engine) : e.Reaches e :=
  ⟨[], [], rfl⟩

theorem Reaches.accounted (hr : e.Reaches e') (h : e.Accounted []) (hzero : e.rounds = 0) :
    e'.config = e.config ∧ ∃ keys, e'.Accounted keys := by
  obtain ⟨ls, beats, hrun⟩ := hr
  obtain ⟨hc, hk, -⟩ := (h.runsTo hzero (visible_ofLines ls)).ok hrun
  exact ⟨hc, hk⟩

end Engine
end ClockedCuckoo
