import ClockedCuckoo.Proofs.AbsentDelete
import ClockedCuckoo.Proofs.Totals

/-! How long inserts and deletes take. Since every round finds the queues empty, it takes three cycles
whatever their depth, and the cycles gone by tell the phase and the round. -/

namespace ClockedCuckoo

def Phase.atCycle (n : Nat) : Phase :=
  if n % 3 = 0 then .probing else if n % 3 = 1 then .waiting else .writing

namespace Engine

structure Clocked (origin : Origin) (n : Nat) (e : Engine) : Prop where
  steady : Steady e
  updating : e.Updating
  origin_eq : e.staging.origin = origin
  cycles_eq : 3 * e.rounds + e.phase.elapsed = n
  rounds_of_delete : origin = .delete → e.rounds = 0

structure Over (origin : Origin) (n : Nat) (e : Engine) : Prop where
  idle : e.phase = .idle
  cycles_eq : 3 * (e.rounds + 1) = n
  rounds_of_delete : origin = .delete → e.rounds = 0

variable {c : Config} {e e' s : Engine} {lines l : Lines} {ls : List Lines} {beats : List Beat}
  {r : Request} {origin : Origin} {n : Nat} {o : Outcome Engine Duplicate Outputs}
  {result : Except Duplicate Outputs}

theorem Move.rounds_of_delete (hm : Move e lines e' result) (hup : e.Updating)
    (ho : e.staging.origin = .delete) : e'.rounds = e.rounds := by
  cases hm with
  | serve r hp _ => exact absurd hp hup.not_idle
  | evict r t _ hins _ _ _ _ => exact absurd (ho.symm.trans hins) (by decide)
  | _ => rfl

theorem rounds_advance (hp : e.phase ≠ .idle) (l : Lines) :
    (e.advance l).rounds = e.rounds + e.evicted?.isSome.toNat := by
  have hrounds : (e.advance l).rounds = e.nextRounds l := rfl
  rw [hrounds, nextRounds, exclusiveAccepted, accepted?_of_ne hp]
  cases e.evicted? <;> rfl

theorem Steady.outcome_eq (h : Steady e) (ho : e.tick (.ofLines l) = .ok o) :
    o = ⟨e.advance l, .ok (e.outputs l), e.events l⟩ := by
  rw [h.tick_eq_cycle] at ho
  rcases cycle_eq_ok ho with ⟨d, hf, -⟩ | ⟨-, rfl⟩
  · rw [h.fault?_eq_none] at hf
    cases hf
  · rfl

theorem nil_of_idle (hp : e.phase = .idle) (hrun : e.run (ls.map .ofLines) = .ok (beats, e'))
    (hbusy : ∀ b ∈ beats, b.start.phase ≠ .idle) : ls = [] := by
  cases ls with
  | nil => rfl
  | cons l ls =>
    obtain ⟨o, beats', -, -, rfl⟩ := run_cons_eq_ok hrun
    exact absurd hp (List.forall_mem_cons.1 hbusy).1

namespace Clocked

theorem rounds_eq (h : Clocked origin n e) : e.rounds = n / 3 := by
  have hcycles := h.cycles_eq
  have hlt := e.phase.elapsed_lt
  omega

theorem phase_eq (h : Clocked origin n e) : e.phase = .atCycle n := by
  have hcycles := h.cycles_eq
  rw [Phase.atCycle]
  rcases h.updating with hp | hp | hp
  · have helapsed : e.phase.elapsed = 0 := congrArg Phase.elapsed hp
    rw [hp, if_pos (by omega)]
  · have helapsed : e.phase.elapsed = 1 := congrArg Phase.elapsed hp
    rw [hp, if_neg (by omega), if_pos (by omega)]
  · have helapsed : e.phase.elapsed = 2 := congrArg Phase.elapsed hp
    rw [hp, if_neg (by omega), if_neg (by omega)]

theorem result_eq (h : Clocked origin n e) (ho : e.tick (.ofLines l) = .ok o) : o.result = .ok {} := by
  rw [h.steady.outcome_eq ho, outputs_of_ne h.updating.not_idle]

theorem evicts_eq (h : Clocked origin n e) (ho : e.tick (.ofLines l) = .ok o) :
    e.rounds + (e.beat (.ofLines l) o).evicts.toNat = o.state.rounds := by
  rw [Beat.evicts, h.steady.start_beat, h.steady.outcome_eq ho, rounds_advance h.updating.not_idle]
  rfl

theorem tick (h : Clocked origin n e) (ho : e.tick (.ofLines l) = .ok o) :
    Clocked origin (n + 1) o.state ∨ Over origin (n + 1) o.state := by
  have hcycles := h.cycles_eq
  obtain ⟨keys, hk⟩ := h.steady.accounted
  obtain ⟨hm, hgo⟩ := hk.move_of_tick ho
  have hdelete : origin = .delete → o.state.rounds = 0 := fun hdel =>
    (hm.rounds_of_delete h.updating (h.origin_eq.trans hdel)).trans (h.rounds_of_delete hdel)
  rcases hm.clock h.updating (hgo h.updating) with ⟨hup, horigin, hclock⟩ | ⟨hidle, hr, hlast⟩
  · exact .inl ⟨h.steady.tick ho, hup, horigin.trans h.origin_eq, hclock.trans (by rw [← hcycles]; rfl),
      hdelete⟩
  · have hp : e.phase = .writing := by
      refine hlast.resolve_right ?_
      rintro ⟨d, hd⟩
      cases hd.symm.trans (h.result_eq ho)
    have hr' : o.state.rounds = e.rounds := hr
    rw [hp, Phase.elapsed] at hcycles
    exact .inr ⟨hidle, by omega, hdelete⟩

theorem run (h : Clocked origin n e) (hrun : e.run (ls.map .ofLines) = .ok (beats, e'))
    (hbusy : ∀ b ∈ beats, b.start.phase ≠ .idle) :
    beats.map (fun b => (b.start.phase, b.start.rounds, b.result)) =
        (List.range' n ls.length).map (fun j => (Phase.atCycle j, j / 3, .ok {})) ∧
      e.rounds + beats.countP Beat.evicts = e'.rounds ∧
      (Clocked origin (n + ls.length) e' ∨ Over origin (n + ls.length) e') := by
  induction ls generalizing e n beats with
  | nil =>
    cases hrun
    exact ⟨rfl, rfl, .inl h⟩
  | cons l ls ih =>
    obtain ⟨o, beats', ho, hrun', rfl⟩ := run_cons_eq_ok hrun
    obtain ⟨-, hbusy'⟩ := List.forall_mem_cons.1 hbusy
    have hbeat : ((e.beat (.ofLines l) o).start.phase, (e.beat (.ofLines l) o).start.rounds,
        (e.beat (.ofLines l) o).result) = (Phase.atCycle n, n / 3, .ok {}) := by
      rw [← h.phase_eq, ← h.rounds_eq, ← h.result_eq ho]
      rfl
    have hevicts := h.evicts_eq ho
    rw [List.length_cons, List.range'_succ, List.map_cons, List.map_cons, hbeat, List.countP_cons,
      Nat.add_comm ls.length, ← Nat.add_assoc n 1]
    rcases h.tick ho with hnext | hover
    · obtain ⟨hbeats, hcount, hend⟩ := ih hnext hrun' hbusy'
      refine ⟨by rw [hbeats], ?_, hend⟩
      rw [← hcount, ← hevicts]
      cases (e.beat (.ofLines l) o).evicts
      · simp
      · simp
        omega
    · obtain rfl := nil_of_idle hover.idle hrun' hbusy'
      cases hrun'
      refine ⟨rfl, ?_, .inr hover⟩
      rw [← hevicts]
      cases (e.beat (.ofLines l) o).evicts <;> rfl

theorem busy_of_delete (h : Clocked .delete n e) (hrun : e.run (ls.map .ofLines) = .ok (beats, e'))
    (hle : n + ls.length ≤ 3) : ∀ b ∈ beats, b.start.phase ≠ .idle := by
  induction ls generalizing e n beats with
  | nil =>
    cases hrun
    simp
  | cons l ls ih =>
    obtain ⟨o, beats', ho, hrun', rfl⟩ := run_cons_eq_ok hrun
    rw [List.length_cons] at hle
    refine List.forall_mem_cons.2 ⟨h.updating.not_idle, ?_⟩
    rcases h.tick ho with hnext | hover
    · exact ih hnext hrun' (by omega)
    · have hcycles := hover.cycles_eq
      have hnil : ls = [] := List.length_eq_zero_iff.1 (by omega)
      subst hnil
      cases hrun'
      simp

theorem since_start (h : Clocked origin 0 e) (hrun : e.run (ls.map .ofLines) = .ok (beats, e'))
    (hbusy : ∀ b ∈ beats, b.start.phase ≠ .idle) :
    beats.map (fun b => (b.start.phase, b.start.rounds, b.result)) =
        (List.range ls.length).map (fun j => (Phase.atCycle j, j / 3, .ok {})) ∧
      e'.rounds = beats.countP Beat.evicts ∧
      (e'.phase ≠ .idle → e'.phase = .atCycle ls.length ∧ e'.rounds = ls.length / 3) ∧
      (e'.phase = .idle → ls.length = 3 * (e'.rounds + 1)) := by
  obtain ⟨hbeats, hcount, hend⟩ := h.run hrun hbusy
  rw [← List.range_eq_range'] at hbeats
  rw [h.rounds_eq, Nat.zero_div, Nat.zero_add] at hcount
  rw [Nat.zero_add] at hend
  refine ⟨hbeats, hcount.symm, fun hne => ?_, fun hidle => ?_⟩
  · have hgo := hend.resolve_right fun hover => hne hover.idle
    exact ⟨hgo.phase_eq, hgo.rounds_eq⟩
  · have hover := hend.resolve_left fun hgo => hgo.updating.not_idle hidle
    exact hover.cycles_eq.symm

theorem over_of_delete (h : Clocked .delete 0 e) (hrun : e.run (ls.map .ofLines) = .ok (beats, e'))
    (hlen : ls.length = 3) : e'.phase = .idle ∧ ∀ b ∈ beats, b.start.phase ≠ .idle := by
  have hbusy := h.busy_of_delete hrun (by omega)
  refine ⟨?_, hbusy⟩
  obtain ⟨-, -, hgo | hover⟩ := h.run hrun hbusy
  · have hrounds := hgo.rounds_eq
    rw [hgo.rounds_of_delete rfl, hlen] at hrounds
    cases hrounds
  · exact hover.idle

end Clocked

theorem Began.origin_of_delete (hb : Began s r e) (hr : r.operation = .delete) :
    e.staging.origin = .delete := by
  rw [hb.staging_eq]
  cases r with
  | delete key => rfl
  | lookup key | insert key data | clean => cases hr

theorem Began.clocked (hb : Began s r e) (hs : Steady e)
    (hr : r.operation = .insert ∨ r.operation = .delete) : Clocked e.staging.origin 0 e where
  steady := hs
  updating := by
    refine .inl (hb.phase_eq.trans ?_)
    cases r with
    | insert key data | delete key => rfl
    | lookup key | clean => simp [Request.operation] at hr
  origin_eq := rfl
  cycles_eq := by
    rw [hb.rounds_eq, hb.phase_eq]
    cases r <;> rfl
  rounds_of_delete _ := hb.rounds_eq

variable {hash : Nat → Key → Word} {depth : Nat → Nat}

/-- Once accepted, an insert or a delete goes through its rounds of three cycles without a wait, whatever
is on the request lines. It accepts and delivers nothing meanwhile and does not fail. A delete takes one
round, and an insert as many as it evicts entries and one more. -/
theorem update_latency (h : ofLanes c (emptyLanes c hash depth) = .ok e) (hr : e.Reaches s)
    (hacc : s.accepted? lines = some r) (hop : r.operation = .insert ∨ r.operation = .delete)
    (ls : List Lines) :
    s.RunsTo ((lines :: ls).map .ofLines) fun beats e' =>
      ((∀ b ∈ beats.tail, b.start.phase ≠ .idle) →
        beats.tail.map (fun b => (b.start.phase, b.start.rounds, b.result)) =
          (List.range ls.length).map (fun j => (Phase.atCycle j, j / 3, .ok {})) ∧
        e'.rounds = beats.tail.countP Beat.evicts ∧
        (e'.phase ≠ .idle → e'.phase = .atCycle ls.length ∧ e'.rounds = ls.length / 3) ∧
        (e'.phase = .idle → ls.length = 3 * (e'.rounds + 1))) ∧
      (r.operation = .delete → ls.length = 3 →
        e'.phase = .idle ∧ ∀ b ∈ beats.tail, b.start.phase ≠ .idle) := by
  obtain ⟨hs, rfl⟩ := hr.steady h
  obtain ⟨keys, hk⟩ := hs.accounted
  have hx : r.isExclusive = true := by
    rw [Request.isExclusive]
    rcases hop with hop | hop <;> rw [hop] <;> rfl
  obtain ⟨o, ho, -, hbegan⟩ := hk.tick_of_exclusive hacc hx (Drive.ofLines lines).gates
  have hclocked := hbegan.clocked (hs.tick ho) hop
  have hruns : s.RunsTo ((lines :: ls).map .ofLines) fun _ e' => ∃ keys, e'.Accounted keys := by
    apply hk.runsTo_began (p := fun _ e' => ∃ keys, e'.Accounted keys) hacc hx
    · exact fun e' hb => ⟨[], hb.accounted⟩
    · exact fun _ _ hkeys => hkeys
    · rintro beats e' l o ⟨keys, hkeys⟩ hm -
      obtain ⟨keys', hkeys', -⟩ := hm.accounted (hkeys.behind _)
      exact ⟨keys', hkeys'⟩
  apply hruns.mono
  rintro beats e' hrun -
  obtain ⟨o', beats', ho', hrun', rfl⟩ := run_cons_eq_ok hrun
  obtain rfl := Except.ok.inj (ho.symm.trans ho')
  rw [List.tail_cons]
  refine ⟨hclocked.since_start hrun', fun hdelete hlen => ?_⟩
  rw [hbegan.origin_of_delete hdelete] at hclocked
  exact hclocked.over_of_delete hrun' hlen

/-- The insert of 7 puts 1 out, which takes the free slot that it has in the other bank. -/
theorem update_latency_evicting :
    ∃ s beats e', slantedEngine.Reaches s ∧ s.pairs = [(1, 10), (3, 30)] ∧
      s.run ([{ insert := some (7, 70) }, { delete := some 3 }, { lookup := some 1 },
        { resultReady := false }, { clean := true }, {}, { insert := some (9, 90) }].map .ofLines) =
        .ok (beats, e') ∧
      beats.tail.map (fun b => (b.start.phase, b.start.rounds, b.result)) =
        [(.probing, 0, .ok {}), (.waiting, 0, .ok {}), (.writing, 0, .ok {}),
          (.probing, 1, .ok {}), (.waiting, 1, .ok {}), (.writing, 1, .ok {})] ∧
      beats.tail.countP Beat.evicts = 1 ∧ e'.phase = .idle ∧ 6 = 3 * (e'.rounds + 1) := by
  obtain ⟨⟨before, s⟩, hreach, hpairs, hacc, hnext⟩ := exists_of_toOption_any
    (x := slantedEngine.run ([{ insert := some (1, 10) }, {}, {}, {}, { insert := some (3, 30) },
      {}, {}, {}].map .ofLines))
    (p := fun r => r.2.pairs = [(1, 10), (3, 30)] ∧
      r.2.accepted? { insert := some (7, 70) } = some (.insert 7 70) ∧
      (r.2.run ([{ insert := some (7, 70) }, { delete := some 3 }, { lookup := some 1 },
        { resultReady := false }, { clean := true }, {}, { insert := some (9, 90) }].map
          .ofLines)).toOption.any fun r' =>
        (∀ b ∈ r'.1.tail, b.start.phase ≠ .idle) ∧ r'.2.phase = .idle ∧ r'.2.rounds = 1)
    (by decide +kernel)
  obtain ⟨⟨beats, e'⟩, hrun, hbusy, hidle, hrounds⟩ := exists_of_toOption_any hnext
  have hr : slantedEngine.Reaches s := ⟨_, before, hreach⟩
  have hruns := update_latency (ofLanes_smallEngine _) hr hacc (.inl rfl)
    [{ delete := some 3 }, { lookup := some 1 }, { resultReady := false }, { clean := true }, {},
      { insert := some (9, 90) }]
  obtain ⟨hclock, -⟩ := hruns.ok hrun
  obtain ⟨hbeats, hcount, -, hlast⟩ := hclock hbusy
  exact ⟨s, beats, e', hr, hpairs, hrun, hbeats, hcount.symm.trans hrounds, hidle, hlast hidle⟩

end Engine
end ClockedCuckoo
