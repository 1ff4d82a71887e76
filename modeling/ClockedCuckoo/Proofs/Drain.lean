import ClockedCuckoo.Proofs.Exclusion
import ClockedCuckoo.Proofs.FrontendRun

/-! A request that holds lookups off is served in bounded time. While nothing is accepted and
responses are taken, each cycle brings the lookups under way nearer to their end. -/

namespace ClockedCuckoo

/-- No lookup can be accepted from these lines while others are under way. -/
def Lines.BarsLookups (l : Lines) : Prop :=
  l.hasExclusive = true ∨ l.lookup = none

namespace Engine

/-- The cycles that the lookups under way take at most to come to an end: two for a staged one, which
is still to be probed. -/
def drainTime (e : Engine) : Nat :=
  e.inFlight.count + e.staging.holdsLookup.toNat

variable {c : Config} {lanes : List Lane} {e e' e₀ : Engine} {keys : List Key} {lines : Lines}
  {r : Request} {o : Outcome Engine Duplicate Outputs} {result : Except Duplicate Outputs}

theorem drainTime_le (e : Engine) : e.drainTime ≤ e.inFlight.count + 1 :=
  Nat.add_le_add_left (Bool.toNat_le _) _

theorem atRest_of_drainTime (hp : e.phase = .idle) (hd : e.drainTime = 0) : e.atRest = true := by
  rw [drainTime, Nat.add_eq_zero_iff, Bool.toNat_eq_zero] at hd
  exact atRest_eq_true.2 ⟨hp, hd⟩

theorem accepted?_of_barsLookups (hl : lines.BarsLookups) (hacc : e.accepted? lines = some r) :
    lines.exclusive? = some r ∧ e.lookupsDone = true := by
  obtain ⟨hp, -⟩ := accepted?_cases hacc
  cases hx : lines.hasExclusive with
  | true =>
    rw [accepted?_of_exclusive hp hx] at hacc
    split at hacc
    · exact ⟨hacc, ‹_›⟩
    · cases hacc
  | false =>
    have hnone : lines.lookup = none := hl.resolve_left (by simp [hx])
    rw [accepted?_of_no_exclusive hp hx, hnone, Option.map_none, ite_self] at hacc
    cases hacc

theorem Accounted.exists_tick_of_idle (h : e.Accounted keys) (hp : e.phase = .idle) (d : Drive) :
    ∃ o, e.tick d = .ok o := by
  have hk := h.behind d.gates
  cases hf : (e.behind d.gates).fault? with
  | some _ => exact ⟨_, hk.cycle_of_fault hf⟩
  | none => exact ⟨_, hk.cycle_of_no_eviction hf (evicted?_of_ne (by simp [Engine.behind, hp]))⟩

theorem Accounted.delivers_or_taken (h : e.Accounted keys) (hopen : e.Open) (hp : e.phase = .idle)
    (hready : lines.resultReady = true) (hd : e.drainTime ≠ 0) :
    e.delivers lines = true ∨ e.lookupTaken = true := by
  have hi : e.phase.isIdle = true := Phase.isIdle_eq_true.2 hp
  cases keys with
  | nil =>
    have hidle := h.idle hp
    have hstaged : e.staging.holdsLookup = true := by
      by_contra hnot
      rw [Bool.not_eq_true] at hnot
      rw [drainTime, ← hidle, hnot] at hd
      exact hd rfl
    have hprobing : e.probing = true := by simp [probing, hi, hstaged]
    rw [lookupTaken, h.probeTaken_of_nil hopen hprobing, hstaged]
    exact .inr rfl
  | cons key rest =>
    have hr := h.results?_of_visible hopen.visible
    have hanswer := Response.isSome_ofProbes (h.length_reads key) h.valid.banks_pos h.banks_le
    rw [delivers, response?, if_pos hi, hr, Option.bind_some, hanswer, hready]
    exact .inl rfl

theorem toNat_holdsLookup_take_none {s : Staging} {taken : Bool} (keyMask dataMask : Word)
    (ht : taken = true → s.holdsLookup = true) :
    (s.take none taken keyMask dataMask).holdsLookup.toNat + taken.toNat =
      s.holdsLookup.toNat := by
  cases taken with
  | false => rfl
  | true =>
    rw [ht rfl]
    rfl

theorem Move.drains (hm : Move e lines e' result) (h : e.Accounted keys) (hopen : e.Open)
    (hp : e.phase = .idle) (hacc : e.accepted? lines = none) (hready : lines.resultReady = true) :
    e'.phase = .idle ∧ e'.drainTime ≤ e.drainTime - 1 := by
  cases hm with
  | serve r _ _ =>
    have hcount := h.count_nextInFlight lines
    have hstaged := toNat_holdsLookup_take_none e.config.keyMask e.config.dataMask
      (holdsLookup_of_lookupTaken (e := e))
    have hlookup : (e.lookupAccepted lines).toNat = 0 := by
      rw [lookupAccepted, hacc]
      rfl
    have hprogress : e.drainTime ≠ 0 →
        (e.delivers lines).toNat = 1 ∨ e.lookupTaken.toNat = 1 := fun hd =>
      (h.delivers_or_taken hopen hp hready hd).imp (congrArg Bool.toNat) (congrArg Bool.toNat)
    simp only [drainTime, served, hacc] at hprogress ⊢
    exact ⟨rfl, by omega⟩
  | refuse r d _ hf =>
    have hcount := h.count_after_refuse hp (h.keys_ne_nil_of_fault hf)
    simp only [drainTime]
    exact ⟨hp, by omega⟩
  | _ => simp_all

/-- While no lookup can be accepted, idle cycles lead to rest in the time told, or to a state of rest
in which an exclusive request is accepted. -/
theorem Accounted.drains (h : e.Accounted keys) (hp : e.phase = .idle) {ls : List Lines}
    (hls : ∀ l ∈ ls, l.BarsLookups ∧ l.resultReady = true) :
    ∃ n ≤ ls.length, ∃ beats e', e.run ((ls.take n).map .ofLines) = .ok (beats, e') ∧
      Beat.accepted beats = [] ∧ (∃ keys, e'.Accounted keys) ∧ e'.phase = .idle ∧
      e'.drainTime ≤ e.drainTime - n ∧
      (n = ls.length ∨ e'.drainTime = 0 ∧ ∃ l ∈ ls, l.hasExclusive = true) := by
  induction ls generalizing e keys with
  | nil => exact ⟨0, Nat.le_refl _, [], e, rfl, rfl, ⟨keys, h⟩, hp, Nat.le_refl _, .inl rfl⟩
  | cons l ls ih =>
    obtain ⟨⟨hbars, hready⟩, hrest⟩ := List.forall_mem_cons.1 hls
    have hk := h.behind (Drive.ofLines l).gates
    cases hacc : (e.behind (Drive.ofLines l).gates).accepted? l with
    -- Only a state of rest lets an exclusive request in, so nothing is left to drain.
    | some r =>
      obtain ⟨hx, hdone⟩ := accepted?_of_barsLookups hbars hacc
      obtain ⟨-, hcount, hstaged⟩ := hk.keys_nil_of_lookupsDone hp hdone
      have hzero : e.drainTime = 0 := by
        rw [drainTime, Nat.add_eq_zero_iff, Bool.toNat_eq_zero]
        exact ⟨hcount, hstaged⟩
      exact ⟨0, Nat.zero_le _, [], e, rfl, rfl, ⟨keys, h⟩, hp, Nat.le_refl _,
        .inr ⟨hzero, l, List.mem_cons_self, Lines.hasExclusive_of_exclusive? hx⟩⟩
    | none =>
      obtain ⟨o, ho⟩ := h.exists_tick_of_idle hp (.ofLines l)
      obtain ⟨hm, -⟩ := h.move_of_tick ho
      obtain ⟨hp', hdrain⟩ := hm.drains hk (e.open_behind l) hp hacc hready
      obtain ⟨keys', hk', -⟩ := hm.accounted hk
      obtain ⟨n, hn, beats, e', hrun, hnone, hkeys, hidle, hdrain', hend⟩ := ih hk' hp' hrest
      have hdrain : o.state.drainTime ≤ e.drainTime - 1 := hdrain
      have hquiet : (e.beat (.ofLines l) o).accepted? = none := by
        rw [Option.eq_none_iff_forall_ne_some]
        intro r hr
        exact absurd ((accepted?_of_cycle ho rfl hr).symm.trans hacc) (Option.some_ne_none r)
      refine ⟨n + 1, Nat.succ_le_succ hn, _, e', run_cons_of_ok ho hrun, ?_, hkeys, hidle,
        by omega, ?_⟩
      · rw [Beat.accepted, List.filterMap_cons_none hquiet]
        exact hnone
      · rcases hend with rfl | ⟨hzero, l', hl', hx⟩
        · exact .inl rfl
        · exact .inr ⟨hzero, l', List.mem_cons_of_mem _ hl', hx⟩

theorem isLookup_of_held {ls : List Lines} {beats : List Beat}
    (hrun : e.run (ls.map .ofLines) = .ok (beats, e')) (hls : ∀ l ∈ ls, l.hasExclusive = true)
    (hr : r ∈ Beat.accepted beats) : r.isLookup = false := by
  obtain ⟨b, hb, hacc⟩ := List.mem_filterMap.1 hr
  obtain ⟨pre, d, post, -, e₁, o, hds, -, ht, rfl⟩ := exists_of_mem_run hrun hb
  obtain ⟨l, hl, rfl⟩ := List.mem_map.1 (hds ▸ List.mem_append_right pre List.mem_cons_self)
  have hx := (accepted?_of_barsLookups (.inl (hls l hl)) (accepted?_of_cycle ht rfl hacc)).1
  have hexclusive := Lines.isExclusive_of_exclusive? hx
  cases r with
  | lookup key => cases hexclusive
  | clean | delete key | insert key data => rfl

/-- The lookups that are under way after `before` have all come to their outcomes. -/
structure Drained (before beats : List Beat) (e e' : Engine) : Prop where
  accepted_eq : Beat.accepted beats = []
  length_told : (Beat.told beats).length = e.inFlight.count
  settled : List.Forall₂ Settled (Beat.asked (before ++ beats)) (Beat.told (before ++ beats))
  atRest : e'.atRest = true

theorem drained_of_run {ls₀ ls : List Lines} {before beats : List Beat} (h : e.Accounted [])
    (hzero : e.rounds = 0) (hcount : e.inFlight.count = 0)
    (hrun₀ : e.run (ls₀.map .ofLines) = .ok (before, e₀))
    (hrun : e₀.run (ls.map .ofLines) = .ok (beats, e')) (hacc : Beat.accepted beats = [])
    (hp : e'.phase = .idle) (hdrain : e'.drainTime = 0) : Drained before beats e₀ e' := by
  have hall : e.run ((ls₀ ++ ls).map .ofLines) = .ok (before ++ beats, e') := by
    rw [List.map_append]
    exact run_append_of_ok hrun₀ hrun
  obtain ⟨keys₀, hs₀⟩ := (runsTo_settles h hzero hcount (visible_ofLines ls₀)).ok hrun₀
  obtain ⟨keys, hs⟩ := (runsTo_settles h hzero hcount (visible_ofLines _)).ok hall
  have hrest := atRest_of_drainTime hp hdrain
  obtain ⟨-, hend, -⟩ := atRest_eq_true.1 hrest
  refine ⟨hacc, ?_, hs.forall₂_of_count hend, hrest⟩
  have hlength := hs.length_asked
  have hlength₀ := hs₀.length_asked
  rw [Beat.asked_append, Beat.told_append, Beat.asked_eq_nil hacc, List.append_nil,
    List.length_append] at hlength
  omega

/-- Whatever the slots hold and however short the queues are, an exclusive request that is held while
responses are taken keeps lookups out. With `f` of them under way, all have their outcomes after
`f + 1` cycles, and the request is accepted in the next cycle at the latest. With nothing requested,
the engine is at rest after as many. -/
theorem held_request_drains (h : ofLanes c lanes = .ok e)
    (hready : ∀ l ∈ lanes, l.bank.hasher.IsTotal ∧ 0 < l.bank.depth ∧ l.bank.results = [])
    {ls₀ : List Lines} {before : List Beat}
    (hrun₀ : e.run (ls₀.map .ofLines) = .ok (before, e₀)) (hp : e₀.phase = .idle)
    {ls : List Lines} (hls : ∀ l ∈ ls, l.resultReady = true) :
    (∀ r, (∀ l ∈ ls, l.exclusive? = some r) →
      (∀ beats e', e₀.run (ls.map .ofLines) = .ok (beats, e') →
        ∀ r' ∈ Beat.accepted beats, r'.isLookup = false) ∧
      (e₀.inFlight.count + 2 ≤ ls.length → ∃ n ≤ e₀.inFlight.count + 1, ∃ beats e₁ l o,
        e₀.run ((ls.take n).map .ofLines) = .ok (beats, e₁) ∧ Drained before beats e₀ e₁ ∧
        ls[n]? = some l ∧ e₁.tick (.ofLines l) = .ok o ∧
        o.result = .ok { accepted := some r })) ∧
    ((∀ l ∈ ls, l.isQuiet = true) → e₀.inFlight.count + 1 ≤ ls.length →
      ∃ beats e', e₀.run (ls.map .ofLines) = .ok (beats, e') ∧ Drained before beats e₀ e') := by
  have hstart := accounted_start h hready
  obtain ⟨-, -, -, rfl⟩ := ofLanes_eq_ok h
  obtain ⟨-, keys, hk⟩ := Reaches.accounted ⟨ls₀, before, hrun₀⟩ hstart rfl
  have htime := e₀.drainTime_le
  constructor
  · intro r hr
    have hx : ∀ l ∈ ls, l.hasExclusive = true := fun l hl =>
      Lines.hasExclusive_of_exclusive? (hr l hl)
    refine ⟨fun beats e' hrun r' hr' => isLookup_of_held hrun hx hr', fun hlen => ?_⟩
    have hbars : ∀ l ∈ ls.take (e₀.inFlight.count + 1), l.BarsLookups ∧ l.resultReady = true :=
      fun l hl => ⟨.inl (hx l (List.mem_of_mem_take hl)), hls l (List.mem_of_mem_take hl)⟩
    -- The engine is at rest when these cycles are over, or before one that accepts the request.
    obtain ⟨n, hn, beats, e₁, hrun, hacc, ⟨keys₁, hk₁⟩, hidle, hdrain, hend⟩ := hk.drains hp hbars
    rw [List.length_take, Nat.min_eq_left (by omega)] at hn hend
    rw [List.take_take, Nat.min_eq_left hn] at hrun
    have hzero : e₁.drainTime = 0 := by
      rcases hend with rfl | ⟨hzero, -⟩
      · omega
      · exact hzero
    have hlt : n < ls.length := by omega
    have hdrained := drained_of_run hstart rfl rfl hrun₀ hrun hacc hidle hzero
    obtain ⟨-, hcount, -⟩ := atRest_eq_true.1 hdrained.atRest
    obtain ⟨hacc₁, hx₁⟩ :=
      hk₁.exclusive_accepted_iff.2 ⟨hidle, hcount, hr _ (List.getElem_mem hlt)⟩
    obtain ⟨o, ho, hresult, -⟩ := hk₁.tick_of_exclusive hacc₁ hx₁ (Drive.ofLines ls[n]).gates
    exact ⟨n, hn, beats, e₁, ls[n], o, hrun, hdrained, List.getElem?_eq_getElem hlt, ho, hresult⟩
  · intro hquiet hlen
    have hnone : ∀ l ∈ ls, l.hasExclusive = false ∧ l.lookup = none := by
      intro l hl
      have hq := hquiet l hl
      rwa [Lines.isQuiet, Bool.and_eq_true, Bool.not_eq_true', Option.isNone_iff_eq_none] at hq
    obtain ⟨n, hn, beats, e', hrun, hacc, -, hidle, hdrain, rfl | ⟨-, l, hl, hx⟩⟩ :=
      hk.drains hp fun l hl => ⟨.inr (hnone l hl).2, hls l hl⟩
    · rw [List.take_length] at hrun
      exact ⟨beats, e', hrun, drained_of_run hstart rfl rfl hrun₀ hrun hacc hidle (by omega)⟩
    · rw [(hnone l hl).1] at hx
      cases hx

/-- The queues hold one result each. The lookup of 5 fails, that of 4 is probed and answered, then the
delete is accepted. Without it the same three cycles lead to rest. -/
theorem held_request_drains_clash :
    ∃ before e₀ beats e₁ beats' e', (start smallConfig clashingLanes).run
        ([{ lookup := some 5 }, { lookup := some 4 }].map .ofLines) = .ok (before, e₀) ∧
      e₀.inFlight.count = 2 ∧
      e₀.run ((List.replicate 3 { delete := some 5, lookup := some 6 }).map .ofLines) =
        .ok (beats, e₁) ∧
      (Beat.told beats).map Prod.snd = [.refused ⟨5, [0, 1]⟩, .answered ⟨4, none, 0⟩] ∧
      (∃ n ≤ 3, ∃ beats e₁ o, e₀.run
          (((List.replicate 4 { delete := some 5, lookup := some 6 }).take n).map .ofLines) =
          .ok (beats, e₁) ∧ Drained before beats e₀ e₁ ∧
        e₁.tick (.ofLines { delete := some 5, lookup := some 6 }) = .ok o ∧
        o.result = .ok { accepted := some (.delete 5) }) ∧
      e₀.run ((List.replicate 3 {}).map .ofLines) = .ok (beats', e') ∧
      Drained before beats' e₀ e' := by
  obtain ⟨before, e₀, beats, e₁, hrun₀, hp, hcount, hrun, htold⟩ :
      ∃ before e₀ beats e₁, (start smallConfig clashingLanes).run
          ([{ lookup := some 5 }, { lookup := some 4 }].map .ofLines) = .ok (before, e₀) ∧
        e₀.phase = .idle ∧ e₀.inFlight.count = 2 ∧
        e₀.run ((List.replicate 3 { delete := some 5, lookup := some 6 }).map .ofLines) =
          .ok (beats, e₁) ∧
        (Beat.told beats).map Prod.snd = [.refused ⟨5, [0, 1]⟩, .answered ⟨4, none, 0⟩] :=
    ⟨_, _, _, _, rfl, rfl, rfl, rfl, rfl⟩
  have hheld : ∀ l ∈ List.replicate 4 ({ delete := some 5, lookup := some 6 } : Lines),
      l.resultReady = true ∧ l.exclusive? = some (.delete 5) := by
    intro l hl
    rw [List.eq_of_mem_replicate hl]
    exact ⟨rfl, rfl⟩
  have hquiet : ∀ l ∈ List.replicate 3 ({} : Lines), l.resultReady = true ∧ l.isQuiet = true := by
    intro l hl
    rw [List.eq_of_mem_replicate hl]
    exact ⟨rfl, rfl⟩
  obtain ⟨n, hn, beats₁, e₂, l, o, hrun₁, hdrained₁, hl, ho, hresult⟩ :=
    ((held_request_drains ofLanes_clashingLanes ready_clashingLanes hrun₀ hp
      fun l hl => (hheld l hl).1).1 _ fun l hl => (hheld l hl).2).2 (by rw [hcount]; decide)
  obtain ⟨beats', e', hrun', hdrained'⟩ :=
    (held_request_drains ofLanes_clashingLanes ready_clashingLanes hrun₀ hp
      fun l hl => (hquiet l hl).1).2 (fun l hl => (hquiet l hl).2) (by rw [hcount]; decide)
  obtain rfl := List.eq_of_mem_replicate (List.mem_of_getElem? hl)
  exact ⟨before, e₀, beats, e₁, beats', e', hrun₀, hcount, hrun, htold,
    ⟨n, by omega, beats₁, e₂, o, hrun₁, hdrained₁, ho, hresult⟩, hrun', hdrained'⟩

end Engine
end ClockedCuckoo
