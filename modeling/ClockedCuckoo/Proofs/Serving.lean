import ClockedCuckoo.Proofs.AbsentDelete

/-! Lookups on their way through an idle engine. Its cycles depend on three things only: how many results
the queues hold, how many they have room for, and whether a lookup is staged. -/

namespace ClockedCuckoo

theorem Staging.holdsLookup_take {s : Staging} {accepted : Option Request} {taken : Bool}
    (keyMask dataMask : Word) (hx : accepted.any Request.isExclusive = false) :
    (s.take accepted taken keyMask dataMask).holdsLookup =
      (accepted.isSome || (s.holdsLookup && !taken)) := by
  cases accepted with
  | none =>
    cases taken with
    | false => exact (Bool.and_true _).symm
    | true => exact (Bool.and_false _).symm
  | some r =>
    cases r with
    | lookup key => rfl
    | clean | delete key | insert key data => cases hx

theorem Store.expected_lookups (c : Config) (m : Store) (ks : List Key) :
    expected c m (ks.map .lookup) = ks.map fun k => m.answer (k &&& c.keyMask) := by
  have hlookups : ∀ r ∈ ks.map Request.lookup, r.operation = .lookup := by
    intro r hr
    obtain ⟨k, -, rfl⟩ := List.mem_map.1 hr
    rfl
  have hkeys : (ks.map Request.lookup).filterMap (Request.lookup? c.keyMask) =
      ks.map (· &&& c.keyMask) := by
    rw [List.filterMap_map, ← List.filterMap_eq_map]
    rfl
  rw [expected_of_lookup hlookups, hkeys, List.map_map]
  rfl

namespace Engine

/-- The banks have the queues that the configuration tells, each with `n` results in it, and a lookup is
staged or not. -/
structure Serving (c : Config) (n : Nat) (staged : Bool) (e : Engine) : Prop where
  steady : Steady e
  config_eq : e.config = c
  idle : e.phase = .idle
  queued : ∃ keys, e.Accounted keys ∧ keys.length = n
  depth_eq : ∀ l ∈ e.lanes, l.bank.depth = c.queueDepth
  staged_eq : e.staging.holdsLookup = staged

variable {c : Config} {e e' : Engine} {keys : List Key} {lines : Lines} {d n : Nat} {staged : Bool}
  {o : Outcome Engine Duplicate Outputs}

section Handshakes

theorem Built.probeTaken_eq (h : e.Built keys) (hopen : e.Open)
    (hd : ∀ l ∈ e.lanes, l.bank.depth = d) :
    e.probeTaken = (e.probing && decide (keys.length < d)) := by
  have htakes : ∀ l ∈ e.lanes, l.takesProbe = decide (keys.length < d) := by
    intro l hl
    rw [Lane.takesProbe, hopen l hl, Bank.hasRoom, (h.answers l hl).results_eq, List.length_map,
      hd l hl]
    rfl
  obtain ⟨l, ls, hlanes⟩ := List.exists_cons_of_ne_nil h.lanes_ne_nil
  rw [probeTaken, Handshake.fork, List.map_congr_left htakes, hlanes]
  cases decide (keys.length < d) <;> simp

theorem Built.delivers_eq (h : e.Built keys) (hopen : e.Open) (hp : e.phase = .idle) :
    e.delivers lines = (lines.resultReady && decide (0 < keys.length)) := by
  have hi : e.phase.isIdle = true := Phase.isIdle_eq_true.2 hp
  cases keys with
  | nil => simp [delivers, response?, h.results?_of_nil]
  | cons key rest =>
    have hr := h.results?_of_visible hopen.visible
    have hanswer := Response.isSome_ofProbes (h.length_reads key) h.valid.banks_pos h.banks_le
    rw [delivers, response?, if_pos hi, hr, Option.bind_some, hanswer]
    simp

end Handshakes

theorem depth_cycle (h : ∀ l ∈ e.lanes, l.bank.depth = d)
    (ho : e.cycle lines = .ok o) : ∀ l ∈ o.state.lanes, l.bank.depth = d := by
  rcases cycle_eq_ok ho with ⟨_, -, rfl⟩ | ⟨-, rfl⟩
  · intro l' hl'
    obtain ⟨l, hl, rfl⟩ := List.mem_map.1 hl'
    rw [Lane.bank_cycle, Bank.depth_cycle, h l hl]
  · intro l' hl'
    obtain ⟨t, ht⟩ := List.getElem?_of_mem hl'
    obtain ⟨l, c, hl, -, rfl⟩ := List.getElem?_zipWith_eq_some.1 ht
    rw [Lane.bank_cycle, Bank.depth_cycle, h l (List.mem_of_getElem? hl)]

namespace Serving

theorem lookupTaken_eq (h : Serving c n staged e) :
    e.lookupTaken = (staged && decide (n < c.queueDepth)) := by
  obtain ⟨keys, hk, rfl⟩ := h.queued
  have hi : e.phase.isIdle = true := Phase.isIdle_eq_true.2 h.idle
  rw [lookupTaken, hk.probeTaken_eq h.steady.isOpen h.depth_eq, probing, hi, h.idle, h.staged_eq]
  cases staged <;> simp

theorem delivers_eq (h : Serving c n staged e) (lines : Lines) :
    e.delivers lines = (lines.resultReady && decide (0 < n)) := by
  obtain ⟨keys, hk, rfl⟩ := h.queued
  exact hk.delivers_eq h.steady.isOpen h.idle

theorem count_eq (h : Serving c n staged e) : e.inFlight.count = n + staged.toNat := by
  obtain ⟨keys, hk, rfl⟩ := h.queued
  rw [← hk.idle h.idle, h.staged_eq]

theorem maxOverlap_eq (h : Serving c n staged e) : e.inFlight.maxOverlap = c.maxOverlap := by
  obtain ⟨keys, hk⟩ := h.steady.accounted
  rw [hk.overlap, h.config_eq]

theorem accepted?_eq (h : Serving c n staged e) (hx : lines.hasExclusive = false) :
    e.accepted? lines =
      if (staged = true → n < c.queueDepth) ∧ n + staged.toNat < c.maxOverlap - 1 then
        lines.lookup.map .lookup
      else none := by
  rw [accepted?_of_no_exclusive h.idle hx, h.lookupTaken_eq, h.staged_eq, InFlight.hasRoom,
    h.count_eq, h.maxOverlap_eq]
  cases staged <;> simp

theorem exclusiveAccepted_of_pos (h : Serving c n staged e) (hpos : 0 < n + staged.toNat)
    (lines : Lines) : e.exclusiveAccepted lines = false := by
  rw [Bool.eq_false_iff]
  intro hx
  obtain ⟨_, -, -, hdone, -⟩ := accepted?_of_exclusiveAccepted hx
  rw [lookupsDone, Bool.and_eq_true, InFlight.isZero_eq_true, h.count_eq] at hdone
  omega

theorem exclusiveAccepted_of_no_exclusive (h : Serving c n staged e)
    (hx : lines.hasExclusive = false) : e.exclusiveAccepted lines = false := by
  rw [exclusiveAccepted, h.accepted?_eq hx]
  split
  · cases lines.lookup <;> rfl
  · rfl

theorem tick_eq (h : Serving c n staged e) (lines : Lines) :
    e.tick (.ofLines lines) = .ok ⟨e.advance lines, .ok (e.outputs lines), e.events lines⟩ := by
  apply h.steady.tick_eq_ok
  exact evicted?_of_ne (by simp [h.idle])

theorem isSome_response (h : Serving c n staged e) (lines : Lines) :
    (e.outputs lines).response.isSome = (lines.resultReady && decide (0 < n)) := by
  rw [← h.delivers_eq, outputs]
  cases hd : e.delivers lines with
  | false => rfl
  | true =>
    rw [delivers, Bool.and_eq_true] at hd
    exact hd.1

/-- A cycle that accepts no exclusive request drops the oldest result, if that is taken, probes the
staged lookup, if there was room for its result, and stages the one accepted. -/
theorem advance (h : Serving c n staged e) (hx : e.exclusiveAccepted lines = false) :
    Serving c
      (n + (staged && decide (n < c.queueDepth)).toNat - (lines.resultReady && decide (0 < n)).toNat)
      ((e.accepted? lines).isSome || (staged && !decide (n < c.queueDepth))) (e.advance lines) := by
  have ht := h.tick_eq lines
  obtain ⟨keys, hk, rfl⟩ := h.queued
  have hlen := hk.length_nextKeys lines
  rw [h.lookupTaken_eq, h.delivers_eq] at hlen
  exact
    { steady := h.steady.tick ht
      config_eq := h.config_eq
      idle := by
        show e.nextPhase lines = .idle
        rw [nextPhase_of_idle h.idle, started_of_no_exclusive hx]
      queued := by
        refine ⟨e.nextKeys keys lines, ?_, by omega⟩
        rw [advance_of_idle h.idle]
        exact hk.serve h.idle _
      depth_eq := depth_cycle h.depth_eq (h.steady.tick_eq_cycle lines ▸ ht)
      staged_eq := by
        rw [advance_of_idle h.idle, served, Staging.holdsLookup_take _ _ hx, h.staged_eq,
          h.lookupTaken_eq]
        cases staged <;> rfl }

theorem of_atRest (hs : Steady e) (hc : e.config = c) (hrest : e.atRest = true)
    (hd : ∀ l ∈ e.lanes, l.bank.depth = c.queueDepth) : Serving c 0 false e := by
  obtain ⟨hp, -, hstaged⟩ := atRest_eq_true.1 hrest
  obtain ⟨keys, hk⟩ := hs.accounted
  obtain rfl := hk.keys_nil_of_atRest hrest
  exact ⟨hs, hc, hp, ⟨[], hk, rfl⟩, hd, hstaged⟩

end Serving

theorem depth_of_run (h : ∀ l ∈ e.lanes, l.bank.depth = d) {ls : List Lines}
    {beats : List Beat} (hopen : e.Open) (hrun : e.run (ls.map .ofLines) = .ok (beats, e')) :
    ∀ l ∈ e'.lanes, l.bank.depth = d := by
  induction ls generalizing e beats with
  | nil =>
    cases hrun
    exact h
  | cons l ls ih =>
    obtain ⟨o, beats', ho, hrun', rfl⟩ := run_cons_eq_ok hrun
    rw [Engine.tick, behind_of_open hopen] at ho
    exact ih (depth_cycle h ho) (hopen.cycle ho) hrun'

theorem Reaches.serving {hash : Nat → Key → Word}
    (h : ofLanes c (emptyLanes c hash fun _ => c.queueDepth) = .ok e) (hr : e.Reaches e')
    (hrest : e'.atRest = true) : Serving c 0 false e' := by
  obtain ⟨hs, hc⟩ := hr.steady h
  obtain ⟨ls, beats, hrun⟩ := hr
  obtain ⟨hvalid, -, -, rfl⟩ := ofLanes_eq_ok h
  apply Serving.of_atRest hs hc hrest
  refine depth_of_run (fun l hl => ?_) (fun l hl => ?_) hrun
  · obtain ⟨i, -, rfl⟩ := List.mem_map.1 hl
    exact Nat.max_eq_left hvalid.queueDepth_pos
  · obtain ⟨i, -, rfl⟩ := List.mem_map.1 hl
    rfl

end Engine
end ClockedCuckoo
