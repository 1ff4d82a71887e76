import ClockedCuckoo.Proofs.Serving

/-! What becomes of lookups whose responses are not taken. The count of lookups and the room in the
queues both bound how many come in; once responses are taken again, all of these are answered. -/

namespace ClockedCuckoo

/-- The lookups that may be under way while no response is taken: as many as the count allows, and one in
the staging register behind the full queues. -/
def Config.lookupRoom (c : Config) : Nat :=
  min (c.maxOverlap - 1) (c.queueDepth + 1)

def Lines.blocked (key : Key) : Lines where
  lookup := some key
  resultReady := false

theorem Beat.length_responses_cons (b : Beat) (beats : List Beat) :
    (responses (b :: beats)).length = b.response?.isSome.toNat + (responses beats).length := by
  rw [responses, responses, List.filterMap_cons]
  cases b.response? with
  | none => exact (Nat.zero_add _).symm
  | some r => exact Nat.add_comm ..

theorem Beat.accepted_of_map {beats : List Beat} {ks : List Key} {m : Nat}
    (h : beats.map accepted? = ks.map (some ∘ Request.lookup) ++ List.replicate m none) :
    accepted beats = ks.map .lookup := by
  have hfilter : accepted beats = (beats.map accepted?).filterMap id := by
    rw [List.filterMap_map]
    rfl
  rw [hfilter, h, List.filterMap_append, List.filterMap_map, List.filterMap_replicate_of_none rfl,
    List.append_nil, ← List.filterMap_eq_map]
  rfl

namespace Engine

variable {c : Config} {e e' s : Engine} {ks : List Key}
  {n j : Nat} {staged : Bool} {ls : List Lines} {beats : List Beat}

/-- The first `j` blocked cycles have each brought in a lookup, as far as there is room. -/
def Filled (c : Config) (j : Nat) (e : Engine) : Prop :=
  ∃ n staged, Serving c n staged e ∧ n ≤ c.queueDepth ∧ n + staged.toNat = min j c.lookupRoom

namespace Filled

theorem accepts_iff (hn : n ≤ c.queueDepth) (hsum : n + staged.toNat = min j c.lookupRoom) :
    (staged = true → n < c.queueDepth) ∧ n + staged.toNat < c.maxOverlap - 1 ↔
      j < c.lookupRoom := by
  rw [Config.lookupRoom] at hsum ⊢
  cases staged
  · simp only [Bool.toNat_false] at hsum ⊢
    simp only [Bool.false_eq_true, false_imp_iff, true_and]
    omega
  · simp only [Bool.toNat_true] at hsum ⊢
    simp only [true_imp_iff]
    omega

theorem sum_next (hn : n ≤ c.queueDepth) (hsum : n + staged.toNat = min j c.lookupRoom) :
    n + (staged && decide (n < c.queueDepth)).toNat ≤ c.queueDepth ∧
      n + (staged && decide (n < c.queueDepth)).toNat +
        (decide (j < c.lookupRoom) || (staged && !decide (n < c.queueDepth))).toNat =
      min (j + 1) c.lookupRoom := by
  have hle : c.lookupRoom ≤ c.queueDepth + 1 := Nat.min_le_right ..
  by_cases hj : j < c.lookupRoom <;> by_cases hlt : n < c.queueDepth <;> cases staged <;>
    simp [hj, hlt] at hsum ⊢ <;> omega

theorem tick (h : Filled c j e) (key : Key) : ∃ o, e.tick (.ofLines (.blocked key)) = .ok o ∧
    (e.beat (.ofLines (.blocked key)) o).accepted? =
      (if j < c.lookupRoom then some (.lookup key) else none) ∧
    (e.beat (.ofLines (.blocked key)) o).response? = none ∧ Filled c (j + 1) o.state := by
  obtain ⟨n, staged, hserving, hn, hsum⟩ := h
  have hacc : e.accepted? (.blocked key) = if j < c.lookupRoom then some (.lookup key) else none := by
    rw [hserving.accepted?_eq rfl, if_congr (accepts_iff hn hsum) rfl rfl]
    rfl
  have hsome : (e.accepted? (.blocked key)).isSome = decide (j < c.lookupRoom) := by
    rw [hacc]
    split <;> simp [*]
  have hresp : (e.outputs (.blocked key)).response = none := by
    rw [← Option.isNone_iff_eq_none, ← Option.isSome_eq_false_iff, hserving.isSome_response]
    rfl
  have hx : e.exclusiveAccepted (.blocked key) = false :=
    hserving.exclusiveAccepted_of_no_exclusive rfl
  have hnext := hserving.advance hx
  rw [hsome] at hnext
  exact ⟨_, hserving.tick_eq _, hacc, hresp, _, _, hnext, sum_next hn hsum⟩

theorem run (h : Filled c j e) (ks : List Key) : ∃ beats e',
    e.run ((ks.map .blocked).map .ofLines) = .ok (beats, e') ∧
    beats.map (·.accepted?) = (ks.take (c.lookupRoom - j)).map (some ∘ Request.lookup) ++
      List.replicate (ks.length - (c.lookupRoom - j)) none ∧
    Beat.responses beats = [] ∧ Filled c (j + ks.length) e' := by
  induction ks generalizing e j with
  | nil => exact ⟨[], e, rfl, by simp, rfl, h⟩
  | cons key ks ih =>
    obtain ⟨o, ho, hacc, hresp, hnext⟩ := h.tick key
    obtain ⟨beats, e', hrun, haccs, hresps, hend⟩ := ih hnext
    refine ⟨_, e', run_cons_of_ok ho hrun, ?_, ?_, ?_⟩
    · rw [List.map_cons, hacc, haccs]
      by_cases hj : j < c.lookupRoom
      · obtain ⟨m, hm⟩ : ∃ m, c.lookupRoom - j = m + 1 := ⟨c.lookupRoom - (j + 1), by omega⟩
        have hm' : c.lookupRoom - (j + 1) = m := by omega
        rw [if_pos hj, hm, hm', List.take_succ_cons, List.length_cons, Nat.add_sub_add_right]
        rfl
      · have hm : c.lookupRoom - j = 0 := by omega
        have hm' : c.lookupRoom - (j + 1) = 0 := by omega
        rw [if_neg hj, hm, hm']
        rfl
    · rw [Beat.responses, List.filterMap_cons_none hresp]
      exact hresps
    · rw [List.length_cons, Nat.add_comm ks.length, ← Nat.add_assoc]
      exact hend

end Filled
namespace Serving

theorem queueDepth_pos (h : Serving c n staged e) : 0 < c.queueDepth := by
  obtain ⟨keys, hk⟩ := h.steady.accounted
  exact h.config_eq ▸ hk.valid.queueDepth_pos

theorem tick_of_ready (h : Serving c n staged e) (hpos : 0 < n + staged.toNat) {l : Lines}
    (hready : l.resultReady = true) : ∃ o n' staged', e.tick (.ofLines l) = .ok o ∧
      (e.beat (.ofLines l) o).response?.isSome = decide (0 < n) ∧ Serving c n' staged' o.state ∧
      n + staged.toNat ≤ n' + staged'.toNat + (decide (0 < n)).toNat ∧ (n = 0 → n' = 1) := by
  have hdepth := h.queueDepth_pos
  have hresp := h.isSome_response l
  have hnext := h.advance (h.exclusiveAccepted_of_pos hpos l)
  rw [hready, Bool.true_and] at hresp hnext
  refine ⟨_, _, _, h.tick_eq l, hresp, hnext, ?_, ?_⟩
  · by_cases hn : 0 < n <;> by_cases hlt : n < c.queueDepth <;> cases staged <;>
      cases (e.accepted? l).isSome <;> simp [hn, hlt] <;> omega
  · rintro rfl
    cases staged with
    | false => cases hpos
    | true => simp [hdepth]

theorem drains (h : Serving c n staged e) {a : Nat} (ha : a ≤ n + staged.toNat)
    (hready : ∀ l ∈ ls, l.resultReady = true) (hlen : ls.length = a + 1) :
    ∃ beats e', e.run (ls.map .ofLines) = .ok (beats, e') ∧ a ≤ (Beat.responses beats).length := by
  induction a generalizing e n staged ls with
  | zero =>
    obtain ⟨l, rfl⟩ := List.length_eq_one_iff.1 hlen
    exact ⟨_, _, run_cons_of_ok (h.tick_eq l) rfl, Nat.zero_le _⟩
  | succ a ih =>
    obtain ⟨l, ls, rfl⟩ := List.exists_cons_of_length_eq_add_one hlen
    obtain ⟨hl, hrest⟩ := List.forall_mem_cons.1 hready
    have hlen' : ls.length = a + 1 := by simpa using hlen
    obtain ⟨o, n', staged', ho, hresp, hnext, hsum, hprobed⟩ := h.tick_of_ready (by omega) hl
    by_cases hn : 0 < n
    · rw [decide_eq_true hn] at hresp hsum
      obtain ⟨beats, e', hrun, hle⟩ := ih hnext (by simpa using ha.trans hsum) hrest hlen'
      refine ⟨_, e', run_cons_of_ok ho hrun, ?_⟩
      rw [Beat.length_responses_cons, hresp, Bool.toNat_true]
      omega
    -- Only the staged lookup is left. It is probed in this cycle and answered in the next.
    · obtain rfl : n' = 1 := hprobed (by omega)
      have hone : a = 0 := by
        have hstaged := Bool.toNat_le staged
        omega
      subst hone
      obtain ⟨l', rfl⟩ := List.length_eq_one_iff.1 hlen'
      obtain ⟨o', _, _, ho', hresp', -⟩ :=
        hnext.tick_of_ready (by omega) (hrest l' List.mem_cons_self)
      refine ⟨_, o'.state, run_cons_of_ok ho (run_cons_of_ok ho' rfl), ?_⟩
      rw [Beat.length_responses_cons, Beat.length_responses_cons, hresp']
      exact Nat.le_add_left ..

end Serving

variable {hash : Nat → Key → Word}

/-- An engine at rest that is asked for a lookup in every cycle, with no response taken, accepts those of
the first cycles, as many as there is room for, and none after them. Which keys are asked for makes no
difference, so each may be held until it is accepted. When responses are taken again, whatever else is
requested then, the lookups accepted are answered in order, in one cycle more than there are lookups. -/
theorem blocked_lookups_fill_pipeline
    (h : ofLanes c (emptyLanes c hash fun _ => c.queueDepth) = .ok e) (hr : e.Reaches s)
    (hrest : s.atRest = true) (ks : List Key) :
    ∃ beats e', s.run ((ks.map .blocked).map .ofLines) = .ok (beats, e') ∧
      beats.map (·.accepted?) = (ks.take c.lookupRoom).map (some ∘ Request.lookup) ++
        List.replicate (ks.length - c.lookupRoom) none ∧
      Beat.responses beats = [] ∧
      ∀ ls : List Lines, (∀ l ∈ ls, l.resultReady = true) →
        ls.length = (ks.take c.lookupRoom).length + 1 →
        ∃ beats' e'', e'.run (ls.map .ofLines) = .ok (beats', e'') ∧
          ((Beat.responses beats').take (ks.take c.lookupRoom).length).map Response.answer =
            (ks.take c.lookupRoom).map fun k => s.store.answer (k &&& c.keyMask) := by
  have hfilled : Filled c 0 s := ⟨0, false, hr.serving h hrest, Nat.zero_le _, (Nat.zero_min _).symm⟩
  obtain ⟨beats, e', hrun, hacc, hresp, n, staged, hserving, -, hsum⟩ := hfilled.run ks
  rw [Nat.sub_zero] at hacc
  rw [Nat.zero_add] at hsum
  refine ⟨beats, e', hrun, hacc, hresp, fun ls hready hlen => ?_⟩
  have hunder : (ks.take c.lookupRoom).length ≤ n + staged.toNat := by
    rw [List.length_take, hsum, Nat.min_comm]
  obtain ⟨beats', e'', hrun', hle⟩ := hserving.drains hunder hready hlen
  have hall : s.run ((ks.map Lines.blocked ++ ls).map .ofLines) = .ok (beats ++ beats', e'') := by
    rw [List.map_append]
    exact run_append_of_ok hrun hrun'
  refine ⟨beats', e'', hrun', ?_⟩
  obtain ⟨hp, hcount, -⟩ := atRest_eq_true.1 hrest
  obtain ⟨keys, -, -, -, hanswers⟩ := follows_since_rest h hr hp hcount hall
  rw [Beat.responses_append, hresp, List.nil_append, Beat.accepted_append,
    Beat.accepted_of_map hacc, Store.expected_append, Store.expected_lookups] at hanswers
  have htake := congrArg (List.take (ks.take c.lookupRoom).length) hanswers.symm
  rw [List.take_append_of_le_length (by rwa [List.length_map]),
    List.take_left' (List.length_map _)] at htake
  rw [List.map_take, htake]

def shallowConfig : Config :=
  { smallConfig with queueDepth := 1 }

def shallowEngine : Engine :=
  start shallowConfig (emptyLanes shallowConfig (fun _ => id) fun _ => shallowConfig.queueDepth)

/-- The queues hold one result each. One lookup of four waits in them and one behind them. -/
theorem blocked_lookups_fill_pipeline_full :
    ∃ s beats e', shallowEngine.Reaches s ∧ s.pairs = [(1, 10)] ∧
      s.run (([1, 2, 3, 4].map .blocked).map .ofLines) = .ok (beats, e') ∧
      beats.map (·.accepted?) = [some (.lookup 1), some (.lookup 2), none, none] ∧
      Beat.responses beats = [] ∧
      ∃ beats' e'', e'.run ([{ lookup := some 3 }, { clean := true }, {}].map .ofLines) =
          .ok (beats', e'') ∧
        ((Beat.responses beats').take 2).map Response.answer =
          [(1, true, some 10), (2, false, none)] := by
  obtain ⟨⟨before, s⟩, hreach, hrest, hpairs, hstore⟩ := exists_of_toOption_any
    (x := shallowEngine.run ([{ insert := some (1, 10) }, {}, {}, {}].map .ofLines))
    (p := fun r => r.2.atRest = true ∧ r.2.pairs = [(1, 10)] ∧
      [1, 2].map r.2.store.answer = [(1, true, some 10), (2, false, none)])
    (by decide +kernel)
  have h : ofLanes shallowConfig (emptyLanes shallowConfig (fun _ => id) fun _ =>
    shallowConfig.queueDepth) = .ok shallowEngine := rfl
  have hr : shallowEngine.Reaches s := ⟨_, before, hreach⟩
  obtain ⟨beats, e', hrun, hacc, hresp, hdrain⟩ :=
    blocked_lookups_fill_pipeline h hr hrest [1, 2, 3, 4]
  obtain ⟨beats', e'', hrun', hanswers⟩ :=
    hdrain [{ lookup := some 3 }, { clean := true }, {}] (by decide) rfl
  exact ⟨s, beats, e', hr, hpairs, hrun, hacc, hresp, beats', e'', hrun', hanswers.trans hstore⟩

end Engine
end ClockedCuckoo
