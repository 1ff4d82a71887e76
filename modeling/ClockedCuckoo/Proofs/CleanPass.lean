import ClockedCuckoo.Proofs.Outcomes
import ClockedCuckoo.Proofs.Progress

/-! A clean empties one row of every bank in each cycle in which all banks can write. Once it has
gone through the rows, whatever they held before, the engine stands for the empty map. -/

namespace ClockedCuckoo

namespace Drive

def writable (banks : Nat) (d : Drive) : Bool :=
  (List.range banks).all fun t => (d.gates t).write

def writables (banks : Nat) (ds : List Drive) : Nat :=
  ds.countP (writable banks)

theorem writables_cons (banks : Nat) (d : Drive) (ds : List Drive) :
    writables banks (d :: ds) = writables banks ds + (d.writable banks).toNat := by
  rw [writables, writables, List.countP_cons]
  cases d.writable banks <;> rfl

end Drive

namespace Engine

structure Swept (before : Engine) (n : Nat) (e : Engine) : Prop where
  config_eq : e.config = before.config
  accounted : e.Accounted []
  rounds_eq : e.rounds = 0
  count_eq : e.inFlight.count = 0
  slotAt_eq : ∀ t i, e.slotAt t i = if i < n then {} else before.slotAt t i

variable {c : Config} {lanes : List Lane} {before e e' : Engine} {keys : List Key} {lines : Lines}
  {n : Nat} {ds : List Drive}

theorem Built.slotAt_of_rows_le (h : e.Built keys) {i : Nat} (hi : e.config.rows ≤ i) (t : Nat) :
    e.slotAt t i = {} := by
  rw [slotAt]
  split
  · rename_i l hl
    apply Bank.slotAt_eq_of_le
    rw [(h.answers l (List.mem_of_getElem? hl)).size_eq]
    exact hi
  · rfl

section Cycle

theorem Built.cleanTaken_behind (h : e.Built keys) (hp : e.phase = .cleaning) (d : Drive) :
    (e.behind d.gates).cleanTaken = d.writable e.config.banks := by
  have hp' : (e.behind d.gates).phase = .cleaning := hp
  rw [Bool.eq_iff_iff, (h.behind d.gates).cleanTaken_iff hp',
    h.forall_gate_behind d.gates (·.write = true), Drive.writable, List.all_eq_true]
  simp only [List.mem_range]

theorem Accounted.cycle_of_cleaning (h : e.Accounted keys) (hp : e.phase = .cleaning) :
    e.cycle lines = .ok ⟨e.advance lines, .ok {}, e.events lines⟩ := by
  have hf : e.fault? = none := fault?_of_ne (by simp [hp]) (by simp [hp])
  rw [h.cycle_of_no_eviction hf (evicted?_of_ne (by simp [hp])), outputs_of_ne (by simp [hp])]

theorem Accounted.tick_of_cleaning (h : e.Accounted keys) (hp : e.phase = .cleaning) (d : Drive) :
    ∃ o, e.tick d = .ok o ∧ o.result = .ok {} ∧ o.state.Accounted [] ∧
      o.state.config = e.config ∧ o.state.rounds = e.rounds ∧ o.state.inFlight = e.inFlight ∧
      o.state.sweep = e.sweep.step (d.writable e.config.banks) ∧
      o.state.phase =
        (if d.writable e.config.banks && e.sweep.atLast then .idle else .cleaning) ∧
      ∀ t i, o.state.slotAt t i =
        if d.writable e.config.banks ∧ i = e.sweep.row then {} else e.slotAt t i := by
  have ha := h.behind d.gates
  have hp' : (e.behind d.gates).phase = .cleaning := hp
  have hs := sameSlots_behind (e := e) d.gates
  have htaken := h.cleanTaken_behind hp d
  have hadv : (e.behind d.gates).advance d.lines = _ := advance_of_cleaning hp'
  refine ⟨_, ha.cycle_of_cleaning hp', rfl, ?_⟩
  rw [htaken] at hadv
  cases hw : d.writable e.config.banks with
  | false =>
    simp only [hw, Bool.false_eq_true, if_false, Bool.false_and] at hadv ⊢
    rw [hadv, ← hp']
    obtain rfl := h.quiet (.inl hp)
    refine ⟨{ ha with }, rfl, rfl, rfl, rfl, rfl, fun t i => ?_⟩
    simp only [false_and, if_false]
    exact hs.slotAt_eq t i
  | true =>
    simp only [hw, if_true, Bool.true_and] at hadv ⊢
    rw [hadv]
    refine ⟨ha.sweep hp' _, rfl, rfl, rfl, rfl, rfl, fun t i => ?_⟩
    rw [slotAt_swept ha.toBuilt rfl h.row_lt, hs.slotAt_eq]
    simp only [true_and]

end Cycle

theorem Swept.tick (h : Swept before n e) (hp : e.phase = .cleaning) (hrow : e.sweep.row = n)
    (d : Drive) : ∃ o, e.tick d = .ok o ∧ o.result = .ok {} ∧
      Swept before (n + (d.writable before.config.banks).toNat) o.state ∧
      if n + (d.writable before.config.banks).toNat < before.config.rows then
        o.state.phase = .cleaning ∧
          o.state.sweep.row = n + (d.writable before.config.banks).toNat
      else o.state.phase = .idle := by
  obtain ⟨o, ht, hok, ha, hc, hr, hcount, hsweep, hphase, hslot⟩ :=
    h.accounted.tick_of_cleaning hp d
  have hlast : e.sweep.last = before.config.rows - 1 := h.config_eq ▸ h.accounted.last_eq
  have hle := h.accounted.row_le
  have hpos : 0 < before.config.rows := h.config_eq ▸ h.accounted.rows_pos
  rw [h.config_eq] at hsweep hphase hslot
  refine ⟨o, ht, hok, ⟨hc.trans h.config_eq, ha, hr.trans h.rounds_eq, hcount ▸ h.count_eq,
    fun t i => ?_⟩, ?_⟩
  · rw [hslot, h.slotAt_eq, hrow]
    cases d.writable before.config.banks with
    | false => simp
    | true =>
      simp only [true_and, Bool.toNat_true]
      split
      · rw [if_pos (by omega)]
      · split
        · rw [if_pos (by omega)]
        · rw [if_neg (by omega)]
  · rw [hphase, hsweep]
    cases d.writable before.config.banks with
    | false =>
      rw [Bool.toNat_false, Nat.add_zero, if_pos (by omega)]
      exact ⟨rfl, hrow⟩
    | true =>
      simp only [Bool.toNat_true, Bool.true_and, Sweep.step, Sweep.atLast, beq_iff_eq, if_true]
      by_cases hlt : n + 1 < before.config.rows
      · have hne : e.sweep.row ≠ e.sweep.last := by omega
        rw [if_pos hlt, if_neg hne, if_neg hne, hrow]
        exact ⟨rfl, rfl⟩
      · have heq : e.sweep.row = e.sweep.last := by omega
        rw [if_neg hlt, if_pos heq]

theorem Swept.run (h : Swept before n e) (hp : e.phase = .cleaning) (hrow : e.sweep.row = n)
    (hlt : n + Drive.writables before.config.banks ds < before.config.rows) :
    ∃ beats e', e.run ds = .ok (beats, e') ∧ (∀ b ∈ beats, b.result = .ok {}) ∧
      Swept before (n + Drive.writables before.config.banks ds) e' ∧ e'.phase = .cleaning ∧
      e'.sweep.row = n + Drive.writables before.config.banks ds := by
  induction ds generalizing e n with
  | nil => exact ⟨[], e, rfl, by simp, h, hp, hrow⟩
  | cons d ds ih =>
    rw [Drive.writables_cons] at hlt ⊢
    obtain ⟨o, ht, hok, hs, hgo⟩ := h.tick hp hrow d
    rw [if_pos (by omega)] at hgo
    obtain ⟨beats, e', hrun, hall, hrest⟩ := ih hs hgo.1 hgo.2 (by omega)
    rw [Nat.add_assoc, Nat.add_comm (Bool.toNat _)] at hrest
    refine ⟨_, e', run_cons_of_ok ht hrun, ?_, hrest⟩
    intro b hb
    rcases List.mem_cons.1 hb with rfl | hb
    · exact hok
    · exact hall b hb

theorem Swept.run_last (h : Swept before n e) (hp : e.phase = .cleaning) (hrow : e.sweep.row = n)
    {d : Drive} (hds : n + Drive.writables before.config.banks ds + 1 = before.config.rows)
    (hd : d.writable before.config.banks = true) :
    ∃ beats e', e.run (ds ++ [d]) = .ok (beats, e') ∧ (∀ b ∈ beats, b.result = .ok {}) ∧
      Swept before before.config.rows e' ∧ e'.phase = .idle := by
  obtain ⟨beats, e', hrun, hall, hs, hp', hrow'⟩ := h.run hp hrow (Nat.le_of_eq hds)
  obtain ⟨o, ht, hok, hs', hgo⟩ := hs.tick hp' hrow' d
  rw [hd, Bool.toNat_true, hds, if_neg (Nat.lt_irrefl _)] at hgo
  rw [hd, Bool.toNat_true, hds] at hs'
  refine ⟨beats ++ [e'.beat d o], o.state, ?_, fun b hb => ?_, hs', hgo⟩
  · rw [run_snoc, hrun]
    dsimp only
    rw [ht]
  · rcases List.mem_append.1 hb with hb | hb
    · exact hall b hb
    · rw [List.mem_singleton.1 hb]
      exact hok

theorem swept_of_began (h : e.Accounted keys) (hp : e.phase = .idle) (hb : Began e .clean e') :
    Swept e 0 e' ∧ e'.phase = .cleaning ∧ e'.sweep.row = 0 := by
  have hphase : e'.phase = .cleaning := hb.phase_eq
  have hcount := (hb.accounted.busy (by simp [hphase])).1
  refine ⟨⟨hb.config_eq, hb.accounted, hb.rounds_eq, hcount, fun t i => ?_⟩, hphase, ?_⟩
  · rw [if_neg (Nat.not_lt_zero i)]
    exact hb.sameSlots.slotAt_eq t i
  · obtain ⟨lines, gates, -, hm⟩ := hb.move
    have hne : (e.behind gates).phase ≠ .cleaning := fun hc => Phase.noConfusion (hp.symm.trans hc)
    rw [hm.sweep_eq hne]
    exact h.row_eq hne

theorem Swept.ended (h : Swept before before.config.rows e) (hb : before.Built keys)
    (hp : e.phase = .idle) : e.atRest = true ∧ ∀ t i, (e.slotAt t i).valid = false := by
  refine ⟨atRest_eq_true.2 ⟨hp, h.count_eq, ?_⟩, fun t i => ?_⟩
  · have hidle := h.accounted.idle hp
    rw [h.count_eq] at hidle
    simpa using hidle
  · rw [h.slotAt_eq]
    split
    · rfl
    · rw [hb.slotAt_of_rows_le (Nat.not_lt.1 ‹_›)]

theorem Swept.runsTo (h : Swept before before.config.rows e) (hb : before.Built keys)
    (hp : e.phase = .idle) {later : List Drive}
    (hv : ∀ d ∈ later, ∀ t, (d.gates t).visible = true) :
    e.RunsTo later fun beats e' => (∀ b ∈ beats, ∃ out, b.result = .ok out) ∧
      ∃ rest, rest.length = e'.inFlight.count ∧
        Store.expected before.config .empty (Beat.accepted beats) =
          (Beat.responses beats).map Response.answer ++ rest := by
  obtain ⟨hrest, hempty⟩ := h.ended hb hp
  have hf := follows_of_invalid h.accounted hrest hempty
  rw [h.config_eq] at hf
  apply (hf.runsTo h.rounds_eq (h.accounted.sighted h.rounds_eq hv)).mono
  rintro beats e' - ⟨keys', hf'⟩
  refine ⟨hf'.ok, _, ?_, hf'.answers⟩
  rw [List.length_map]
  exact hf'.accounted.length_awaited

/-- Whatever the slots hold, a clean goes on until all banks could write in as many cycles as there
are rows. Each such cycle empties the next row of all banks and no other cycle changes a slot; at the
end nothing is stored or queued, and from there on the engine acts as a map that starts empty. -/
theorem clean_pass_empties (h : ofLanes c lanes = .ok e)
    (hready : ∀ l ∈ lanes, l.bank.hasher.IsTotal ∧ 0 < l.bank.depth ∧ l.bank.results = [])
    {before : List Drive} (hvisible : ∀ d ∈ before, ∀ t, (d.gates t).visible = true)
    {beats₀ : List Beat} {e₀ : Engine} (hrun : e.run before = .ok (beats₀, e₀)) {lines : Lines}
    (hacc : e₀.accepted? lines = some .clean) (gates : Nat → Gate) :
    ∃ o, e₀.tick ⟨lines, gates⟩ = .ok o ∧ o.result = .ok { accepted := some .clean } ∧
      (∀ ds, Drive.writables c.banks ds < c.rows →
        ∃ beats e', o.state.run ds = .ok (beats, e') ∧ (∀ b ∈ beats, b.result = .ok {}) ∧
          e'.phase = .cleaning ∧ e'.sweep.row = Drive.writables c.banks ds ∧
          ∀ t i, e'.slotAt t i =
            if i < Drive.writables c.banks ds then {} else e₀.slotAt t i) ∧
      ∀ ds d, Drive.writables c.banks ds + 1 = c.rows → d.writable c.banks = true →
        ∃ beats e', o.state.run (ds ++ [d]) = .ok (beats, e') ∧
          (∀ b ∈ beats, b.result = .ok {}) ∧
          e'.phase = .idle ∧ e'.sweep.row = 0 ∧ (∀ t i, (e'.slotAt t i).valid = false) ∧
          (∀ l ∈ e'.lanes, l.bank.results = []) ∧
          ∀ later : List Drive, (∀ d ∈ later, ∀ t, (d.gates t).visible = true) →
            e'.RunsTo later fun beats e'' => (∀ b ∈ beats, ∃ out, b.result = .ok out) ∧
              ∃ rest, rest.length = e''.inFlight.count ∧
                Store.expected c .empty (Beat.accepted beats) =
                  (Beat.responses beats).map Response.answer ++ rest := by
  have hstart := accounted_start h hready
  obtain ⟨-, -, -, rfl⟩ := ofLanes_eq_ok h
  obtain ⟨hc, ⟨keys, hk⟩, -⟩ := (hstart.runsTo rfl hvisible).ok hrun
  have hc : e₀.config = c := hc
  subst hc
  obtain ⟨o, ht, hok, hbegan⟩ := hk.tick_of_exclusive hacc rfl gates
  obtain ⟨hswept, hphase, hrow⟩ := swept_of_began hk (accepted?_cases hacc).1 hbegan
  refine ⟨o, ht, hok, fun ds hlt => ?_, fun ds d hds hd => ?_⟩
  · rw [← Nat.zero_add (Drive.writables _ _)] at hlt ⊢
    obtain ⟨beats, e', hrun', hall, hs, hp, hrow'⟩ := hswept.run hphase hrow hlt
    exact ⟨beats, e', hrun', hall, hp, hrow', hs.slotAt_eq⟩
  · rw [← Nat.zero_add (Drive.writables _ _)] at hds
    obtain ⟨beats, e', hrun', hall, hs, hp⟩ := hswept.run_last hphase hrow hds hd
    refine ⟨beats, e', hrun', hall, hp, hs.accounted.row_eq (by simp [hp]),
      (hs.ended hk.toBuilt hp).2, fun l hl => ?_, fun later hlater => ?_⟩
    · exact (hs.accounted.answers l hl).results_eq
    · exact hs.runsTo hk.toBuilt hp hlater

/-- A lookup of the doubly stored key fails, and bank 1 refuses a write in the pass after it. Then the
key can be inserted and looked up again. -/
theorem clean_pass_empties_clash :
    ∃ beats₀ e₀ o beats e', (start smallConfig clashingLanes).run
        ([{ lookup := some 5 }, {}, {}].map .ofLines) = .ok (beats₀, e₀) ∧
      beats₀.getLast?.map (·.result) = some (.error ⟨5, [0, 1]⟩) ∧
      e₀.tick ⟨{ clean := true }, fun _ => {}⟩ = .ok o ∧
      o.state.run ([⟨{}, fun _ => {}⟩, ⟨{ lookup := some 5 }, fun t => { write := t == 0 }⟩] ++
        [⟨{}, fun _ => {}⟩]) = .ok (beats, e') ∧
      e'.phase = .idle ∧ (∀ t i, (e'.slotAt t i).valid = false) ∧
      e'.RunsTo ([{ insert := some (5, 50) }, {}, {}, {}, { lookup := some 5 }, {}, {}].map .ofLines)
        fun beats _ => ∀ b ∈ beats, ∃ out, b.result = .ok out := by
  obtain ⟨beats₀, e₀, hrun, hfault, hacc⟩ : ∃ beats₀ e₀, (start smallConfig clashingLanes).run
      ([{ lookup := some 5 }, {}, {}].map .ofLines) = .ok (beats₀, e₀) ∧
      beats₀.getLast?.map (·.result) = some (.error ⟨5, [0, 1]⟩) ∧
      e₀.accepted? { clean := true } = some .clean := ⟨_, _, rfl, rfl, rfl⟩
  obtain ⟨o, ht, -, -, hend⟩ :=
    clean_pass_empties ofLanes_clashingLanes ready_clashingLanes (visible_ofLines _) hrun hacc
      fun _ => {}
  obtain ⟨beats, e', hrun', -, hp, -, hempty, -, hlater⟩ := hend
    [⟨{}, fun _ => {}⟩, ⟨{ lookup := some 5 }, fun t => { write := t == 0 }⟩] ⟨{}, fun _ => {}⟩
    rfl rfl
  exact ⟨beats₀, e₀, o, beats, e', hrun, hfault, ht, hrun', hp, hempty,
    (hlater _ (visible_ofLines _)).mono fun _ _ _ hok => hok.1⟩

end Engine
end ClockedCuckoo
