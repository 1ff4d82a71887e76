import ClockedCuckoo.Proofs.EvictionWalk

/-! The victims of one insert go round the banks, each one place to the right of the last. An entry
that was written in one round is therefore out of reach in the next. -/

namespace ClockedCuckoo

namespace Beat

def captured? (b : Beat) : Option Choice :=
  match b.result with
  | .ok _ => b.start.decision?
  | .error _ => none

def captured (beats : List Beat) : List Choice :=
  beats.filterMap captured?

/-- The bank one place to the right of the target captured last, or the last bank if none was. -/
def FirstVictim (banks : Nat) (beats : List Beat) (t : Nat) : Prop :=
  match (captured beats).getLast? with
  | none => t = banks - 1
  | some last => ∃ u < banks, last.target = .singleton u banks ∧ t = (u + banks - 1) % banks

end Beat

namespace Engine

variable {c : Config} {lanes : List Lane} {e e' e₀ : Engine} {keys : List Key} {lines : Lines}
  {ds : List Drive} {beats before : List Beat} {o : Outcome Engine Duplicate Outputs}
  {result : Except Duplicate Outputs} {w : Slot} {n t u i : Nat}

section Captured

theorem choice_of_tick {d : Drive} (h : e.tick d = .ok o) :
    o.state.choice = (e.beat d o).captured?.getD e.choice := by
  rcases cycle_eq_ok h with ⟨_, -, rfl⟩ | ⟨-, rfl⟩ <;> rfl

theorem choice_of_run (h : e.run ds = .ok (beats, e')) :
    e'.choice = (Beat.captured beats).getLast?.getD e.choice := by
  induction ds generalizing e beats with
  | nil =>
    cases h
    rfl
  | cons d ds ih =>
    obtain ⟨o, beats', ht, hrun, rfl⟩ := run_cons_eq_ok h
    rw [ih hrun, choice_of_tick ht, Beat.captured, Beat.captured, List.filterMap_cons]
    cases (e.beat d o).captured? with
    | none => rfl
    | some choice =>
      rw [List.getLast?_cons]
      rfl

theorem Accounted.target_of_captured? {d : Drive} {choice : Choice} (h : e.Accounted keys)
    (ht : e.tick d = .ok o) (hc : (e.beat d o).captured? = some choice) :
    ∃ t < e.config.banks, choice.target = .singleton t e.config.banks := by
  have hk := h.behind d.gates
  rcases cycle_eq_ok ht with ⟨_, -, rfl⟩ | ⟨hf, rfl⟩
  · cases hc
  · have hd : (e.behind d.gates).decision? = some choice := hc
    rw [decision?] at hd
    split at hd
    · rename_i hw
      have hp : (e.behind d.gates).phase = .waiting := by simpa using hw
      obtain ⟨ps, hr, rfl⟩ := Option.map_eq_some_iff.1 hd
      have hr' := hk.results?_of_updating (.inl hp) hr
      obtain rfl := Option.some.inj (hr.symm.trans hr')
      have hs := hk.singleHit_of_no_fault (by simp [usesResults, hp]) hf hr'
      exact hk.names.next hs (hk.length_reads _) hk.valid.banks_pos hk.banks_le
    · cases hd

end Captured

structure Rotating (e : Engine) (t₀ : Nat) (first : Slot) : Prop where
  updating : e.Updating
  origin_eq : e.staging.origin = .insert
  aims : ∃ t < e.config.banks,
    (t : Int) = ((t₀ : Int) - e.rounds) % e.config.banks ∧ e.Aims t
  first_eq : e.rounds = 0 → e.staging.slot = first

/-- The staged entry and the one in its slot of bank `t` change places; no other slot changes. -/
structure Swaps (e : Engine) (t : Nat) (e' : Engine) : Prop where
  slotAt_eq : ∀ s i, e'.slotAt s i =
    if s = t ∧ i = e.home t e.staging.key then e.staging.slot else e.slotAt s i
  staged_eq : e'.staging.slot = e.slotAt t (e.home t e.staging.key)
  valid : e.staging.valid = true ∧ e'.staging.valid = true
  key_ne : e.staging.key ≠ e'.staging.key

theorem pred_mod_ne {banks t : Nat} (htwo : 2 ≤ banks) (ht : t < banks) :
    (t + banks - 1) % banks ≠ t := by
  cases t with
  | zero =>
    rw [Nat.mod_eq_of_lt (by omega)]
    omega
  | succ t =>
    rw [show t + 1 + banks - 1 = t + banks by omega, Nat.add_mod_right,
      Nat.mod_eq_of_lt (by omega)]
    omega

namespace Move

theorem updating_of_rounds (hm : Move e lines e' result) (hr : e'.rounds = e.rounds + 1) :
    e.Updating := by
  cases hm with
  | evict r t hp _ _ _ _ _ => exact .inr (.inr hp)
  | serve r _ _ =>
    simp only [served] at hr
    split at hr <;> omega
  | _ => exact absurd hr (by simp)

theorem staging_eq (hm : Move e lines e' result) (hup : e.Updating) (hup' : e'.Updating)
    (hr : e'.rounds = e.rounds) : e'.staging = e.staging := by
  cases hm with
  | serve r hp _ | refuse r d hp _ => exact absurd hp hup.not_idle
  | abort r d _ _ => exact absurd rfl hup'.not_idle
  | evict r t _ _ _ _ _ _ => exact absurd hr (by simp)
  | _ => rfl

theorem swaps (hm : Move e lines e' result) (h : e.Accounted keys) (ht : t < e.config.banks)
    (ha : e.Aims t) (hr : e'.rounds = e.rounds + 1) : Swaps e t e' := by
  have hup := hm.updating_of_rounds hr
  cases hm with
  | evict r s hp ho hmiss hs hfull hc =>
    obtain rfl := ha.eq_of_target h hp hmiss hfull ht hs hc
    have hold : (e.slotAt s (e.home s e.staging.key)).valid = true := hfull s hs
    refine ⟨slotAt_overwritten h.toBuilt rfl hs, ?_, ⟨h.staged_valid (.inr (.inr hp)) ho, rfl⟩,
      fun hkey => ?_⟩
    · show Slot.mk _ _ true = _
      rw [← hold]
      rfl
    · have hfound : (e.readAt s e.staging.key).found = true := found_readAt.2 ⟨hold, hkey.symm⟩
      rw [hmiss s hs] at hfound
      cases hfound
  | serve r hp _ => exact absurd hp hup.not_idle
  | _ => exact absurd hr (by simp)

theorem rotating {t₀ : Nat} {first : Slot} (hm : Move e lines e' result) (h : e.Accounted keys)
    (hr : e.Rotating t₀ first) (hgo : e'.phase ≠ e.phase) :
    e'.phase = .idle ∨ e'.Rotating t₀ first := by
  obtain ⟨t, ht, hmod, ha⟩ := hr.aims
  rcases hm.clock hr.updating hgo with ⟨hup, ho, -⟩ | ⟨hidle, -⟩
  · rcases hm.aims_or_evicts h hr.updating hup ht ha with ⟨-, -, hrounds, ha'⟩ | ⟨hev, ha'⟩
    · refine .inr ⟨hup, ho.trans hr.origin_eq, ?_, fun hzero => ?_⟩
      · rw [hm.config_eq, hrounds]
        exact ⟨t, ht, hmod, ha'⟩
      · rw [hm.staging_eq hr.updating hup hrounds]
        exact hr.first_eq (hrounds ▸ hzero)
    · refine .inr ⟨hup, ho.trans hr.origin_eq, ?_, fun hzero => ?_⟩
      · rw [hm.config_eq, hev.rounds_eq]
        exact ⟨_, Nat.mod_lt _ h.valid.banks_pos, LaneSet.cast_pred_mod h.valid.banks_pos hmod, ha'⟩
      · rw [hev.rounds_eq] at hzero
        cases hzero
  · exact .inl hidle

theorem slotAt_eq_of_apart (hm : Move e lines e' result) (h : e.Accounted keys)
    (hup : e.Updating) (hu : u < e.config.banks) (ha : e.Aims u) (hne : u ≠ t)
    (hv : (e.slotAt t i).valid = true) (hkey : (e.slotAt t i).key ≠ e.staging.key) :
    e'.slotAt t i = e.slotAt t i := by
  cases hm with
  | serve r hp _ | refuse r d hp _ => exact absurd hp hup.not_idle
  | sweep r hp _ => exact absurd hp hup.not_cleaning
  | hold r _ | choose r _ _ => exact (sameSlots_of_lanes_eq rfl).slotAt_eq t i
  | probe r _ _ | abort r d _ _ | miss r _ _ _ =>
    exact (sameSlots_of_lanes_map rfl rfl).slotAt_eq t i
  | update r s _ hs hhit =>
    rw [slotAt_overwritten h.toBuilt rfl hs, if_neg]
    rintro ⟨rfl, rfl⟩
    exact hkey (found_readAt.1 hhit).2
  | fill r s _ _ _ hs hfree _ =>
    rw [slotAt_overwritten h.toBuilt rfl hs, if_neg]
    rintro ⟨rfl, rfl⟩
    exact Bool.false_ne_true (hfree.symm.trans hv)
  | evict r s hp _ hmiss hs hfull hc =>
    rw [slotAt_overwritten h.toBuilt rfl hs, if_neg]
    rintro ⟨rfl, -⟩
    exact hne (ha.eq_of_target h hp hmiss hfull hu hs hc).symm

end Move

/-- The entry `w` is in slot `i` of bank `t`, out of reach of round `n`. -/
structure Guards (e : Engine) (n t i : Nat) (w : Slot) : Prop where
  accounted : ∃ keys, e.Accounted keys
  slot_eq : e.slotAt t i = w
  apart : e.phase ≠ .idle → e.rounds = n →
    e.Updating ∧ w.key ≠ e.staging.key ∧ ∃ u < e.config.banks, u ≠ t ∧ e.Aims u

namespace Guards

theorem behind (h : e.Guards n t i w) (gates : Nat → Gate) : (e.behind gates).Guards n t i w where
  accounted := by
    obtain ⟨keys, hk⟩ := h.accounted
    exact ⟨keys, hk.behind gates⟩
  slot_eq := ((sameSlots_behind gates).slotAt_eq t i).trans h.slot_eq
  apart hp hn := by
    obtain ⟨hup, hkey, u, hu, hne, ha⟩ := h.apart hp hn
    exact ⟨hup, hkey, u, hu, hne, ha.behind gates⟩

theorem move (h : e.Guards n t i w) (hv : w.valid = true) (hm : Move e lines e' result)
    (hgo : e.Updating → e'.phase ≠ e.phase) (hp : e.phase ≠ .idle) (hn : e.rounds = n) :
    e'.Guards n t i w := by
  obtain ⟨keys, hk⟩ := h.accounted
  obtain ⟨hup, hkey, u, hu, hne, ha⟩ := h.apart hp hn
  obtain ⟨keys', hk', -⟩ := hm.accounted hk
  have hslot : e'.slotAt t i = e.slotAt t i := by
    apply hm.slotAt_eq_of_apart hk hup hu ha hne
    · rw [h.slot_eq]
      exact hv
    · rw [h.slot_eq]
      exact hkey
  refine ⟨⟨keys', hk'⟩, hslot.trans h.slot_eq, fun hp' hn' => ?_⟩
  -- A further eviction ends round `n`: only within it does the target have to stay apart.
  rcases hm.clock hup (hgo hup) with ⟨hup', -⟩ | ⟨hidle, -⟩
  · rcases hm.aims_or_evicts hk hup hup' hu ha with ⟨-, hstaged, -, ha'⟩ | ⟨hev, -⟩
    · exact ⟨hup', hstaged ▸ hkey, u, hm.config_eq ▸ hu, hne, ha'⟩
    · have hrounds := hev.rounds_eq
      omega
  · exact absurd hidle hp'

theorem run (h : e.Guards n t i w) (hv : w.valid = true) {ls : List Lines}
    (hrun : e.run (ls.map .ofLines) = .ok (beats, e'))
    (hround : ∀ b ∈ beats, b.start.phase ≠ .idle ∧ b.start.rounds = n) :
    e'.slotAt t i = w := by
  induction ls generalizing e beats with
  | nil =>
    cases hrun
    exact h.slot_eq
  | cons l ls ih =>
    obtain ⟨o, beats', ht, hrest, rfl⟩ := run_cons_eq_ok hrun
    obtain ⟨⟨hp, hn⟩, hround'⟩ := List.forall_mem_cons.1 hround
    obtain ⟨keys, hk⟩ := h.accounted
    obtain ⟨hm, hgo⟩ := hk.move_of_tick ht
    exact ih ((h.behind _).move hv hm hgo hp hn) hrest hround'

end Guards

theorem Swaps.of_sameSlots (h : Swaps e t e') (hs : SameSlots e₀ e)
    (hst : e.staging = e₀.staging) : Swaps e₀ t e' where
  slotAt_eq s i := by rw [h.slotAt_eq, hs.slotAt_eq, hs.home_eq, hst]
  staged_eq := by rw [h.staged_eq, hs.slotAt_eq, hs.home_eq, hst]
  valid := hst ▸ h.valid
  key_ne := hst ▸ h.key_ne

theorem Move.guards (hm : Move e lines e' result) (h : e.Accounted keys)
    (hgo : e.Updating → e'.phase ≠ e.phase) (htwo : 2 ≤ e.config.banks) (ht : t < e.config.banks)
    (ha : e.Aims t) (hr : e'.rounds = e.rounds + 1) :
    e'.Guards e'.rounds t (e.home t e.staging.key) e.staging.slot := by
  have hup := hm.updating_of_rounds hr
  have hswaps := hm.swaps h ht ha hr
  obtain ⟨keys', hk', -⟩ := hm.accounted h
  refine ⟨⟨keys', hk'⟩, ?_, fun _ _ => ?_⟩
  · rw [hswaps.slotAt_eq, if_pos ⟨rfl, rfl⟩]
  · rcases hm.clock hup (hgo hup) with ⟨hup', -⟩ | ⟨-, hsame, -⟩
    · rcases hm.aims_or_evicts h hup hup' ht ha with ⟨-, -, hsame, -⟩ | ⟨-, ha'⟩
      · exact absurd (hr.symm.trans hsame) (Nat.succ_ne_self _)
      · refine ⟨hup', hswaps.key_ne, _, ?_, pred_mod_ne htwo ht, ha'⟩
        rw [hm.config_eq]
        exact Nat.mod_lt _ h.valid.banks_pos
    · exact absurd (hr.symm.trans hsame) (Nat.succ_ne_self _)

theorem Accounted.target_of_mem_captured (h : e.Accounted []) (hzero : e.rounds = 0)
    (hv : ∀ d ∈ ds, ∀ t, (d.gates t).visible = true) (hrun : e.run ds = .ok (before, e₀))
    {choice : Choice} (hmem : choice ∈ Beat.captured before) :
    ∃ t < e.config.banks, choice.target = .singleton t e.config.banks := by
  obtain ⟨b, hb, hc⟩ := List.mem_filterMap.1 hmem
  obtain ⟨pre, d, post, before', e', o, rfl, hpre, ht, rfl⟩ := exists_of_mem_run hrun hb
  have hv' : ∀ d ∈ pre, ∀ t, (d.gates t).visible = true := fun d hd => hv d (by simp [hd])
  obtain ⟨hconfig, ⟨keys, hk⟩, -⟩ := (h.runsTo hzero hv').ok hpre
  rw [← hconfig]
  exact hk.target_of_captured? ht hc

theorem Accounted.exists_firstVictim (h : e.Accounted []) (hzero : e.rounds = 0)
    (hinitial : e.choice = .initial e.config.banks)
    (hv : ∀ d ∈ ds, ∀ t, (d.gates t).visible = true) (hrun : e.run ds = .ok (before, e₀)) :
    ∃ t < e.config.banks, Beat.FirstVictim e.config.banks before t ∧
      e₀.choice.victim = .singleton t e.config.banks := by
  have hpos := h.valid.banks_pos
  have hchoice := choice_of_run hrun
  unfold Beat.FirstVictim
  cases hl : (Beat.captured before).getLast? with
  | none =>
    refine ⟨e.config.banks - 1, by omega, rfl, ?_⟩
    rw [hchoice, hl, hinitial]
    rfl
  | some last =>
    obtain ⟨u, hu, htarget⟩ := h.target_of_mem_captured hzero hv hrun (List.mem_of_getLast? hl)
    refine ⟨_, Nat.mod_lt _ hpos, ⟨u, hu, htarget, rfl⟩, ?_⟩
    rw [hchoice, hl]
    exact Choice.victim_of_target hu h.banks_le htarget

theorem Began.rotating {key : Key} {data : Data} (hb : Began e₀ (.insert key data) e) {t₀ : Nat}
    (ht : t₀ < e₀.config.banks) (hvictim : e₀.choice.victim = .singleton t₀ e₀.config.banks) :
    e.Rotating t₀ ⟨key &&& e₀.config.keyMask, data &&& e₀.config.dataMask, true⟩ where
  updating := .inl hb.phase_eq
  origin_eq := by
    rw [hb.staging_eq]
    rfl
  aims := by
    rw [hb.config_eq, hb.rounds_eq]
    refine ⟨t₀, ht, ?_, fun _ => ?_, fun hw => ?_⟩
    · rw [Int.natCast_zero, Int.sub_zero, ← Int.natCast_emod, Nat.mod_eq_of_lt ht]
    · rw [hb.choice_eq, hb.config_eq]
      exact hvictim
    · rw [hb.phase_eq] at hw
      cases hw
  first_eq _ := by
    rw [hb.staging_eq]
    rfl

theorem Rotating.behind {t₀ : Nat} {first : Slot} (h : e.Rotating t₀ first)
    (gates : Nat → Gate) : (e.behind gates).Rotating t₀ first where
  updating := h.updating
  origin_eq := h.origin_eq
  aims := by
    obtain ⟨t, ht, hmod, ha⟩ := h.aims
    exact ⟨t, ht, hmod, ha.behind gates⟩
  first_eq := h.first_eq

theorem Accounted.runsTo_rotating (h : e₀.Accounted keys) {key : Key} {data : Data}
    (hacc : e₀.accepted? lines = some (.insert key data)) {t₀ : Nat} (ht : t₀ < e₀.config.banks)
    (hvictim : e₀.choice.victim = .singleton t₀ e₀.config.banks) (after : List Lines) :
    e₀.RunsTo ((lines :: after).map .ofLines) fun beats e =>
      e.config = e₀.config ∧ (∃ keys, e.Accounted keys) ∧
        ((∀ b ∈ beats.tail, b.start.phase ≠ .idle) → e.phase = .idle ∨ e.Rotating t₀
          ⟨key &&& e₀.config.keyMask, data &&& e₀.config.dataMask, true⟩) := by
  refine h.runsTo_began (p := fun beats e => e.config = e₀.config ∧ (∃ keys, e.Accounted keys) ∧
    ((∀ b ∈ beats, b.start.phase ≠ .idle) → e.phase = .idle ∨ e.Rotating t₀ _)) hacc rfl ?_ ?_ ?_
    after
  · exact fun e hb => ⟨hb.config_eq, ⟨[], hb.accounted⟩, fun _ => .inr (hb.rotating ht hvictim)⟩
  · exact fun _ _ hp => hp.2.1
  · rintro beats e l o ⟨hc, ⟨keys, hk⟩, hr⟩ hm hgo
    have hk := hk.behind (Drive.ofLines l).gates
    obtain ⟨keys', hk', -⟩ := hm.accounted hk
    refine ⟨hm.config_eq.trans hc, ⟨keys', hk'⟩, fun hbusy => ?_⟩
    rw [List.forall_mem_append, List.forall_mem_singleton] at hbusy
    have hrotating := (hr hbusy.1).resolve_left hbusy.2
    exact hm.rotating hk (hrotating.behind _) (hgo hrotating.updating)

/-- Whatever the slots hold, the entry that an insert writes in eviction round `i` goes to the bank `i`
places to the right of the first victim, and the one in its slot there is staged for the next round.
Between two banks or more that round does not reach the entry written. -/
theorem victims_go_round (h : ofLanes c lanes = .ok e)
    (hready : ∀ l ∈ lanes, l.bank.hasher.IsTotal ∧ 0 < l.bank.depth ∧ l.bank.results = [])
    {ls : List Lines} (hrun₀ : e.run (ls.map .ofLines) = .ok (before, e₀)) {key : Key} {data : Data}
    (hacc : e₀.accepted? lines = some (.insert key data)) :
    ∃ t₀ < c.banks, Beat.FirstVictim c.banks before t₀ ∧
      ∀ after beats e₁, e₀.run ((lines :: after).map .ofLines) = .ok (beats, e₁) →
        (∀ b ∈ beats.tail, b.start.phase ≠ .idle) →
        ∀ l o, e₁.tick (.ofLines l) = .ok o → o.state.rounds = e₁.rounds + 1 →
          (e₁.rounds = 0 → e₁.staging.slot = ⟨key &&& c.keyMask, data &&& c.dataMask, true⟩) ∧
          ∃ t < c.banks, (t : Int) = ((t₀ : Int) - e₁.rounds) % c.banks ∧ Swaps e₁ t o.state ∧
            (2 ≤ c.banks → ∀ (later : List Lines) beats' e₂,
              o.state.run (later.map .ofLines) = .ok (beats', e₂) →
              (∀ b ∈ beats', b.start.phase ≠ .idle ∧ b.start.rounds = o.state.rounds) →
              e₂.slotAt t (e₁.home t e₁.staging.key) = e₁.staging.slot) := by
  have hstart := accounted_start h hready
  obtain ⟨-, -, -, rfl⟩ := ofLanes_eq_ok h
  obtain ⟨hc, keys, hk⟩ := Reaches.accounted ⟨ls, before, hrun₀⟩ hstart rfl
  obtain ⟨t₀, ht₀, hfirst, hvictim⟩ :=
    hstart.exists_firstVictim rfl rfl (visible_ofLines ls) hrun₀
  refine ⟨t₀, ht₀, hfirst, fun after beats e₁ hrun hbusy l o ho hrounds => ?_⟩
  obtain ⟨hc₁, ⟨keys₁, hk₁⟩, hr⟩ :=
    (hk.runsTo_rotating hacc (hc ▸ ht₀) (hc ▸ hvictim) after).ok hrun
  have hconfig : e₁.config = c := hc₁.trans hc
  obtain ⟨hm, hgo⟩ := hk₁.move_of_tick ho
  have hup : e₁.Updating := hm.updating_of_rounds hrounds
  have hrotating := (hr hbusy).resolve_left hup.not_idle
  obtain ⟨t, ht, hmod, ha⟩ := hrotating.aims
  have hb₁ := hk₁.behind (Drive.ofLines l).gates
  have hswaps := hm.swaps hb₁ ht (ha.behind _) hrounds
  have hsame := sameSlots_behind (e := e₁) (Drive.ofLines l).gates
  refine ⟨fun hzero => ?_, t, hconfig ▸ ht, hconfig ▸ hmod, hswaps.of_sameSlots hsame rfl,
    fun htwo later beats' e₂ hrun' hround => ?_⟩
  · rw [hrotating.first_eq hzero, hc]
    rfl
  · have hguards := hm.guards hb₁ hgo (hconfig.symm ▸ htwo) ht (ha.behind _) hrounds
    rw [hsame.home_eq] at hguards
    exact hguards.run hswaps.valid.1 hrun' hround

def tripleConfig : Config where
  capacity := 3
  banks := 3
  keyWidth := 8
  dataWidth := 8
  maxOverlap := 4

def tripleLanes : List Lane :=
  [{ bank := ⟨#[⟨1, 10, true⟩], .ofFunction id, 1, []⟩ },
    { bank := ⟨#[⟨2, 20, true⟩], .ofFunction id, 1, []⟩ },
    { bank := ⟨#[⟨3, 30, true⟩], .ofFunction id, 1, []⟩ }]

/-- New data for the key 2 make bank 1 the last target. The key 4 goes to bank 0, the key 1 from there
to bank 2, and the key 3 from there to bank 1, where the round after that leaves it. -/
theorem victims_go_round_triple :
    ∃ before e₀ beats e₁ o beats' e₂,
      (start tripleConfig tripleLanes).run
        ([{ insert := some (2, 21) }, {}, {}, {}].map .ofLines) = .ok (before, e₀) ∧
      Beat.FirstVictim 3 before 0 ∧
      e₀.run ([{ insert := some (4, 40) }, {}, {}, {}, {}, {}, {}, {}, {}].map .ofLines) =
        .ok (beats, e₁) ∧
      e₁.rounds = 2 ∧ e₁.staging.slot = ⟨3, 30, true⟩ ∧
      e₁.tick (.ofLines {}) = .ok o ∧ Swaps e₁ 1 o.state ∧ o.state.staging.slot = ⟨2, 21, true⟩ ∧
      o.state.run ([{}, {}, {}].map .ofLines) = .ok (beats', e₂) ∧ e₂.rounds = 4 ∧
      e₂.slotAt 1 0 = ⟨3, 30, true⟩ := by
  have h : ofLanes tripleConfig tripleLanes = .ok (start tripleConfig tripleLanes) := rfl
  have hready : ∀ l ∈ tripleLanes,
      l.bank.hasher.IsTotal ∧ 0 < l.bank.depth ∧ l.bank.results = [] := by
    simp [tripleLanes, Hash.Hasher.isTotal_ofFunction]
  obtain ⟨before, e₀, beats, e₁, o, beats', e₂, hrun₀, hacc, hlast, hrun, hbusy, hrounds, hstaged,
      hhome, ho, hnext, hstaged', hrun', hround, hrounds'⟩ :
      ∃ before e₀ beats e₁ o beats' e₂,
        (start tripleConfig tripleLanes).run
          ([{ insert := some (2, 21) }, {}, {}, {}].map .ofLines) = .ok (before, e₀) ∧
        e₀.accepted? { insert := some (4, 40) } = some (.insert 4 40) ∧
        (Beat.captured before).getLast? = some ⟨.singleton 1 3, true, true⟩ ∧
        e₀.run ([{ insert := some (4, 40) }, {}, {}, {}, {}, {}, {}, {}, {}].map .ofLines) =
          .ok (beats, e₁) ∧
        beats.tail.map (·.start.phase.isIdle) = List.replicate 8 false ∧
        e₁.rounds = 2 ∧ e₁.staging.slot = ⟨3, 30, true⟩ ∧ e₁.home 1 3 = 0 ∧
        e₁.tick (.ofLines {}) = .ok o ∧ o.state.rounds = 3 ∧
        o.state.staging.slot = ⟨2, 21, true⟩ ∧
        o.state.run ([{}, {}, {}].map .ofLines) = .ok (beats', e₂) ∧
        beats'.map (fun b => (b.start.phase.isIdle, b.start.rounds)) =
          List.replicate 3 (false, 3) ∧
        e₂.rounds = 4 :=
    ⟨_, _, _, _, _, _, _, rfl, rfl, rfl, rfl, rfl, rfl, rfl, rfl, rfl, rfl, rfl, rfl, rfl, rfl⟩
  have hbusy' : ∀ b ∈ beats.tail, b.start.phase ≠ .idle := by
    intro b hb
    have hmem := List.mem_map_of_mem (f := (·.start.phase.isIdle)) hb
    rw [hbusy] at hmem
    exact Phase.isIdle_eq_false.1 (List.eq_of_mem_replicate hmem)
  have hround' : ∀ b ∈ beats', b.start.phase ≠ .idle ∧ b.start.rounds = o.state.rounds := by
    intro b hb
    have hmem := List.mem_map_of_mem (f := fun b => (b.start.phase.isIdle, b.start.rounds)) hb
    rw [hround] at hmem
    have hpair := List.eq_of_mem_replicate hmem
    exact ⟨Phase.isIdle_eq_false.1 (congrArg Prod.fst hpair),
      (congrArg Prod.snd hpair).trans hnext.symm⟩
  obtain ⟨t₀, ht₀, hfirst, hevicts⟩ := victims_go_round h hready hrun₀ hacc
  obtain rfl : t₀ = 0 := by
    have hlastVictim := hfirst
    unfold Beat.FirstVictim at hlastVictim
    rw [hlast] at hlastVictim
    obtain ⟨u, hu, htarget, rfl⟩ := hlastVictim
    obtain rfl : 1 = u := LaneSet.singleton_inj (by decide) hu (by decide) htarget
    rfl
  obtain ⟨-, t, ht, hmod, hswaps, hkept⟩ :=
    hevicts _ beats e₁ hrun hbusy' {} o ho (by rw [hnext, hrounds])
  obtain rfl : t = 1 := by
    rw [hrounds] at hmod
    exact Int.natCast_inj.1 hmod
  have hslot := hkept (by decide) _ beats' e₂ hrun' hround'
  rw [show e₁.staging.key = 3 from congrArg Slot.key hstaged, hhome, hstaged] at hslot
  exact ⟨before, e₀, beats, e₁, o, beats', e₂, hrun₀, hfirst, hrun, hrounds, hstaged, ho, hswaps,
    hstaged', hrun', hrounds', hslot⟩

end Engine
end ClockedCuckoo
