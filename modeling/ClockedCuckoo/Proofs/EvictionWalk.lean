import Mathlib.Data.Finset.Card
import ClockedCuckoo.Proofs.Inserting

/-! Between two banks an insert ends if its keys fit at all. Against a placement of the keys, an insert
that goes the wrong way pushes keys out of their banks one after the other, until it comes back or meets
a key that has strayed before; from there on each eviction brings a key home. -/

namespace ClockedCuckoo

namespace Engine

structure Aims (e : Engine) (t : Nat) : Prop where
  early : e.phase ≠ .writing → e.choice.victim = .singleton t e.config.banks
  late : e.phase = .writing → e.Misses e.staging.key →
    (∀ s < e.lanes.length, (e.readAt s e.staging.key).occupied = true) →
    e.choice.target = .singleton t e.config.banks

structure Evicts (e : Engine) (t : Nat) (e' : Engine) : Prop where
  misses : e.Misses e.staging.key
  full : ∀ s < e.lanes.length, (e.readAt s e.staging.key).occupied = true
  lanes_eq : e'.lanes = e.overwritten t
  staged_eq : e'.staging.key = (e.readAt t e.staging.key).slot.key
  rounds_eq : e'.rounds = e.rounds + 1

variable {c : Config} {e e' e₀ : Engine} {keys ks : List Key} {lines : Lines} {m : Store}
  {bank : Key → Nat} {k : Key} {n s t : Nat}

theorem Aims.eq_of_target (ha : e.Aims t) (h : e.Accounted keys) (hp : e.phase = .writing)
    (hmiss : e.Misses e.staging.key)
    (hfull : ∀ s < e.lanes.length, (e.readAt s e.staging.key).occupied = true)
    (ht : t < e.config.banks) (hs : s < e.lanes.length)
    (hc : e.choice.target = .singleton s e.config.banks) : s = t :=
  LaneSet.singleton_inj (h.lanes_length ▸ hs) ht h.banks_le
    (hc.symm.trans (ha.late hp hmiss hfull))

/-- Within an insert only the last cycle of a round moves an entry, and it turns the aim on. -/
theorem Move.aims_or_evicts {result : Except Duplicate Outputs} (hm : Move e lines e' result)
    (h : e.Accounted keys) (hup : e.Updating) (hup' : e'.Updating) (ht : t < e.config.banks)
    (ha : e.Aims t) :
    (SameSlots e e' ∧ e'.staging.key = e.staging.key ∧ e'.rounds = e.rounds ∧ e'.Aims t) ∨
    (Evicts e t e' ∧ e'.Aims ((t + e.config.banks - 1) % e.config.banks)) := by
  cases hm with
  | serve r hp _ | refuse r d hp _ => exact absurd hp hup.not_idle
  | sweep r hp _ => exact absurd hp hup.not_cleaning
  | hold r hp => exact .inl ⟨sameSlots_of_lanes_eq rfl, rfl, rfl, ha.early, ha.late⟩
  | probe r hp _ =>
    refine .inl ⟨sameSlots_of_lanes_map rfl rfl, rfl, rfl, fun _ => ha.early (by simp [hp]), ?_⟩
    intro hw
    cases hw
  | choose r hp hs =>
    refine .inl ⟨sameSlots_of_lanes_eq rfl, rfl, rfl, fun hne => absurd rfl hne, ?_⟩
    intro _ (hmiss : e.Misses e.staging.key)
      (hfull : ∀ s < e.lanes.length, (e.readAt s e.staging.key).occupied = true)
    have hlen := h.length_reads e.staging.key
    rcases Choice.next_cases h.names.width_eq hs hlen h.banks_le with
      ⟨i, p, hi, hf, -⟩ | ⟨-, i, p, hi, hfree, -⟩ | ⟨-, -, hnext⟩
    · obtain ⟨hlt, rfl⟩ := eq_readAt_of_getElem? hi
      rw [hmiss i hlt] at hf
      cases hf
    · obtain ⟨hlt, rfl⟩ := eq_readAt_of_getElem? hi
      rw [hfull i hlt] at hfree
      cases hfree
    · exact (congrArg Choice.target hnext).trans (ha.early (by simp [hp]))
  | abort r d _ _ | update r t _ _ _ | fill r t _ _ _ _ _ _ | miss r _ _ _ =>
    exact absurd rfl hup'.not_idle
  | evict r u hp _ hmiss hu hfull hc =>
    obtain rfl : u = t := ha.eq_of_target h hp hmiss hfull ht hu hc
    refine .inr ⟨⟨hmiss, hfull, rfl, rfl, rfl⟩, fun _ => ?_, ?_⟩
    · exact Choice.victim_of_target ht h.banks_le hc
    · intro hw
      cases hw

/-- The keys found in the bank that is not theirs, of two. -/
def strayed (e : Engine) (bank : Key → Nat) (ks : List Key) : Finset Key :=
  ks.toFinset.filter fun k => (e.readAt (1 - bank k) k).found = true

theorem mem_strayed :
    k ∈ e.strayed bank ks ↔ k ∈ ks ∧ (e.readAt (1 - bank k) k).found = true := by
  rw [strayed, Finset.mem_filter, List.mem_toFinset]

theorem SameSlots.strayed_eq (h : SameSlots e e') : e'.strayed bank ks = e.strayed bank ks := by
  simp only [strayed, h.readAt_eq]

theorem card_strayed_le : (e.strayed bank ks).card ≤ e.storedKeys.length := by
  refine (Finset.card_le_card fun k hk => ?_).trans (List.toFinset_card_le _)
  exact List.mem_toFinset.2 (mem_storedKeys_of_found (mem_strayed.1 hk).2)

theorem not_mem_strayed (h : e.Misses k) : k ∉ e.strayed bank ks := by
  rw [mem_strayed, misses_iff.1 h]
  exact fun hk => Bool.false_ne_true hk.2

theorem card_strayed_lt (hk : k ∈ ks) (hmiss : e.Misses k) :
    (e.strayed bank ks).card < ks.length := by
  refine Nat.lt_of_lt_of_le (Finset.card_lt_card ⟨Finset.filter_subset _ _, fun hsub => ?_⟩)
    (List.toFinset_card_le ks)
  exact not_mem_strayed hmiss (hsub (List.mem_toFinset.2 hk))

theorem Placed.mem_strayed_iff (h : e.Placed) (hk : k ∈ ks) (hlt : bank k < 2) (ht : t < 2)
    (hf : (e.readAt t k).found = true) : k ∈ e.strayed bank ks ↔ bank k ≠ t := by
  rw [mem_strayed, and_iff_right hk]
  constructor
  · intro hother
    have hsame := h.unique k _ _ hother hf
    omega
  · intro hne
    rwa [show 1 - bank k = t by omega]

namespace Evicts

variable (h : Evicts e t e') (hb : e.Built keys) (hs : e.Placed) (hv : e.staging.valid = true)
  (ht : t < e.lanes.length)

include h hs ht in
theorem found_evicted : (e.readAt t e'.staging.key).found = true := by
  rw [h.staged_eq]
  exact hs.found_of_valid (h.full t ht)

include h hb hs hv ht

theorem found_iff : (e'.readAt s k).found = true ↔
    (s = t ∧ k = e.staging.key) ∨ ((e.readAt s k).found = true ∧ k ≠ e'.staging.key) := by
  have hhome : e.home t e'.staging.key = e.home t e.staging.key := by
    rw [h.staged_eq]
    exact (hs.home_eq t _ (h.full t ht)).symm
  constructor
  · intro hf
    rcases Placed.found_overwritten hb h.lanes_eq ht hf with ⟨rfl, rfl, -⟩ | ⟨hne, hold, -⟩
    · exact .inl ⟨rfl, rfl⟩
    · refine .inr ⟨hold, ?_⟩
      rintro rfl
      exact hne ⟨hs.unique _ s t hold (h.found_evicted hs ht), hhome⟩
  · intro hkept
    rw [found_readAt, home_overwritten h.lanes_eq, slotAt_overwritten hb h.lanes_eq ht]
    rcases hkept with ⟨rfl, rfl⟩ | ⟨hf, hne⟩
    · rw [if_pos ⟨rfl, rfl⟩]
      exact ⟨hv, rfl⟩
    · rw [found_readAt] at hf
      rw [if_neg]
      · exact hf
      · rintro ⟨rfl, hsame⟩
        rw [hsame] at hf
        exact hne (hf.2.symm.trans h.staged_eq.symm)

theorem strayed_eq (hx : e.staging.key ∈ ks) (hlt : bank e.staging.key < 2) (ht2 : t < 2) :
    e'.strayed bank ks =
      if bank e.staging.key = t then (e.strayed bank ks).erase e'.staging.key
      else insert e.staging.key ((e.strayed bank ks).erase e'.staging.key) := by
  ext k
  rw [mem_strayed, h.found_iff hb hs hv ht]
  split
  · rename_i hright
    rw [Finset.mem_erase, mem_strayed]
    have hnot : ¬(1 - bank k = t ∧ k = e.staging.key) := by
      rintro ⟨hbank, rfl⟩
      omega
    rw [or_iff_right hnot]
    tauto
  · rename_i hwrong
    have hstaged : k = e.staging.key → 1 - bank k = t := by
      rintro rfl
      omega
    rw [Finset.mem_insert, Finset.mem_erase, mem_strayed, and_iff_right_of_imp hstaged]
    constructor
    · tauto
    · rintro (rfl | hold)
      · exact ⟨hx, .inl rfl⟩
      · tauto

end Evicts

/-- Where a walk among `n + 1` keys stands that goes on to bank `t`. -/
inductive OnCourse (e : Engine) (bank : Key → Nat) (ks : List Key) (n t : Nat) : Prop
  /-- No key has strayed, so the staged key will find its slot free. -/
  | unbegun (hr : e.rounds = 0) (hs : e.strayed bank ks = ∅)
  /-- The staged key goes to its bank, and each round brings a key home. -/
  | homeward (ht : bank e.staging.key = t) (hle : e.rounds + (e.strayed bank ks).card ≤ 2 * n)
  /-- The staged key goes to the other bank, and each round so far has led a key astray. -/
  | outward (ht : bank e.staging.key ≠ t) (hlt : e.rounds < (e.strayed bank ks).card)

namespace OnCourse

theorem of_sameSlots (h : e.OnCourse bank ks n t) (hs : SameSlots e e')
    (hk : e'.staging.key = e.staging.key) (hr : e'.rounds = e.rounds) :
    e'.OnCourse bank ks n t := by
  cases h with
  | unbegun hzero hnone => exact .unbegun (hr.trans hzero) (hs.strayed_eq.trans hnone)
  | homeward ht hle => exact .homeward (hk ▸ ht) (by rwa [hr, hs.strayed_eq])
  | outward ht hlt => exact .outward (hk ▸ ht) (by rwa [hr, hs.strayed_eq])

theorem of_card_le (hr : e.rounds = 0) (hle : (e.strayed bank ks).card ≤ n) :
    e.OnCourse bank ks n t := by
  by_cases hs : e.strayed bank ks = ∅
  · exact .unbegun hr hs
  · have hpos := Finset.card_pos.2 (Finset.nonempty_iff_ne_empty.2 hs)
    by_cases ht : bank e.staging.key = t
    · exact .homeward ht (by omega)
    · exact .outward ht (by omega)

theorem rounds_le (h : e.OnCourse bank ks n t) (hks : ks.length ≤ n + 1) : e.rounds ≤ 2 * n := by
  cases h with
  | unbegun hr _ => omega
  | homeward _ hle => omega
  | outward _ hlt =>
    have hcard : (e.strayed bank ks).card ≤ ks.length :=
      (Finset.card_filter_le _ _).trans (List.toFinset_card_le _)
    omega

end OnCourse

section Placement

variable (hs : e.Placed) (hlt : ∀ k ∈ ks, bank k < 2)
  (hinj : Set.InjOn (fun k => (bank k, e.home (bank k) k)) {k | k ∈ ks})
  (hmem : ∀ s k, (e.readAt s k).found = true → k ∈ ks)

include hs hlt hinj hmem

/-- A key that has its slot taken has it taken by a stray. -/
theorem occupant_mem_strayed (hk : k ∈ ks) (hmiss : e.Misses k)
    (hocc : (e.readAt (bank k) k).occupied = true) :
    (e.readAt (bank k) k).slot.key ∈ e.strayed bank ks := by
  have hf := hs.found_of_valid hocc
  have hy := hmem _ _ hf
  refine (hs.mem_strayed_iff hy (hlt _ hy) (hlt k hk) hf).2 fun hbank => ?_
  have hhome : e.home (bank k) (e.readAt (bank k) k).slot.key = e.home (bank k) k :=
    (hs.home_eq _ _ hocc).symm
  have heq : (e.readAt (bank k) k).slot.key = k := by
    refine hinj hy hk (Prod.ext hbank ?_)
    dsimp only
    rw [hbank]
    exact hhome
  have hfound : (e.readAt (bank k) (e.readAt (bank k) k).slot.key).found = true := hf
  rw [heq, misses_iff.1 hmiss] at hfound
  cases hfound

theorem Evicts.onCourse (h : Evicts e t e') (hb : e.Built keys) (hv : e.staging.valid = true)
    (htwo : e.lanes.length = 2) (ht : t < 2) (hks : ks.length ≤ n + 1)
    (hx : e.staging.key ∈ ks) (hc : e.OnCourse bank ks n t) : e'.OnCourse bank ks n (1 - t) := by
  have ht' : t < e.lanes.length := htwo.symm ▸ ht
  have hstray := occupant_mem_strayed hs hlt hinj hmem hx h.misses
    (h.full _ (htwo.symm ▸ hlt _ hx))
  have hnext := h.strayed_eq hb hs hv ht' hx (hlt _ hx) ht
  have hfound := h.found_evicted hs ht'
  have hy := hmem _ _ hfound
  have hyt := hs.mem_strayed_iff hy (hlt _ hy) ht hfound
  have hylt := hlt _ hy
  cases hc with
  | unbegun _ hnone =>
    -- Only a stray can have taken the slot.
    rw [hnone] at hstray
    cases hstray
  | homeward hright hle =>
    rw [hright, ← h.staged_eq] at hstray
    rw [if_pos hright] at hnext
    have hcard := Finset.card_erase_add_one hstray
    refine .homeward ?_ ?_
    · have hne := hyt.1 hstray
      omega
    · rw [hnext, h.rounds_eq]
      omega
  | outward hwrong hrounds =>
    have hxnot : e.staging.key ∉ (e.strayed bank ks).erase e'.staging.key := fun hmem =>
      not_mem_strayed h.misses (Finset.mem_of_mem_erase hmem)
    rw [if_neg hwrong] at hnext
    have hcard := Finset.card_insert_of_notMem hxnot
    -- The evicted key stood in its own bank, so one stray more is left behind; or it was a stray, and
    -- the walk turns.
    by_cases hyright : bank e'.staging.key = t
    · rw [Finset.erase_eq_of_notMem fun hmem => hyt.1 hmem hyright] at hnext hcard
      refine .outward (by omega) ?_
      rw [hnext, hcard, h.rounds_eq]
      omega
    · have herase := Finset.card_erase_add_one (hyt.2 hyright)
      have hfew : (e.strayed bank ks).card < ks.length := card_strayed_lt hx h.misses
      refine .homeward (by omega) ?_
      rw [hnext, hcard, h.rounds_eq]
      omega

end Placement

structure Walking (e₀ : Engine) (m : Store) (bank : Key → Nat) (ks : List Key) (n : Nat)
    (beats : List Beat) (e : Engine) : Prop extends Inserting e₀ m beats e where
  course : ∃ t < 2, e.Aims t ∧ e.OnCourse bank ks n t

theorem Aims.behind (h : e.Aims t) (gates : Nat → Gate) : (e.behind gates).Aims t where
  early := h.early
  late hp hmiss hfull := by
    have hs := sameSlots_behind (e := e) gates
    refine h.late hp (fun s hlt => ?_) fun s hlt => ?_
    · rw [← hs.readAt_eq]
      exact hmiss s (by simpa [Engine.behind] using hlt)
    · rw [← hs.readAt_eq]
      exact hfull s (by simpa [Engine.behind] using hlt)

theorem Walking.beat {beats : List Beat} (htwo : e₀.config.banks = 2) (hlt : ∀ k ∈ ks, bank k < 2)
    (hinj : Set.InjOn (fun k => (bank k, e₀.home (bank k) k)) {k | k ∈ ks})
    (hdom : ∀ k, (m k).isSome = true ↔ k ∈ ks) (hks : ks.length ≤ n + 1)
    (h : Walking e₀ m bank ks n beats e) (l : Lines) {o : Outcome Engine Duplicate Outputs}
    (hm : Move (e.behind (Drive.ofLines l).gates) l o.state o.result)
    (hgo : e.Updating → o.state.phase ≠ e.phase) :
    Walking e₀ m bank ks n (beats ++ [e.beat (.ofLines l) o]) o.state ∨
      Inserted e₀ m (beats ++ [e.beat (.ofLines l) o]) o.state ∧ o.state.rounds ≤ 2 * n := by
  obtain ⟨t, ht, haim, hcourse⟩ := h.course
  rcases h.toInserting.beat l hm hgo with hnext | ⟨hended, hr⟩
  · refine .inl ⟨hnext, ?_⟩
    have hbehind := h.toCarries.behind (Drive.ofLines l).gates
    have hsame := sameSlots_behind (e := e) (Drive.ofLines l).gates
    obtain ⟨keys, hk⟩ := hbehind.accounted
    have hbanks : (e.behind (Drive.ofLines l).gates).config.banks = 2 :=
      hbehind.config_eq ▸ htwo
    have hcourse : (e.behind (Drive.ofLines l).gates).OnCourse bank ks n t :=
      hcourse.of_sameSlots hsame rfl rfl
    rcases hm.aims_or_evicts hk h.updating hnext.updating (hbanks.symm ▸ ht) (haim.behind _) with
      ⟨hs, hstaged, hr, haim'⟩ | ⟨hev, haim'⟩
    · exact ⟨t, ht, haim', hcourse.of_sameSlots hs hstaged hr⟩
    · rw [hbanks, show (t + 2 - 1) % 2 = 1 - t by omega] at haim'
      refine ⟨1 - t, by omega, haim', ?_⟩
      refine hev.onCourse hbehind.sound.toPlaced hlt ?_ ?_ hk.toBuilt h.staged_valid
        (hk.lanes_length.trans hbanks) ht hks ((hdom _).1 h.isSome_staged) hcourse
      · simpa only [hbehind.home_eq] using hinj
      · intro s k hf
        rw [hsame.readAt_eq] at hf
        exact (hdom k).1 (h.isSome_of_found hf)
  · exact .inr ⟨hended, hr ▸ hcourse.rounds_le hks⟩

theorem Began.walking {key : Key} {data : Data} (hb : Began e₀ (.insert key data) e)
    (h : Inserting e₀ m [] e) (htwo : e₀.config.banks = 2) (hn : e₀.storedKeys.length ≤ n) :
    Walking e₀ m bank ks n [] e := by
  obtain ⟨keys, hk⟩ := h.accounted
  obtain ⟨t, ht, hv⟩ := hk.names.victim hk.valid.banks_pos hk.banks_le
  rw [h.config_eq, htwo] at ht
  refine ⟨h, t, ht, ⟨fun _ => hv, fun hw => ?_⟩, ?_⟩
  · rw [hb.phase_eq] at hw
    cases hw
  · refine .of_card_le hb.rounds_eq ?_
    rw [hb.sameSlots.strayed_eq]
    exact card_strayed_le.trans hn

theorem Walking.length_lt {beats : List Beat} (h : Walking e₀ m bank ks n beats e)
    (hks : ks.length ≤ n + 1) : beats.length < 3 * (2 * n + 1) := by
  obtain ⟨t, -, -, hcourse⟩ := h.course
  have hlength := h.length_eq
  have hrounds := hcourse.rounds_le hks
  have hphase := e.phase.elapsed_lt
  omega

/-- Whatever the last target was, an insert of keys that fit between two banks ends after `2 * n`
evictions at most, where `n` entries are stored. -/
theorem two_bank_insert_ends {hash : Nat → Key → Word} {depth : Nat → Nat}
    (h : ofLanes c (emptyLanes c hash depth) = .ok e) (htwo : c.banks = 2) (hr : e.Reaches e₀)
    {key : Key} {data : Data} (hacc : e₀.accepted? lines = some (.insert key data))
    (hp : e₀.Placeable ((key &&& c.keyMask) :: e₀.storedKeys)) (after : List Lines)
    (hlen : 3 * (2 * e₀.entries.length + 1) ≤ after.length) :
    ∃ r ≤ 2 * e₀.entries.length,
      e₀.RunsTo ((lines :: after.take (3 * (r + 1))).map .ofLines) fun beats e' =>
        e'.phase = .idle ∧ e'.rounds = r ∧
        ∀ b ∈ beats.tail, b.start.phase ≠ .idle ∧ ∃ out, b.result = .ok out := by
  obtain ⟨m, o, ht, hbegan, hstart, rfl, -, hdom⟩ := exists_inserting h hr hacc
  obtain ⟨bank, hlt, hinj⟩ := hp
  rw [htwo] at hlt
  have hn : e₀.storedKeys.length = e₀.entries.length := List.length_map _
  have hks : ((key &&& e₀.config.keyMask) :: e₀.storedKeys).length ≤ e₀.entries.length + 1 := by
    rw [List.length_cons, hn]
  have huntil := runsTo_open_until
    (q := fun beats e' => Inserted e₀ m beats e' ∧ e'.rounds ≤ 2 * e₀.entries.length)
    hbegan.rounds_eq (hbegan.walking hstart htwo hn.le) (fun _ _ hw => hw.accounted)
    (fun _ _ l _ hw hm hgo => hw.beat htwo hlt hinj hdom hks l hm hgo)
    (after.take (3 * (2 * e₀.entries.length + 1)))
  rcases huntil with ⟨k, hk, beats, e', hrun, hended, hle⟩ | hruns
  · rw [List.length_take, Nat.min_eq_left hlen] at hk
    have hlength := length_of_run hrun
    rw [hended.length_eq, List.length_map, List.length_take, List.length_take,
      Nat.min_eq_left hlen, Nat.min_eq_left hk] at hlength
    rw [List.take_take, Nat.min_eq_left hk, ← hlength] at hrun
    exact ⟨e'.rounds, hle, .cons ht (.of_run hrun ⟨hended.idle, rfl, hended.busy⟩)⟩
  · refine ⟨2 * e₀.entries.length, Nat.le_refl _, .cons ht (hruns.mono ?_)⟩
    intro beats e' hrun hw
    -- The walk cannot take that long.
    have hlength := hw.length_lt hks
    rw [length_of_run hrun, List.length_map, List.length_take, Nat.min_eq_left hlen] at hlength
    exact absurd hlength (Nat.lt_irrefl _)

/-- The second bank hashes by the second bit. The key 6 finds its slots taken by 2 and 3, and moves 3,
which moves 1. -/
theorem two_bank_insert_ends_chain :
    ∃ e₀, (smallEngine fun i key => key >>> .ofNat i).Reaches e₀ ∧
      e₀.pairs = [(2, 20), (1, 10), (3, 30)] ∧
      (∃ r ≤ 6, e₀.RunsTo (({ insert := some (6, 60) } ::
        (List.replicate 21 {}).take (3 * (r + 1))).map .ofLines) fun beats e' =>
          e'.phase = .idle ∧ e'.rounds = r ∧
          ∀ b ∈ beats.tail, b.start.phase ≠ .idle ∧ ∃ out, b.result = .ok out) ∧
      ∃ beats e', e₀.run ([{ insert := some (6, 60) }, {}, {}, {}, {}, {}, {}, {}, {}, {}].map
        .ofLines) = .ok (beats, e') ∧ e'.phase = .idle ∧ e'.rounds = 2 ∧
        e'.pairs = [(2, 20), (3, 30), (1, 10), (6, 60)] := by
  let bank : Key → Nat := fun k => if k = 6 ∨ k = 1 then 1 else 0
  obtain ⟨e₀, hr, hbanks, hslots, hkeys, hentries, hpairs, hacc, hend⟩ : ∃ e₀,
      (smallEngine fun i key => key >>> .ofNat i).Reaches e₀ ∧ e₀.config.banks = 2 ∧
      [6, 2, 1, 3].map (fun k => (bank k, e₀.home (bank k) k)) =
        [(1, 1), (0, 0), (1, 0), (0, 1)] ∧
      e₀.storedKeys = [2, 1, 3] ∧ e₀.entries.length = 3 ∧
      e₀.pairs = [(2, 20), (1, 10), (3, 30)] ∧
      e₀.accepted? { insert := some (6, 60) } = some (.insert 6 60) ∧
      ∃ beats e', e₀.run ([{ insert := some (6, 60) }, {}, {}, {}, {}, {}, {}, {}, {}, {}].map
        .ofLines) = .ok (beats, e') ∧ e'.phase = .idle ∧ e'.rounds = 2 ∧
        e'.pairs = [(2, 20), (3, 30), (1, 10), (6, 60)] :=
    ⟨_, ⟨[{ insert := some (1, 10) }, {}, {}, {}, { insert := some (3, 30) }, {}, {}, {},
      { insert := some (2, 20) }, {}, {}, {}], _, rfl⟩, rfl, rfl, rfl, rfl, rfl, rfl,
      _, _, rfl, rfl, rfl, rfl⟩
  have hp : e₀.Placeable ((6 &&& smallConfig.keyMask) :: e₀.storedKeys) := by
    have hnodup : ([6, 2, 1, 3].map fun k => (bank k, e₀.home (bank k) k)).Nodup := by
      rw [hslots]
      decide
    rw [hkeys]
    refine ⟨bank, fun k _ => ?_, fun k hk l hl => List.inj_on_of_nodup_map hnodup hk hl⟩
    rw [hbanks]
    dsimp only [bank]
    split <;> decide
  obtain ⟨r, hle, hruns⟩ := two_bank_insert_ends (ofLanes_smallEngine _) rfl hr hacc hp
    (List.replicate 21 {}) (by rw [hentries]; decide)
  rw [hentries] at hle
  exact ⟨e₀, hr, hpairs, ⟨r, hle, hruns⟩, hend⟩

end Engine
end ClockedCuckoo
