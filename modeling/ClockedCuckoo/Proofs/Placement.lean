import ClockedCuckoo.Proofs.Safety

/-! Every entry stands in the home of its key and no key is stored twice. What keeps it so is that a
round writes to the one bank that holds its key, or finds that none does. -/

namespace ClockedCuckoo

theorem Slot.holds_eq_true {s : Slot} {key : Key} :
    s.holds key = true ↔ s.valid = true ∧ s.key = key := by
  rw [holds, Bool.and_eq_true, beq_iff_eq]

def Config.Fits (c : Config) (key : Key) (data : Data) : Prop :=
  key &&& c.keyMask = key ∧ data &&& c.dataMask = data

theorem Config.fits_mask (c : Config) (key : Key) (data : Data) :
    c.Fits (key &&& c.keyMask) (data &&& c.dataMask) := by
  constructor
  · rw [UInt64.and_assoc, UInt64.and_self]
  · rw [UInt64.and_assoc, UInt64.and_self]

namespace Engine

structure Placed (e : Engine) : Prop where
  home_eq : ∀ t i, (e.slotAt t i).valid = true → i = e.home t (e.slotAt t i).key
  fits : ∀ t i, (e.slotAt t i).valid = true → e.config.Fits (e.slotAt t i).key (e.slotAt t i).data
  unique : ∀ key t u, (e.readAt t key).found = true → (e.readAt u key).found = true → t = u

def Updating (e : Engine) : Prop :=
  e.phase = .probing ∨ e.phase = .waiting ∨ e.phase = .writing

/-- An entry on its way in fits as well, and once it has been evicted it is stored nowhere. -/
structure Sound (e : Engine) : Prop extends Placed e where
  staged_fits : e.Updating → e.staging.origin = .insert →
    e.config.Fits e.staging.key e.staging.data
  absent : 0 < e.rounds → e.Updating → e.staging.origin = .insert → e.Misses e.staging.key

variable {e e' : Engine} {keys : List Key} {lines : Lines} {t : Nat}

theorem Updating.not_idle (h : e.Updating) : e.phase ≠ .idle := by
  rcases h with hp | hp | hp <;> simp [hp]

theorem Updating.not_cleaning (h : e.Updating) : e.phase ≠ .cleaning := by
  rcases h with hp | hp | hp <;> simp [hp]

theorem Accounted.staged_valid (h : e.Accounted keys) (hup : e.Updating)
    (ho : e.staging.origin = .insert) : e.staging.valid = true := by
  rw [h.staged hup.not_idle hup.not_cleaning, ho]
  rfl

theorem found_readAt {key : Key} : (e.readAt t key).found = true ↔
    (e.slotAt t (e.home t key)).valid = true ∧ (e.slotAt t (e.home t key)).key = key :=
  Slot.holds_eq_true

section Slots

theorem home_overwritten (hl : e'.lanes = e.overwritten t) (s : Nat) (key : Key) :
    e'.home s key = e.home s key := by
  rw [home, home, hl, overwritten, List.getElem?_mapIdx]
  cases e.lanes[s]? with
  | none => rfl
  | some l => exact Bank.home_cycle l.bank _ key

theorem slotAt_overwritten (h : e.Built keys) (hl : e'.lanes = e.overwritten t)
    (ht : t < e.lanes.length) (s i : Nat) :
    e'.slotAt s i =
      if s = t ∧ i = e.home t e.staging.key then e.staging.slot else e.slotAt s i := by
  rw [slotAt, slotAt, hl, overwritten, List.getElem?_mapIdx]
  cases hs : e.lanes[s]? with
  | none =>
    have hne : s ≠ t := by
      rintro rfl
      rw [List.getElem?_eq_getElem ht] at hs
      cases hs
    rw [if_neg fun hc => hne hc.1]
    rfl
  | some l =>
    by_cases hst : s = t
    · subst hst
      have hanswers := h.answers l (List.mem_of_getElem? hs)
      have hlt : l.bank.home e.staging.key < l.bank.size :=
        hanswers.size_eq ▸ Bank.home_lt hanswers h.rows_pos _
      simp only [Option.map_some, Lane.bank_cycle, if_true, true_and, home_of_lane hs]
      exact Bank.slotAt_cycle_of_write
        (w := ⟨l.bank.home e.staging.key, e.staging.slot⟩) rfl hlt i
    · simp only [Option.map_some, Lane.bank_cycle, hst, if_false, false_and]
      exact Bank.slotAt_cycle_of_no_write rfl i

variable {row : Nat}

theorem home_swept (hl : e'.lanes = e.lanes.map (·.cycle { write := some (.clear row) }))
    (s : Nat) (key : Key) : e'.home s key = e.home s key := by
  rw [home, home, hl, List.getElem?_map]
  cases e.lanes[s]? with
  | none => rfl
  | some l => exact Bank.home_cycle l.bank _ key

theorem slotAt_swept (h : e.Built keys)
    (hl : e'.lanes = e.lanes.map (·.cycle { write := some (.clear row) }))
    (hrow : row < e.config.rows) (s i : Nat) :
    e'.slotAt s i = if i = row then {} else e.slotAt s i := by
  rw [slotAt, slotAt, hl, List.getElem?_map]
  cases hs : e.lanes[s]? with
  | none => simp
  | some l =>
    have hanswers := h.answers l (List.mem_of_getElem? hs)
    simp only [Option.map_some, Lane.bank_cycle]
    have hlt : (SlotWrite.clear row).index < l.bank.size := hanswers.size_eq ▸ hrow
    exact Bank.slotAt_cycle_of_write rfl hlt i

end Slots

namespace Placed

theorem of_sameSlots (h : e.Placed) (hs : SameSlots e e') (hc : e'.config = e.config) :
    e'.Placed where
  home_eq t i := by
    rw [hs.slotAt_eq, hs.home_eq]
    exact h.home_eq t i
  fits t i := by
    rw [hs.slotAt_eq, hc]
    exact h.fits t i
  unique key t u := by
    rw [hs.readAt_eq, hs.readAt_eq]
    exact h.unique key t u

theorem found_of_valid (h : e.Placed) {i : Nat} (hv : (e.slotAt t i).valid = true) :
    (e.readAt t (e.slotAt t i).key).found = true := by
  rw [found_readAt, ← h.home_eq t i hv]
  exact ⟨hv, rfl⟩

theorem of_cleared (h : e.Placed) (hc : e'.config = e.config)
    (hh : ∀ s key, e'.home s key = e.home s key)
    (hs : ∀ s i, (e'.slotAt s i).valid = true → e'.slotAt s i = e.slotAt s i) : e'.Placed where
  home_eq t i hv := by
    have hsame := hs t i hv
    rw [hsame] at hv ⊢
    rw [hh]
    exact h.home_eq t i hv
  fits t i hv := by
    have hsame := hs t i hv
    rw [hsame] at hv ⊢
    rw [hc]
    exact h.fits t i hv
  unique key t u ht hu := by
    rw [found_readAt, hh] at ht hu
    have hst := hs _ _ ht.1
    have hsu := hs _ _ hu.1
    rw [hst] at ht
    rw [hsu] at hu
    exact h.unique key t u (found_readAt.2 ht) (found_readAt.2 hu)

theorem found_overwritten (hb : e.Built keys) (hl : e'.lanes = e.overwritten t)
    (ht : t < e.lanes.length) {s : Nat} {key : Key} (hf : (e'.readAt s key).found = true) :
    (s = t ∧ key = e.staging.key ∧ e.staging.valid = true ∧
      (e'.readAt s key).slot = e.staging.slot) ∨
    (¬(s = t ∧ e.home t key = e.home t e.staging.key) ∧ (e.readAt s key).found = true ∧
      (e'.readAt s key).slot = (e.readAt s key).slot) := by
  rw [found_readAt, home_overwritten hl, slotAt_overwritten hb hl ht] at hf
  have hslot : (e'.readAt s key).slot = if s = t ∧ e.home s key = e.home t e.staging.key then
      e.staging.slot else e.slotAt s (e.home s key) := by
    rw [← home_overwritten hl, ← slotAt_overwritten hb hl ht]
    rfl
  rw [hslot]
  by_cases hc : s = t ∧ e.home s key = e.home t e.staging.key
  · rw [if_pos hc] at hf ⊢
    exact .inl ⟨hc.1, hf.2.symm, hf.1, rfl⟩
  · rw [if_neg hc] at hf ⊢
    refine .inr ⟨fun hst => hc ?_, found_readAt.2 hf, rfl⟩
    rw [hst.1]
    exact ⟨rfl, hst.2⟩

theorem of_overwritten (h : e.Placed) (hb : e.Built keys) (hl : e'.lanes = e.overwritten t)
    (hc : e'.config = e.config) (ht : t < e.lanes.length)
    (hfits : e.staging.valid = true → e.config.Fits e.staging.key e.staging.data)
    (honly : ∀ s, (e.readAt s e.staging.key).found = true → s = t) : e'.Placed where
  home_eq s i := by
    rw [slotAt_overwritten hb hl ht, home_overwritten hl]
    split
    · rename_i hst
      intro _
      rw [hst.1]
      exact hst.2
    · exact h.home_eq s i
  fits s i := by
    rw [slotAt_overwritten hb hl ht, hc]
    split
    · exact hfits
    · exact h.fits s i
  unique key s u hs hu := by
    rcases found_overwritten hb hl ht hs with ⟨rfl, rfl, -⟩ | ⟨-, hs, -⟩
    · rcases found_overwritten hb hl ht hu with ⟨rfl, -⟩ | ⟨-, hu, -⟩
      · rfl
      · exact (honly u hu).symm
    · rcases found_overwritten hb hl ht hu with ⟨rfl, rfl, -⟩ | ⟨-, hu, -⟩
      · exact honly s hs
      · exact h.unique key s u hs hu

theorem singleHit (h : e.Placed) (key : Key) : Probe.SingleHit (e.reads key) := by
  intro i j p q hp hq hfp hfq
  obtain ⟨-, rfl⟩ := eq_readAt_of_getElem? hp
  obtain ⟨-, rfl⟩ := eq_readAt_of_getElem? hq
  exact h.unique key i j hfp hfq

theorem fault?_eq_none (h : e.Placed) (hb : e.Built keys) : e.fault? = none := by
  rw [fault?]
  split
  · cases hr : e.results? with
    | none => rfl
    | some ps =>
      obtain ⟨key, rest, -, rfl⟩ := hb.results?_eq_some hr
      exact (hb.duplicate?_eq_none_iff key).2 (h.singleHit key)
  · rfl

end Placed

theorem placed_of_invalid (h : ∀ t i, (e.slotAt t i).valid = false) : e.Placed where
  home_eq t i hv := by
    rw [h] at hv
    cases hv
  fits t i hv := by
    rw [h] at hv
    cases hv
  unique key t u hf _ := by
    rw [found_readAt, h] at hf
    cases hf.1

theorem found_of_length_le {key : Key} (ht : e.lanes.length ≤ t) :
    (e.readAt t key).found = false := by
  have hslot : e.slotAt t (e.home t key) = {} := by
    rw [slotAt, List.getElem?_eq_none ht]
  show (e.slotAt t (e.home t key)).holds key = false
  rw [hslot]
  rfl

theorem misses_iff {key : Key} : e.Misses key ↔ ∀ t, (e.readAt t key).found = false := by
  constructor
  · intro h t
    by_cases ht : t < e.lanes.length
    · exact h t ht
    · exact found_of_length_le (Nat.not_lt.1 ht)
  · exact fun h t _ => h t

theorem Misses.of_sameSlots {key : Key} (h : e.Misses key) (hs : SameSlots e e') :
    e'.Misses key := by
  rw [misses_iff] at h ⊢
  intro t
  rw [hs.readAt_eq]
  exact h t

theorem Misses.only {key : Key} (h : e.Misses key) (t : Nat) :
    ∀ s, (e.readAt s key).found = true → s = t := by
  intro s hs
  rw [misses_iff.1 h s] at hs
  cases hs

theorem Placed.misses_evicted (h : e.Placed) (hb : e.Built keys)
    (hl : e'.lanes = e.overwritten t) (ht : t < e.lanes.length) (hmiss : e.Misses e.staging.key)
    (hfull : (e.readAt t e.staging.key).occupied = true) :
    e'.Misses (e.readAt t e.staging.key).slot.key := by
  have hold := h.found_of_valid hfull
  have hhome := h.home_eq t _ hfull
  rw [misses_iff]
  intro s
  rw [Bool.eq_false_iff]
  intro hs
  -- A bank that finds the key now is the one written to, or a second one that held it before.
  rcases Placed.found_overwritten hb hl ht hs with ⟨-, hkey, -⟩ | ⟨hne, hs, -⟩
  · have hfound := misses_iff.1 hmiss t
    rw [← hkey] at hfound
    exact absurd hold (by rw [show e.slotAt t (e.home t e.staging.key) =
      (e.readAt t e.staging.key).slot from rfl, hfound]; decide)
  · exact hne ⟨h.unique _ s t hs hold, hhome.symm⟩

theorem fits_served (r : Recorder) (hup : (e.served lines r).Updating)
    (ho : (e.served lines r).staging.origin = .insert) :
    e.config.Fits (e.served lines r).staging.key (e.served lines r).staging.data := by
  simp only [served, Updating] at hup ho ⊢
  cases hacc : e.accepted? lines with
  | none => simp [hacc, Phase.started] at hup
  | some req =>
    rw [hacc] at hup ho
    cases req with
    | clean | lookup key => simp [Phase.started] at hup
    | delete key => cases ho
    | insert key data => exact e.config.fits_mask key data

theorem Sound.fits_of_valid (h : e.Sound) (ha : e.Accounted keys) (hup : e.Updating)
    (hv : e.staging.valid = true) : e.config.Fits e.staging.key e.staging.data := by
  rw [ha.staged hup.not_idle hup.not_cleaning, beq_iff_eq] at hv
  exact h.staged_fits hup hv

theorem Sound.of_sameSlots (h : e.Sound) (hs : SameSlots e e') (hc : e'.config = e.config)
    (hst : e'.staging = e.staging)
    (hup : e'.Updating → e'.rounds = e.rounds ∧ e.Updating) : e'.Sound where
  toPlaced := h.toPlaced.of_sameSlots hs hc
  staged_fits hp ho := by
    rw [hst] at ho ⊢
    rw [hc]
    exact h.staged_fits (hup hp).2 ho
  absent hr hp ho := by
    obtain ⟨hrounds, hphase⟩ := hup hp
    rw [hst] at ho ⊢
    rw [hrounds] at hr
    exact (h.absent hr hphase ho).of_sameSlots hs

theorem Placed.sound (h : e.Placed) (hp : ¬e.Updating) : e.Sound where
  toPlaced := h
  staged_fits hup := absurd hup hp
  absent _ hup := absurd hup hp

theorem Move.sound {result : Except Duplicate Outputs} (hm : Move e lines e' result)
    (ha : e.Accounted keys) (h : e.Sound) : e'.Sound := by
  have hnone := h.toPlaced.fault?_eq_none ha.toBuilt
  cases hm with
  | serve r hp hf =>
    refine ⟨h.toPlaced.of_sameSlots (sameSlots_served e lines r) rfl, fits_served r,
      fun hr hup => ?_⟩
    cases hx : e.exclusiveAccepted lines with
    | true => simp [served, hx] at hr
    | false => simp [served, Updating, started_of_no_exclusive hx] at hup
  | refuse r d hp hf | abort r d hp hf =>
    rw [hnone] at hf
    cases hf
  | hold r hp =>
    exact h.of_sameSlots (sameSlots_of_lanes_eq rfl) rfl rfl fun hup => ⟨rfl, hup⟩
  | sweep r hp ht =>
    refine Placed.sound (h.toPlaced.of_cleared rfl (home_swept rfl) fun s i hv => ?_) ?_
    · rw [slotAt_swept ha.toBuilt rfl ha.row_lt] at hv ⊢
      split at hv
      · cases hv
      · rw [if_neg ‹_›]
    · unfold Updating
      split <;> simp
  | probe r hp ht =>
    refine h.of_sameSlots (sameSlots_of_lanes_map rfl ?_) rfl rfl fun _ => ⟨rfl, .inl hp⟩
    rfl
  | choose r hp hs =>
    exact h.of_sameSlots (sameSlots_of_lanes_eq rfl) rfl rfl fun _ => ⟨rfl, .inr (.inl hp)⟩
  | update r t hp ht hhit =>
    refine Placed.sound (h.toPlaced.of_overwritten ha.toBuilt rfl rfl ht
      (h.fits_of_valid ha (.inr (.inr hp))) fun s hs => h.unique _ s t hs hhit) ?_
    simp [Updating]
  | fill r t hp ho hmiss ht hfree hlow =>
    refine Placed.sound (h.toPlaced.of_overwritten ha.toBuilt rfl rfl ht
      (h.fits_of_valid ha (.inr (.inr hp))) (hmiss.only t)) ?_
    simp [Updating]
  | evict r t hp ho hmiss ht hfull hc =>
    have hold := hfull t ht
    have hfits := h.fits_of_valid ha (.inr (.inr hp))
    exact ⟨h.toPlaced.of_overwritten ha.toBuilt rfl rfl ht hfits (hmiss.only t),
      fun _ _ => h.fits t _ hold, fun _ _ _ => h.toPlaced.misses_evicted ha.toBuilt rfl ht hmiss hold⟩
  | miss r hp ho hmiss =>
    refine h.of_sameSlots (sameSlots_of_lanes_map rfl ?_) rfl rfl ?_
    · rfl
    · intro hup
      simp [Updating] at hup

theorem Sound.behind (h : e.Sound) (gates : Nat → Gate) : (e.behind gates).Sound :=
  h.of_sameSlots (sameSlots_behind gates) rfl rfl fun hup => ⟨rfl, hup⟩

theorem Move.result_eq {result : Except Duplicate Outputs} (hm : Move e lines e' result)
    (hf : e.fault? = none) : result = .ok (e.outputs lines) := by
  cases hm with
  | serve r hp _ => rfl
  | refuse r d hp hd | abort r d hp hd =>
    rw [hf] at hd
    cases hd
  | hold r hp => rw [outputs_of_ne hp]
  | _ => rw [outputs_of_ne (by simp [*])]

theorem Move.home_eq {result : Except Duplicate Outputs} (hm : Move e lines e' result)
    (s : Nat) (key : Key) : e'.home s key = e.home s key := by
  cases hm with
  | serve r _ _ => exact (sameSlots_served e lines r).home_eq s key
  | refuse r d _ _ | probe r _ _ | abort r d _ _ | miss r _ _ _ =>
    exact (sameSlots_of_lanes_map rfl rfl).home_eq s key
  | hold r _ | choose r _ _ => rfl
  | sweep r _ _ => exact home_swept rfl s key
  | update r t _ _ _ | fill r t _ _ _ _ _ _ | evict r t _ _ _ _ _ _ =>
    exact home_overwritten rfl s key

theorem Sound.runsTo (h : e.Sound) (ha : e.Accounted []) (hzero : e.rounds = 0)
    {ds : List Drive} (hs : e.Sighted ds) :
    e.RunsTo ds fun beats e' => e'.config = e.config ∧ (∃ keys, e'.Accounted keys) ∧ e'.Sound ∧
      ∀ b ∈ beats, ∃ out, b.result = .ok out := by
  apply hs.runsTo hzero
  · exact ⟨rfl, ⟨[], ha⟩, h, by simp⟩
  · exact fun _ _ hp => hp.2.1
  · rintro beats e' d o ⟨hc, ⟨keys, hk⟩, hsound, hok⟩ hm
    have hk := hk.behind d.gates
    have hsound := hsound.behind d.gates
    obtain ⟨keys', hk', -⟩ := hm.accounted hk
    refine ⟨hm.config_eq.trans hc, ⟨keys', hk'⟩, hm.sound hk hsound, fun b hmem => ?_⟩
    rcases List.mem_append.1 hmem with hmem | hmem
    · exact hok b hmem
    · rw [List.mem_singleton.1 hmem]
      exact ⟨_, hm.result_eq (hsound.toPlaced.fault?_eq_none hk.toBuilt)⟩

/-- Empty banks for a configuration, bank `i` under the hash function and queue depth `i`. -/
def emptyLanes (c : Config) (hash : Nat → Key → Word) (depth : Nat → Nat) : List Lane :=
  (List.range c.banks).map fun i =>
    { bank := .empty c.rows (.ofFunction (hash i)) (depth i) }

variable {c : Config} {hash : Nat → Key → Word} {depth : Nat → Nat}

theorem ofLanes_emptyLanes (hc : c.validate = .ok ()) :
    ofLanes c (emptyLanes c hash depth) = .ok (start c (emptyLanes c hash depth)) := by
  have hlen : ¬(emptyLanes c hash depth).length ≠ c.banks := by simp [emptyLanes]
  have hfind : (emptyLanes c hash depth).find? (·.bank.size != c.rows) = none := by
    rw [List.find?_eq_none]
    intro l hl
    obtain ⟨i, -, rfl⟩ := List.mem_map.1 hl
    simp
  simp only [ofLanes, hc, if_neg hlen, hfind]

theorem accounted_empty (hc : c.validate = .ok ()) :
    (start c (emptyLanes c hash depth)).Accounted [] := by
  apply accounted_start (ofLanes_emptyLanes hc)
  intro l hl
  obtain ⟨i, -, rfl⟩ := List.mem_map.1 hl
  exact ⟨Hash.Hasher.isTotal_ofFunction _, Nat.le_max_right _ 1, rfl⟩

theorem slotAt_empty (t i : Nat) : (start c (emptyLanes c hash depth)).slotAt t i = {} := by
  rw [slotAt]
  split
  · rename_i l hl
    obtain ⟨j, -, rfl⟩ := List.mem_map.1 (List.mem_of_getElem? hl)
    exact Bank.slotAt_empty _ _ _ i
  · rfl

theorem sound_empty : (start c (emptyLanes c hash depth)).Sound := by
  refine (placed_of_invalid fun t i => ?_).sound ?_
  · rw [slotAt_empty]
  · simp [Updating, start]

/-- In every state that a run from empty banks reaches, the entries stand in the homes of their
keys, no key has two entries, an evicted key has none, and no results are refused. -/
theorem keys_placed_once (hc : c.validate = .ok ()) (hash : Nat → Key → Word)
    (depth : Nat → Nat) (ls : List Lines) :
    ∃ e, ofLanes c (emptyLanes c hash depth) = .ok e ∧
      e.RunsTo (ls.map .ofLines) fun beats e' =>
        (∀ t i, (e'.slotAt t i).valid = true →
          i = e'.home t (e'.slotAt t i).key ∧
          (e'.slotAt t i).key &&& c.keyMask = (e'.slotAt t i).key ∧
          (e'.slotAt t i).data &&& c.dataMask = (e'.slotAt t i).data) ∧
        (∀ t i u j, (e'.slotAt t i).valid = true → (e'.slotAt u j).valid = true →
          (e'.slotAt t i).key = (e'.slotAt u j).key → t = u ∧ i = j) ∧
        (0 < e'.rounds → e'.phase = .probing ∨ e'.phase = .waiting ∨ e'.phase = .writing →
          e'.staging.origin = .insert →
          ∀ t i, (e'.slotAt t i).valid = true → (e'.slotAt t i).key ≠ e'.staging.key) ∧
        (∀ probes, e'.results? = some probes → Probe.duplicate? probes c.banks = none ∧
          e'.choice.choose probes = .ok (e'.choice.next probes)) ∧
        ∀ b ∈ beats, ∃ out, b.result = .ok out := by
  have ha : (start c (emptyLanes c hash depth)).Accounted [] := accounted_empty hc
  refine ⟨_, ofLanes_emptyLanes hc, ?_⟩
  apply (sound_empty.runsTo ha rfl (ha.sighted rfl (visible_ofLines ls))).mono
  rintro beats e' - ⟨hconfig, ⟨keys, hk⟩, hsound, hok⟩
  have hcfg : e'.config = c := hconfig
  refine ⟨fun t i hv => ⟨hsound.home_eq t i hv, ?_⟩, fun t i u j hv hv' hkey => ?_,
    fun hr hup ho t i hv hkey => ?_, fun probes hp => ?_, hok⟩
  · rw [← hcfg]
    exact hsound.fits t i hv
  · have hf := hsound.toPlaced.found_of_valid hv
    have hf' := hsound.toPlaced.found_of_valid hv'
    rw [← hkey] at hf'
    obtain rfl := hsound.unique _ t u hf hf'
    refine ⟨rfl, ?_⟩
    rw [hsound.home_eq t i hv, hsound.home_eq t j hv', hkey]
  · have hf := hsound.toPlaced.found_of_valid hv
    rw [hkey, misses_iff.1 (hsound.absent hr hup ho) t] at hf
    cases hf
  · obtain ⟨key, rest, -, rfl⟩ := hk.results?_eq_some hp
    have hnone := (hk.duplicate?_eq_none_iff key).2 (hsound.toPlaced.singleHit key)
    rw [Choice.choose, hk.names.width_eq, hnone, ← hcfg]
    exact ⟨hnone, rfl⟩

/-- Under one hash function the keys 1, 3 and 5 share their slot. The last one evicts 1, which is on
its way back in at the end of the run. -/
theorem keys_placed_once_crowded :
    ∃ e beats e', ofLanes smallConfig (emptyLanes smallConfig (fun _ => id) fun _ => 1) = .ok e ∧
      e.run ([{ insert := some (1, 10) }, {}, {}, {}, { insert := some (3, 30) }, {}, {}, {},
          { insert := some (5, 50) }, {}, {}, {}, {}].map .ofLines) = .ok (beats, e') ∧
      e'.entries.map (fun x => (x.key, x.data)) = [(5, 50), (3, 30)] ∧ e'.staging.key = 1 ∧
      (∀ t i, (e'.slotAt t i).valid = true → i = e'.home t (e'.slotAt t i).key) ∧
      (∀ t i u j, (e'.slotAt t i).valid = true → (e'.slotAt u j).valid = true →
        (e'.slotAt t i).key = (e'.slotAt u j).key → t = u ∧ i = j) ∧
      (∀ t i, (e'.slotAt t i).valid = true → (e'.slotAt t i).key ≠ 1) ∧
      (∃ probes, e'.results? = some probes ∧ Probe.duplicate? probes 2 = none) ∧
      ∀ b ∈ beats, ∃ out, b.result = .ok out := by
  obtain ⟨e, he, hruns⟩ := keys_placed_once (c := smallConfig) rfl (fun _ => id) (fun _ => 1)
    [{ insert := some (1, 10) }, {}, {}, {}, { insert := some (3, 30) }, {}, {}, {},
      { insert := some (5, 50) }, {}, {}, {}, {}]
  cases he
  obtain ⟨beats, e', hrun, hpairs, hkey, hrounds, hphase, horigin, probes, hprobes⟩ :
      ∃ beats e', (start smallConfig (emptyLanes smallConfig (fun _ => id) fun _ => 1)).run
        ([{ insert := some (1, 10) }, {}, {}, {}, { insert := some (3, 30) }, {}, {}, {},
          { insert := some (5, 50) }, {}, {}, {}, {}].map .ofLines) = .ok (beats, e') ∧
      e'.entries.map (fun x => (x.key, x.data)) = [(5, 50), (3, 30)] ∧ e'.staging.key = 1 ∧
      e'.rounds = 1 ∧ e'.phase = .waiting ∧ e'.staging.origin = .insert ∧
      ∃ probes, e'.results? = some probes :=
    ⟨_, _, rfl, rfl, rfl, rfl, rfl, rfl, _, rfl⟩
  obtain ⟨hslots, hunique, habsent, hresults, hok⟩ := hruns.ok hrun
  have hgone := habsent (by rw [hrounds]; decide) (.inr (.inl hphase)) horigin
  rw [hkey] at hgone
  exact ⟨_, beats, e', rfl, hrun, hpairs, hkey, fun t i hv => (hslots t i hv).1, hunique, hgone,
    ⟨probes, hprobes, (hresults probes hprobes).1⟩, hok⟩

end Engine
end ClockedCuckoo
