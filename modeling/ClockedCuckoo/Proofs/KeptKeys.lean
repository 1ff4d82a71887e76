import ClockedCuckoo.Proofs.Progress
import ClockedCuckoo.Proofs.Store

/-! An insert loses no key, whatever the slots hold and however it ends. A key that leaves a slot is
staged, and an insert that is given up leaves its staged key in the banks that were found to hold it. -/

namespace ClockedCuckoo

namespace Engine

def storedKeys (e : Engine) : List Key :=
  e.entries.map (·.key)

def Keeps (e : Engine) (k : Key) : Prop :=
  k ∈ e.storedKeys ∨ e.phase ≠ .idle ∧ k = e.staging.key

variable {c : Config} {lanes : List Lane} {e e' e₀ : Engine} {keys : List Key} {lines : Lines}
  {k : Key} {t : Nat}

theorem mem_storedKeys :
    k ∈ e.storedKeys ↔ ∃ t i, (e.slotAt t i).valid = true ∧ (e.slotAt t i).key = k := by
  rw [storedKeys, List.mem_map]
  constructor
  · rintro ⟨x, hx, rfl⟩
    rw [mem_entries] at hx
    exact ⟨x.bank, x.index, by rw [hx], by rw [hx]⟩
  · rintro ⟨t, i, hv, rfl⟩
    refine ⟨⟨t, i, (e.slotAt t i).key, (e.slotAt t i).data⟩, mem_entries.2 ?_, rfl⟩
    rw [← hv]

theorem SameSlots.mem_storedKeys_iff (h : SameSlots e e') :
    k ∈ e'.storedKeys ↔ k ∈ e.storedKeys := by
  simp only [mem_storedKeys, h.slotAt_eq]

theorem mem_storedKeys_of_found (hf : (e.readAt t k).found = true) : k ∈ e.storedKeys :=
  mem_storedKeys.2 ⟨t, _, found_readAt.1 hf⟩

theorem keeps_of_idle (hp : e.phase = .idle) : e.Keeps k ↔ k ∈ e.storedKeys :=
  or_iff_left fun h => h.1 hp

theorem keeps_of_busy (hp : e.phase ≠ .idle) :
    e.Keeps k ↔ k ∈ e.storedKeys ∨ k = e.staging.key :=
  or_congr_right (and_iff_right hp)

theorem SameSlots.keeps_iff (h : SameSlots e e') (hst : e'.staging = e.staging)
    (hp : e.phase ≠ .idle) (hp' : e'.phase ≠ .idle) : e'.Keeps k ↔ e.Keeps k := by
  rw [keeps_of_busy hp, keeps_of_busy hp', h.mem_storedKeys_iff, hst]

section Overwritten

variable (hb : e.Built keys) (hl : e'.lanes = e.overwritten t) (ht : t < e.lanes.length)
  (hv : e.staging.valid = true)

include hb hl ht hv

theorem staged_mem_storedKeys : e.staging.key ∈ e'.storedKeys := by
  refine mem_storedKeys.2 ⟨t, e.home t e.staging.key, ?_⟩
  rw [slotAt_overwritten hb hl ht, if_pos ⟨rfl, rfl⟩]
  exact ⟨hv, rfl⟩

theorem mem_storedKeys_overwritten :
    k ∈ e'.storedKeys ∨ ((e.readAt t e.staging.key).occupied = true ∧
      k = (e.readAt t e.staging.key).slot.key) ↔ k ∈ e.storedKeys ∨ k = e.staging.key := by
  have hslot := slotAt_overwritten hb hl ht
  constructor
  · rintro (hk | ⟨hocc, rfl⟩)
    · obtain ⟨s, i, hvalid, rfl⟩ := mem_storedKeys.1 hk
      rw [hslot] at hvalid ⊢
      split
      · exact .inr rfl
      · rw [if_neg ‹_›] at hvalid
        exact .inl (mem_storedKeys.2 ⟨s, i, hvalid, rfl⟩)
    · exact .inl (mem_storedKeys.2 ⟨t, _, hocc, rfl⟩)
  · rintro (hk | rfl)
    · obtain ⟨s, i, hvalid, rfl⟩ := mem_storedKeys.1 hk
      by_cases hsi : s = t ∧ i = e.home t e.staging.key
      · obtain ⟨rfl, rfl⟩ := hsi
        exact .inr ⟨hvalid, rfl⟩
      · refine .inl (mem_storedKeys.2 ⟨s, i, ?_⟩)
        rw [hslot, if_neg hsi]
        exact ⟨hvalid, rfl⟩
    · exact .inl (staged_mem_storedKeys hb hl ht hv)

theorem keeps_iff_of_ended (hp : e.phase ≠ .idle) (hp' : e'.phase = .idle)
    (hfree : (e.readAt t e.staging.key).occupied = true →
      (e.readAt t e.staging.key).slot.key = e.staging.key) : e'.Keeps k ↔ e.Keeps k := by
  rw [keeps_of_busy hp, keeps_of_idle hp', ← mem_storedKeys_overwritten hb hl ht hv]
  refine (or_iff_left_of_imp ?_).symm
  rintro ⟨hocc, rfl⟩
  rw [hfree hocc]
  exact staged_mem_storedKeys hb hl ht hv

theorem keeps_iff_of_evicted (hp : e.phase ≠ .idle) (hp' : e'.phase ≠ .idle)
    (hfull : (e.readAt t e.staging.key).occupied = true)
    (hst : e'.staging.key = (e.readAt t e.staging.key).slot.key) :
    e'.Keeps k ↔ e.Keeps k := by
  rw [keeps_of_busy hp, keeps_of_busy hp', ← mem_storedKeys_overwritten hb hl ht hv, hst,
    and_iff_right hfull]

end Overwritten

theorem Accounted.staged_mem_of_fault (h : e.Accounted keys) (hp : e.phase = .waiting)
    {d : Duplicate} (hf : e.fault? = some d) : e.staging.key ∈ e.storedKeys := by
  obtain ⟨key, rest, hk, hd⟩ := h.results?_of_fault hf
  rw [h.updating (.inl hp)] at hk
  cases hk
  rcases Probe.found_cases (e.reads e.staging.key) with ⟨t, p, hp, hfound⟩ | hmiss
  · obtain ⟨-, rfl⟩ := eq_readAt_of_getElem? hp
    exact mem_storedKeys_of_found hfound
  · have hsingle : Probe.SingleHit (e.reads e.staging.key) := by
      intro i j p q hp _ hfound _
      rw [hmiss p (List.mem_of_getElem? hp)] at hfound
      cases hfound
    rw [(h.duplicate?_eq_none_iff _).2 hsingle] at hd
    cases hd

theorem Move.keeps_iff {result : Except Duplicate Outputs} (hm : Move e lines e' result)
    (h : e.Accounted keys) (hup : e.Updating) (ho : e.staging.origin = .insert) :
    e'.Keeps k ↔ e.Keeps k := by
  have hbusy := hup.not_idle
  have hv := h.staged_valid hup ho
  cases hm with
  | serve r hp _ | refuse r d hp _ => exact absurd hp hbusy
  | sweep r hp _ => exact absurd hp hup.not_cleaning
  | hold r hp => exact (sameSlots_of_lanes_eq rfl).keeps_iff rfl hbusy hp
  | probe r hp ht => exact (sameSlots_of_lanes_map rfl rfl).keeps_iff rfl hbusy (by simp)
  | choose r hp hs => exact SameSlots.keeps_iff (sameSlots_of_lanes_eq rfl) rfl hbusy (by simp)
  | abort r d hp hf =>
    -- The staged key is given up, but the banks at fault hold it.
    have hstaged := h.staged_mem_of_fault hp hf
    rw [keeps_of_busy hbusy, keeps_of_idle rfl,
      (sameSlots_of_lanes_map rfl rfl).mem_storedKeys_iff]
    refine (or_iff_left_of_imp ?_).symm
    rintro rfl
    exact hstaged
  | update r t hp ht hhit =>
    exact keeps_iff_of_ended h.toBuilt rfl ht hv hbusy rfl fun _ => (found_readAt.1 hhit).2
  | fill r t hp _ hmiss ht hfree hlow =>
    refine keeps_iff_of_ended h.toBuilt rfl ht hv hbusy rfl fun hocc => ?_
    rw [hfree] at hocc
    cases hocc
  | evict r t hp _ hmiss ht hfull hc =>
    exact keeps_iff_of_evicted h.toBuilt rfl ht hv hbusy nofun (hfull t ht) rfl
  | miss r hp hdel hmiss =>
    rw [ho] at hdel
    cases hdel

theorem keeps_behind (gates : Nat → Gate) : (e.behind gates).Keeps k ↔ e.Keeps k :=
  or_congr_left (sameSlots_behind gates).mem_storedKeys_iff

structure KeepsSince (e₀ : Engine) (key : Key) (beats : List Beat) (e : Engine) : Prop where
  accounted : ∃ keys, e.Accounted keys
  phase : (∀ b ∈ beats, b.start.phase ≠ .idle) →
    e.phase = .idle ∨ e.Updating ∧ e.staging.origin = .insert
  keeps_iff : (∀ b ∈ beats, b.start.phase ≠ .idle) →
    ∀ k, e.Keeps k ↔ k ∈ e₀.storedKeys ∨ k = key

theorem Began.keepsSince {key : Key} {data : Data} (h : Began e₀ (.insert key data) e) :
    KeepsSince e₀ (key &&& e₀.config.keyMask) [] e where
  accounted := ⟨[], h.accounted⟩
  phase _ := by
    refine .inr ⟨.inl h.phase_eq, ?_⟩
    rw [h.staging_eq]
    rfl
  keeps_iff _ k := by
    have hbusy : e.phase ≠ .idle := by simp [h.phase_eq, Phase.started]
    rw [keeps_of_busy hbusy, h.sameSlots.mem_storedKeys_iff, h.staging_eq]
    rfl

theorem KeepsSince.beat {key : Key} {beats : List Beat} (h : KeepsSince e₀ key beats e)
    (l : Lines) {o : Outcome Engine Duplicate Outputs}
    (hm : Move (e.behind (Drive.ofLines l).gates) l o.state o.result)
    (hgo : e.Updating → o.state.phase ≠ e.phase) :
    KeepsSince e₀ key (beats ++ [e.beat (.ofLines l) o]) o.state := by
  obtain ⟨keys, hk⟩ := h.accounted
  have hk := hk.behind (Drive.ofLines l).gates
  obtain ⟨keys', hk', -⟩ := hm.accounted hk
  -- A beat that is not idle starts in the middle of the insert.
  have hbefore : (∀ b ∈ beats ++ [e.beat (.ofLines l) o], b.start.phase ≠ .idle) →
      (∀ b ∈ beats, b.start.phase ≠ .idle) ∧ e.Updating ∧ e.staging.origin = .insert := by
    intro hbusy
    have hbeats : ∀ b ∈ beats, b.start.phase ≠ .idle := fun b hb =>
      hbusy b (List.mem_append_left _ hb)
    have hnow : e.phase ≠ .idle := hbusy (e.beat (.ofLines l) o) (by simp)
    exact ⟨hbeats, (h.phase hbeats).resolve_left hnow⟩
  refine ⟨⟨keys', hk'⟩, fun hbusy => ?_, fun hbusy k => ?_⟩
  · obtain ⟨-, hup, ho⟩ := hbefore hbusy
    rcases hm.clock hup (hgo hup) with ⟨hup', ho', -⟩ | ⟨hidle, -⟩
    · exact .inr ⟨hup', ho'.trans ho⟩
    · exact .inl hidle
  · obtain ⟨hbeats, hup, ho⟩ := hbefore hbusy
    rw [← h.keeps_iff hbeats k, hm.keeps_iff hk hup ho, keeps_behind]

/-- As long as an insert is under way, the keys stored and staged are those stored at its admission
and the key asked for; when it has ended, completed or given up, the same keys are stored. -/
theorem insert_keeps_keys (h : ofLanes c lanes = .ok e)
    (hready : ∀ l ∈ lanes, l.bank.hasher.IsTotal ∧ 0 < l.bank.depth ∧ l.bank.results = [])
    (hr : e.Reaches e₀) {key : Key} {data : Data}
    (hacc : e₀.accepted? lines = some (.insert key data)) (after : List Lines) :
    e₀.RunsTo ((lines :: after).map .ofLines) fun beats e' =>
      (∀ b ∈ beats.tail, b.start.phase ≠ .idle) →
        (e'.phase ≠ .idle → ∀ k, k ∈ e'.storedKeys ∨ k = e'.staging.key ↔
          k ∈ e₀.storedKeys ∨ k = key &&& c.keyMask) ∧
        (e'.phase = .idle → ∀ k, k ∈ e'.storedKeys ↔
          k ∈ e₀.storedKeys ∨ k = key &&& c.keyMask) := by
  have hstart := accounted_start h hready
  obtain ⟨-, -, -, rfl⟩ := ofLanes_eq_ok h
  obtain ⟨hc, keys, hk⟩ := hr.accounted hstart rfl
  have hc : e₀.config = c := hc
  have hruns : e₀.RunsTo ((lines :: after).map .ofLines) fun beats e' =>
      KeepsSince e₀ (key &&& e₀.config.keyMask) beats.tail e' := by
    apply hk.runsTo_began hacc rfl
    · exact fun _ hbegan => hbegan.keepsSince
    · exact fun _ _ hs => hs.accounted
    · exact fun _ _ l _ hs hm hgo => hs.beat l hm hgo
  apply hruns.mono
  rintro beats e' - hs hbusy
  rw [← hc]
  refine ⟨fun hp k => ?_, fun hp k => ?_⟩
  · rw [← hs.keeps_iff hbusy, keeps_of_busy hp]
  · rw [← hs.keeps_iff hbusy, keeps_of_idle hp]

/-- The key 4 stands in three slots, one of them the home of the key 1. -/
def strayLanes : List Lane :=
  [{ bank := ⟨#[⟨4, 1, true⟩, ⟨5, 2, true⟩], .ofFunction id, 1, []⟩ },
    { bank := ⟨#[⟨4, 3, true⟩, ⟨4, 4, true⟩], .ofFunction id, 1, []⟩ }]

/-- The insert of 1 evicts 4 from the slot it strayed into, and is given up in the next round, which
finds 4 in both banks. -/
theorem insert_keeps_keys_stray :
    ∃ beats e', (start smallConfig strayLanes).run
        ([{ insert := some (1, 10) }, {}, {}, {}, {}, {}].map .ofLines) = .ok (beats, e') ∧
      (beats.getLast?.map (·.result) = some (.error ⟨4, [0, 1]⟩)) ∧
      e'.phase = .idle ∧
      ∀ k, k ∈ e'.storedKeys ↔ k ∈ (start smallConfig strayLanes).storedKeys ∨ k = 1 := by
  have h : ofLanes smallConfig strayLanes = .ok (start smallConfig strayLanes) := rfl
  have hready : ∀ l ∈ strayLanes,
      l.bank.hasher.IsTotal ∧ 0 < l.bank.depth ∧ l.bank.results = [] := by
    simp [strayLanes, Hash.Hasher.isTotal_ofFunction]
  have hacc : (start smallConfig strayLanes).accepted? { insert := some (1, 10) } =
      some (.insert 1 10) := rfl
  have hruns := insert_keeps_keys h hready (.refl _) hacc [{}, {}, {}, {}, {}]
  refine ⟨_, _, rfl, rfl, rfl, (hruns.ok rfl ?_).2 rfl⟩
  simp only [List.tail_cons, List.forall_mem_cons]
  exact ⟨nofun, nofun, nofun, nofun, nofun, by simp⟩

end Engine
end ClockedCuckoo
