import ClockedCuckoo.Proofs.Store

/-! An engine stands for a map, changed by each request as it is accepted. While an insert or delete
is under way, the staged entry stands in for the slots; while a clean is, the map is empty already. -/

namespace ClockedCuckoo

namespace Engine

structure Represents (e : Engine) (m : Store) : Prop where
  idle : e.phase = .idle → ∀ key data, m key = some data ↔ e.Holds key data
  cleaning : e.phase = .cleaning → m = .empty ∧
    ∀ t, ∀ i < e.sweep.row, (e.slotAt t i).valid = false
  updating : e.Updating → ∀ key data, m key = some data ↔
    if key = e.staging.key then e.staging.valid = true ∧ e.staging.data = data
    else e.Holds key data

def nextStore (e : Engine) (lines : Lines) (m : Store) : Store :=
  match e.accepted? lines with
  | some r => m.apply e.config r
  | none => m

variable {e e' : Engine} {keys : List Key} {lines : Lines} {t : Nat} {m : Store}

theorem nextStore_of_ne (hp : e.phase ≠ .idle) : e.nextStore lines m = m := by
  rw [nextStore, accepted?_of_ne hp]

section Intro

theorem represents_idle (hp : e.phase = .idle)
    (h : ∀ key data, m key = some data ↔ e.Holds key data) : e.Represents m where
  idle _ := h
  cleaning hc := absurd (hp.symm.trans hc) (by decide)
  updating hup := absurd hp hup.not_idle

theorem represents_cleaning (hp : e.phase = .cleaning)
    (h : ∀ t, ∀ i < e.sweep.row, (e.slotAt t i).valid = false) : e.Represents .empty where
  idle hi := absurd (hp.symm.trans hi) (by decide)
  cleaning _ := ⟨rfl, h⟩
  updating hup := absurd hp hup.not_cleaning

theorem represents_updating (hup : e.Updating)
    (h : ∀ key data, m key = some data ↔
      if key = e.staging.key then e.staging.valid = true ∧ e.staging.data = data
      else e.Holds key data) : e.Represents m where
  idle hi := absurd hi hup.not_idle
  cleaning hc := absurd hc hup.not_cleaning
  updating _ := h

end Intro

namespace Represents

theorem of_sameSlots (h : e.Represents m) (hs : SameSlots e e') (hst : e'.staging = e.staging)
    (hup : e.Updating) (hup' : e'.Updating) : e'.Represents m := by
  apply represents_updating hup'
  intro key data
  rw [h.updating hup, hst, hs.holds_iff]

theorem behind (h : e.Represents m) (gates : Nat → Gate) : (e.behind gates).Represents m where
  idle hp key data := by
    rw [(sameSlots_behind gates).holds_iff]
    exact h.idle hp key data
  cleaning hp := by
    refine ⟨(h.cleaning hp).1, fun t i hi => ?_⟩
    rw [(sameSlots_behind gates).slotAt_eq]
    exact (h.cleaning hp).2 t i hi
  updating hup key data := by
    rw [(sameSlots_behind gates).holds_iff]
    exact h.updating hup key data

theorem serve (h : e.Represents m) (hp : e.phase = .idle) (hrow : e.sweep.row = 0)
    (r : Recorder) : (e.served lines r).Represents (e.nextStore lines m) := by
  have hidle := h.idle hp
  have hs := sameSlots_served e lines r
  have hphase : (e.served lines r).phase = Phase.started (e.accepted? lines) := rfl
  have hst : (e.served lines r).staging = e.staging.take (e.accepted? lines) e.lookupTaken
      e.config.keyMask e.config.dataMask := rfl
  rw [nextStore]
  cases hacc : e.accepted? lines with
  | none =>
    rw [hacc] at hphase
    apply represents_idle hphase
    intro key data
    rw [hs.holds_iff]
    exact hidle key data
  | some req =>
    rw [hacc] at hphase hst
    cases req with
    | lookup q =>
      apply represents_idle hphase
      intro key data
      rw [hs.holds_iff]
      exact hidle key data
    | clean =>
      apply represents_cleaning hphase
      intro t i hi
      have hzero : (e.served lines r).sweep.row = 0 := hrow
      rw [hzero] at hi
      exact absurd hi (Nat.not_lt_zero i)
    | delete q =>
      -- The key is gone from the map at once: the register stands for no entry, whatever its slot holds.
      apply represents_updating (.inl hphase)
      intro key data
      rw [hst, hs.holds_iff]
      show (if key = q &&& e.config.keyMask then none else m key) = some data ↔
        if key = q &&& e.config.keyMask then false = true ∧ _ else _
      by_cases hkey : key = q &&& e.config.keyMask
      · simp [hkey]
      · rw [if_neg hkey, if_neg hkey]
        exact hidle key data
    | insert q d =>
      apply represents_updating (.inl hphase)
      intro key data
      rw [hst, hs.holds_iff]
      show (if key = q &&& e.config.keyMask then some (d &&& e.config.dataMask) else m key) =
          some data ↔
        if key = q &&& e.config.keyMask then true = true ∧ d &&& e.config.dataMask = data else _
      by_cases hkey : key = q &&& e.config.keyMask
      · simp [hkey]
      · rw [if_neg hkey, if_neg hkey]
        exact hidle key data

theorem sweep (h : e.Represents m) (ha : e.Accounted keys) (hp : e.phase = .cleaning)
    {e' : Engine} (hl : e'.lanes = e.lanes.map (·.cycle { write := some (.clear e.sweep.row) }))
    (hsweep : e'.sweep = e.sweep.step true)
    (hphase : e'.phase = if e.sweep.atLast then .idle else .cleaning) : e'.Represents m := by
  obtain ⟨rfl, hempty⟩ := h.cleaning hp
  have hslot := slotAt_swept ha.toBuilt hl ha.row_lt
  have hswept : ∀ t, ∀ i ≤ e.sweep.row, (e'.slotAt t i).valid = false := by
    intro t i hi
    rw [hslot]
    split
    · rfl
    · exact hempty t i (Nat.lt_of_le_of_ne hi ‹_›)
  by_cases hatLast : e.sweep.atLast = true
  · rw [if_pos hatLast] at hphase
    rw [Sweep.atLast, beq_iff_eq] at hatLast
    apply represents_idle hphase
    intro key data
    refine ⟨fun hnone => absurd hnone (by simp [Store.empty]), ?_⟩
    rintro ⟨t, hf, -⟩
    rw [found_readAt] at hf
    -- Every home is among the rows, and the last of them is swept now.
    have hhome : e'.home t key ≤ e.sweep.row := by
      rw [home_swept hl]
      cases ht : e.lanes[t]? with
      | none => simp [home, ht]
      | some l =>
        have hlt := Bank.home_lt (ha.answers l (List.mem_of_getElem? ht)) ha.rows_pos key
        rw [home_of_lane ht, hatLast, ha.last_eq]
        exact Nat.le_sub_one_of_lt hlt
    rw [hswept t _ hhome] at hf
    cases hf.1
  · rw [if_neg hatLast] at hphase
    apply represents_cleaning hphase
    intro t i hi
    rw [hsweep] at hi
    simp only [Sweep.step, if_true, hatLast, Bool.false_eq_true, if_false] at hi
    exact hswept t i (Nat.lt_succ_iff.1 hi)

theorem overwritten (h : e.Represents m) (hs : e.Placed) (ha : e.Accounted keys)
    (hp : e.phase = .writing) {e' : Engine} (hl : e'.lanes = e.overwritten t)
    (hphase : e'.phase = .idle) (ht : t < e.lanes.length)
    (honly : ∀ s, (e.readAt s e.staging.key).found = true → s = t)
    (hfree : (e.readAt t e.staging.key).occupied = true →
      (e.readAt t e.staging.key).slot.key = e.staging.key) : e'.Represents m := by
  apply represents_idle hphase
  intro key data
  rw [h.updating (.inr (.inr hp)), holds_overwritten hs ha.toBuilt hl ht honly]
  by_cases hkey : key = e.staging.key
  · rw [if_pos hkey, if_pos hkey]
  · rw [if_neg hkey, if_neg hkey]
    refine (and_iff_left ?_).symm
    rintro ⟨hocc, rfl⟩
    exact hkey (hfree hocc)

theorem evict (h : e.Represents m) (hs : e.Placed) (ha : e.Accounted keys)
    (hp : e.phase = .writing) {e' : Engine} (hl : e'.lanes = e.overwritten t)
    (hup : e'.Updating) (ht : t < e.lanes.length) (hmiss : e.Misses e.staging.key)
    (hfull : (e.readAt t e.staging.key).occupied = true)
    (hst : e'.staging = e.staging.takeEvicted
      ((e.readAt t e.staging.key).slot.key, (e.readAt t e.staging.key).slot.data)) :
    e'.Represents m := by
  have hfound := hs.found_of_valid hfull
  have hhome := hs.home_eq t _ hfull
  apply represents_updating hup
  intro key data
  rw [h.updating (.inr (.inr hp)), holds_overwritten hs ha.toBuilt hl ht (hmiss.only t), hst]
  show _ ↔ if key = (e.readAt t e.staging.key).slot.key then
    true = true ∧ (e.readAt t e.staging.key).slot.data = data else _
  -- The displaced key leaves the slots for the register, the staged key the other way round.
  by_cases hkey : key = (e.readAt t e.staging.key).slot.key
  · have hne : key ≠ e.staging.key := by
      rintro rfl
      have hf := misses_iff.1 hmiss t
      rw [hkey] at hf
      exact absurd (hfound.symm.trans hf) (by decide)
    rw [if_neg hne, if_pos hkey, hkey]
    refine (hs.holds_iff_of_found hfound).trans ?_
    show (e.slotAt t (e.home t (e.slotAt t (e.home t e.staging.key)).key)).data = data ↔ _
    rw [← hhome]
    exact (and_iff_right rfl).symm
  · rw [if_neg hkey]
    by_cases hstaged : key = e.staging.key
    · rw [if_pos hstaged, if_pos hstaged]
    · rw [if_neg hstaged, if_neg hstaged]
      exact (and_iff_left fun hold => hkey hold.2.symm).symm

theorem miss (h : e.Represents m) (ha : e.Accounted keys) (hp : e.phase = .writing)
    (ho : e.staging.origin = .delete) (hmiss : e.Misses e.staging.key) {e' : Engine}
    (hs : SameSlots e e') (hphase : e'.phase = .idle) : e'.Represents m := by
  have hv : e.staging.valid = false := by
    rw [ha.staged (by simp [hp]) (by simp [hp]), ho]
    rfl
  apply represents_idle hphase
  intro key data
  rw [h.updating (.inr (.inr hp)), hs.holds_iff]
  by_cases hkey : key = e.staging.key
  · rw [if_pos hkey, hv, hkey]
    exact iff_of_false (fun hc => Bool.false_ne_true hc.1) hmiss.not_holds
  · rw [if_neg hkey]

end Represents

theorem Move.represents {result : Except Duplicate Outputs} (hm : Move e lines e' result)
    (ha : e.Accounted keys) (hs : e.Sound) (h : e.Represents m) :
    e'.Represents (e.nextStore lines m) := by
  have hnone := hs.toPlaced.fault?_eq_none ha.toBuilt
  cases hm with
  | serve r hp hf => exact h.serve hp (ha.row_eq (by simp [hp])) r
  | refuse r d hp hf | abort r d hp hf =>
    rw [hnone] at hf
    cases hf
  | hold r hp =>
    rw [nextStore_of_ne hp]
    exact ⟨h.idle, h.cleaning, h.updating⟩
  | sweep r hp ht =>
    rw [nextStore_of_ne (by simp [hp])]
    exact h.sweep ha hp rfl rfl rfl
  | probe r hp ht =>
    rw [nextStore_of_ne (by simp [hp])]
    exact h.of_sameSlots (sameSlots_of_lanes_map rfl rfl) rfl (.inl hp) (.inr (.inl rfl))
  | choose r hp hs =>
    rw [nextStore_of_ne (by simp [hp])]
    exact h.of_sameSlots (sameSlots_of_lanes_eq rfl) rfl (.inr (.inl hp)) (.inr (.inr rfl))
  | update r t hp ht hhit =>
    rw [nextStore_of_ne (by simp [hp])]
    refine h.overwritten hs.toPlaced ha hp rfl rfl ht (fun s hf => hs.unique _ s t hf hhit)
      fun _ => ?_
    exact (found_readAt.1 hhit).2
  | fill r t hp ho hmiss ht hfree hlow =>
    rw [nextStore_of_ne (by simp [hp])]
    refine h.overwritten hs.toPlaced ha hp rfl rfl ht (hmiss.only t) fun hocc => ?_
    rw [hfree] at hocc
    cases hocc
  | evict r t hp ho hmiss ht hfull hc =>
    rw [nextStore_of_ne (by simp [hp])]
    exact h.evict hs.toPlaced ha hp rfl (.inl rfl) ht hmiss (hfull t ht) rfl
  | miss r hp ho hmiss =>
    rw [nextStore_of_ne (by simp [hp])]
    exact h.miss ha hp ho hmiss (sameSlots_of_lanes_map rfl rfl) rfl

end Engine
end ClockedCuckoo
