import ClockedCuckoo.Proofs.AbsentDelete

/-! An insert or a delete that evicts nothing is over after one round and changes one slot at most:
that of its key, or the lowest free one. -/

namespace ClockedCuckoo

namespace Engine

variable {c : Config} {e e' s : Engine} {keys : List Key} {lines : Lines} {r : Request} {key : Key}
  {data : Data} {slots : Nat → Nat → Slot} {result : Except Duplicate Outputs} {t : Nat}

def slotsWith (e : Engine) (t i : Nat) (w : Slot) (u j : Nat) : Slot :=
  if u = t ∧ j = i then w else e.slotAt u j

/-- The request is accepted and carried out without an eviction. It leaves the engine at rest, with the
slots given. -/
def OneRound (e : Engine) (r : Request) (ls : List Lines) (slots : Nat → Nat → Slot) : Prop :=
  ∃ beats e', e.run (ls.map .ofLines) = .ok (beats, e') ∧
    beats.map (·.result) = [.ok { accepted := some r }, .ok {}, .ok {}, .ok {}] ∧
    e'.atRest = true ∧ e'.rounds = 0 ∧ ∀ t i, e'.slotAt t i = slots t i

structure Ends (e e' : Engine) (slots : Nat → Nat → Slot) : Prop where
  phase_eq : e'.phase = .idle
  rounds_eq : e'.rounds = e.rounds
  staging_eq : e'.staging = e.staging
  inFlight_eq : e'.inFlight = e.inFlight
  slotAt_eq : ∀ t i, e'.slotAt t i = slots t i

namespace Move

/-- A round that ends has written to the bank that holds its key, or to the lowest free slot, or has
evicted, or was that of a delete which found nothing. -/
theorem writing_cases (hm : Move e lines e' result) (h : e.Built keys) (hp : e.phase = .writing)
    (hgo : e'.phase ≠ e.phase) :
    (∃ t, (e.readAt t e.staging.key).found = true ∧
      Ends e e' (e.slotsWith t (e.home t e.staging.key) e.staging.slot)) ∨
    (e.staging.origin = .insert ∧ e.Misses e.staging.key ∧ ∃ t < e.lanes.length,
      (e.readAt t e.staging.key).occupied = false ∧
      (∀ u < t, (e.readAt u e.staging.key).occupied = true) ∧
      Ends e e' (e.slotsWith t (e.home t e.staging.key) e.staging.slot)) ∨
    (e.staging.origin = .insert ∧ e.Misses e.staging.key ∧
      ∀ t < e.lanes.length, (e.readAt t e.staging.key).occupied = true) ∨
    (e.staging.origin = .delete ∧ e.Misses e.staging.key ∧ Ends e e' e.slotAt) := by
  cases hm with
  | serve r hi _ | refuse r d hi _ | sweep r hi _ | probe r hi _ | choose r hi _ | abort r d hi _ =>
    exact absurd (hi.symm.trans hp) (by decide)
  | hold r _ => exact absurd rfl hgo
  | update r t _ ht hhit => exact .inl ⟨t, hhit, rfl, rfl, rfl, rfl, slotAt_overwritten h rfl ht⟩
  | fill r t _ ho hmiss ht hfree hlow =>
    exact .inr (.inl ⟨ho, hmiss, t, ht, hfree, hlow, rfl, rfl, rfl, rfl,
      slotAt_overwritten h rfl ht⟩)
  | evict r t _ ho hmiss _ hfull _ => exact .inr (.inr (.inl ⟨ho, hmiss, hfull⟩))
  | miss r _ ho hmiss =>
    exact .inr (.inr (.inr ⟨ho, hmiss, rfl, rfl, rfl, rfl,
      (sameSlots_of_lanes_map rfl rfl).slotAt_eq⟩))

end Move

theorem Accounted.evicted?_eq_none (h : e.Accounted keys) (hp : e.phase = .writing)
    (hroom : e.staging.origin = .insert → e.Misses e.staging.key →
      ∃ t < e.lanes.length, (e.readAt t e.staging.key).occupied = false) : e.evicted? = none := by
  rcases h.choice_cases hp with ⟨t, -, -, hc⟩ | ⟨-, t, -, -, -, hc⟩ | ⟨hmiss, hfull, -⟩
  · exact evicted?_of_final (by rw [hc])
  · exact evicted?_of_final (by rw [hc])
  · cases ho : e.staging.origin with
    | delete => exact evicted?_of_delete ho
    | lookup => exact absurd ho (h.busy (by simp [hp])).2
    | insert =>
      obtain ⟨t, ht, hfree⟩ := hroom ho hmiss
      rw [hfull t ht] at hfree
      cases hfree

namespace Steady

variable (h : Steady e)

include h

theorem tick_of_writing (hp : e.phase = .writing) (hev : e.evicted? = none) (l : Lines) :
    ∃ o, e.tick (.ofLines l) = .ok o ∧ o.result = .ok {} ∧
      Move e l o.state o.result ∧ o.state.phase ≠ e.phase := by
  obtain ⟨keys, hk⟩ := h.accounted
  have ht := h.tick_eq_ok hev l
  have ht' := ht
  rw [h.tick_eq_cycle] at ht'
  obtain ⟨hm, hgo⟩ := (hk.cyclesTo_progress h.isOpen l).ok ht'
  exact ⟨_, ht, congrArg _ (outputs_of_ne (by simp [hp])), hm, hgo (.inr (.inr hp))⟩

theorem run_to_writing (hrest : e.atRest = true) (hr : lines.exclusive? = some r)
    (hstarted : Phase.started (some r) = .probing) (l₁ l₂ : Lines) :
    ∃ beats e', e.run ([lines, l₁, l₂].map .ofLines) = .ok (beats, e') ∧
      beats.map (·.result) = [.ok { accepted := some r }, .ok {}, .ok {}] ∧
      e'.phase = .writing ∧ e'.rounds = 0 ∧ e'.config = e.config ∧ SameSlots e e' ∧
      e'.staging = e.staging.take (some r) false e.config.keyMask e.config.dataMask := by
  obtain ⟨hp, hcount, -⟩ := atRest_eq_true.1 hrest
  obtain ⟨keys, hk⟩ := h.accounted
  obtain ⟨hacc, hx⟩ := hk.exclusive_accepted_iff.2 ⟨hp, hcount, hr⟩
  obtain ⟨o₁, ht₁, hr₁, hb⟩ := hk.tick_of_exclusive hacc hx (Drive.ofLines lines).gates
  have h₁ := h.tick ht₁
  obtain ⟨o₂, r₂, ht₂, hr₂, hs₂⟩ := h₁.tick_of_probing (hb.phase_eq.trans hstarted) l₁
  have h₂ := h₁.tick ht₂
  obtain ⟨o₃, r₃, ht₃, hr₃, hs₃⟩ := h₂.tick_of_waiting (hs₂ ▸ rfl) l₂
  have hsame : SameSlots o₁.state o₃.state :=
    sameSlots_of_lanes_map (c := { probe := some o₁.state.staging.key }) (by rw [hs₃, hs₂]) rfl
  have hend : o₃.state.run ([].map .ofLines) = .ok ([], o₃.state) := rfl
  refine ⟨_, o₃.state, run_cons_of_ok ht₁ (run_cons_of_ok ht₂ (run_cons_of_ok ht₃ hend)), ?_, ?_⟩
  · simp only [List.map_cons, List.map_nil, beat, hr₁, hr₂, hr₃]
  · refine ⟨?_, ?_, ?_, hb.sameSlots.trans hsame, ?_⟩ <;> rw [hs₃, hs₂]
    · exact hb.rounds_eq
    · exact hb.config_eq
    · exact hb.staging_eq

/-- What the last cycle of its first round does to the slots, an operation does to them. -/
theorem oneRound (hrest : e.atRest = true) (hr : lines.exclusive? = some r)
    (hstarted : Phase.started (some r) = .probing) (l₁ l₂ l₃ : Lines)
    (hlast : ∀ e', Steady e' → e'.phase = .writing → e'.config = e.config → SameSlots e e' →
      e'.staging = e.staging.take (some r) false e.config.keyMask e.config.dataMask →
      e'.evicted? = none ∧ ∀ e'' result, Move e' l₃ e'' result → e''.phase ≠ e'.phase →
        Ends e' e'' slots) :
    e.OneRound r [lines, l₁, l₂, l₃] slots := by
  obtain ⟨beats, e', hrun, hresults, hp, hzero, hc, hsame, hstaging⟩ :=
    h.run_to_writing hrest hr hstarted l₁ l₂
  have h' := h.run hrun
  obtain ⟨hev, hends⟩ := hlast e' h' hp hc hsame hstaging
  obtain ⟨o, ht, hresult, hm, hgo⟩ := h'.tick_of_writing hp hev l₃
  obtain ⟨hidle, hrounds, hstaging', hcount, hslots⟩ := hends _ _ hm hgo
  obtain ⟨keys, hk⟩ := h'.accounted
  have hbusy := hk.busy (by simp [hp])
  have hlast : e'.run ([l₃].map .ofLines) = .ok ([e'.beat (.ofLines l₃) o], o.state) :=
    run_cons_of_ok ht rfl
  refine ⟨_, o.state, run_append_of_ok hrun hlast, ?_, ?_, hrounds.trans hzero, hslots⟩
  · rw [List.map_append, hresults, List.map_singleton, beat, hresult]
    rfl
  · rw [atRest_eq_true, hcount, hstaging', Staging.holdsLookup, beq_eq_false_iff_ne]
    exact ⟨hidle, hbusy⟩

theorem oneRound_of_entry (hrest : e.atRest = true) (hr : lines.exclusive? = some r)
    (hstarted : Phase.started (some r) = .probing) (l₁ l₂ l₃ : Lines) {x : Entry}
    (hx : x ∈ e.entries) {w : Slot}
    (hw : (e.staging.take (some r) false e.config.keyMask e.config.dataMask).slot = w)
    (hkey : w.key = x.key) :
    e.OneRound r [lines, l₁, l₂, l₃] (e.slotsWith x.bank x.index w) := by
  have hslot := mem_entries.1 hx
  have hv : (e.slotAt x.bank x.index).valid = true := by rw [hslot]
  have hfound := h.sound.toPlaced.found_of_valid hv
  have hhome := h.sound.home_eq _ _ hv
  rw [hslot] at hfound hhome
  apply h.oneRound hrest hr hstarted
  intro e' h' hp hc hsame hstaging
  have hstaged : e'.staging.slot = w := hstaging ▸ hw
  have hstagedKey : e'.staging.key = x.key := (congrArg Slot.key hstaged).trans hkey
  have hfound' : (e'.readAt x.bank e'.staging.key).found = true := by
    rw [hstagedKey, hsame.readAt_eq]
    exact hfound
  have hnot : ¬e'.Misses e'.staging.key := by
    intro hmiss
    rw [misses_iff.1 hmiss] at hfound'
    cases hfound'
  obtain ⟨keys, hk⟩ := h'.accounted
  refine ⟨hk.evicted?_eq_none hp fun _ hmiss => absurd hmiss hnot, fun e'' result hm hgo => ?_⟩
  rcases hm.writing_cases hk.toBuilt hp hgo with
    ⟨t, hf, hends⟩ | ⟨-, hmiss, -⟩ | ⟨-, hmiss, -⟩ | ⟨-, hmiss, -⟩
  -- The bank that was written holds the key, and so does that of the entry.
  · obtain rfl := h'.sound.unique _ _ _ hf hfound'
    have hsamewith : e'.slotsWith x.bank (e'.home x.bank e'.staging.key) e'.staging.slot =
        e.slotsWith x.bank x.index w := by
      funext u j
      rw [slotsWith, slotsWith, hsame.slotAt_eq, hsame.home_eq, hstaged, hstagedKey, ← hhome]
    exact hsamewith ▸ hends
  · exact absurd hmiss hnot
  · exact absurd hmiss hnot
  · exact absurd hmiss hnot

theorem oneRound_of_free (hrest : e.atRest = true)
    (hr : lines.exclusive? = some (.insert key data)) (l₁ l₂ l₃ : Lines)
    (hmiss : e.Misses (key &&& e.config.keyMask)) (ht : t < e.config.banks)
    (hfree : (e.readAt t (key &&& e.config.keyMask)).occupied = false)
    (hlow : ∀ u < t, (e.readAt u (key &&& e.config.keyMask)).occupied = true) :
    e.OneRound (.insert key data) [lines, l₁, l₂, l₃]
      (e.slotsWith t (e.home t (key &&& e.config.keyMask))
        ⟨key &&& e.config.keyMask, data &&& e.config.dataMask, true⟩) := by
  apply h.oneRound hrest hr rfl
  intro e' h' hp hc hsame hstaging
  obtain ⟨keys, hk⟩ := h'.accounted
  have hlt : t < e'.lanes.length := by
    rw [hk.lanes_length, hc]
    exact ht
  have hstagedKey : e'.staging.key = key &&& e.config.keyMask := by
    rw [hstaging]
    rfl
  have hread : ∀ u, e'.readAt u e'.staging.key = e.readAt u (key &&& e.config.keyMask) := by
    intro u
    rw [hsame.readAt_eq, hstagedKey]
  have hfree' : (e'.readAt t e'.staging.key).occupied = false := hread t ▸ hfree
  refine ⟨hk.evicted?_eq_none hp fun _ _ => ⟨t, hlt, hfree'⟩, fun e'' result hm hgo => ?_⟩
  rcases hm.writing_cases hk.toBuilt hp hgo with
    ⟨u, hf, -⟩ | ⟨-, -, u, -, hfreeu, hlowu, hends⟩ | ⟨-, -, hfull⟩ | ⟨ho, -⟩
  · rw [hread, misses_iff.1 hmiss] at hf
    cases hf
  -- Both banks are free and the lowest such.
  · have hut : u = t := by
      rcases Nat.lt_trichotomy u t with hu | hu | hu
      · rw [hread, hlow u hu] at hfreeu
        cases hfreeu
      · exact hu
      · rw [hlowu t hu] at hfree'
        cases hfree'
    subst hut
    have hsamewith : e'.slotsWith u (e'.home u e'.staging.key) e'.staging.slot =
        e.slotsWith u (e.home u (key &&& e.config.keyMask))
          ⟨key &&& e.config.keyMask, data &&& e.config.dataMask, true⟩ := by
      funext v j
      rw [slotsWith, slotsWith, hsame.slotAt_eq, hsame.home_eq, hstaging]
      rfl
    exact hsamewith ▸ hends
  · rw [hfull t hlt] at hfree'
    cases hfree'
  · rw [hstaging] at ho
    cases ho

theorem oneRound_of_missing (hrest : e.atRest = true)
    (hr : lines.exclusive? = some (.delete key)) (l₁ l₂ l₃ : Lines)
    (hmiss : e.Misses (key &&& e.config.keyMask)) :
    e.OneRound (.delete key) [lines, l₁, l₂, l₃] e.slotAt := by
  apply h.oneRound hrest hr rfl
  intro e' h' hp hc hsame hstaging
  obtain ⟨keys, hk⟩ := h'.accounted
  have ho : e'.staging.origin = .delete := by
    rw [hstaging]
    rfl
  have hstagedKey : e'.staging.key = key &&& e.config.keyMask := by
    rw [hstaging]
    rfl
  refine ⟨evicted?_of_delete ho, fun e'' result hm hgo => ?_⟩
  rcases hm.writing_cases hk.toBuilt hp hgo with
    ⟨u, hf, -⟩ | ⟨hins, -⟩ | ⟨hins, -⟩ | ⟨-, -, hends⟩
  · rw [hsame.readAt_eq, hstagedKey, misses_iff.1 hmiss] at hf
    cases hf
  · exact absurd (ho.symm.trans hins) (by decide)
  · exact absurd (ho.symm.trans hins) (by decide)
  · exact { hends with slotAt_eq := fun u j => (hends.slotAt_eq u j).trans (hsame.slotAt_eq u j) }

end Steady

variable {hash : Nat → Key → Word} {depth : Nat → Nat}

/-- An insert changes the data of its key's entry, or fills the lowest free slot if there is none; a
delete empties the slot of its key's entry, or does nothing. Each is over after one round, and no other
slot changes. -/
theorem one_round_frame (h : ofLanes c (emptyLanes c hash depth) = .ok e) (hr : e.Reaches s)
    (hrest : s.atRest = true) (lines l₁ l₂ l₃ : Lines) :
    (∀ key data, lines.exclusive? = some (.insert key data) →
      (∀ x ∈ s.entries, x.key = key &&& c.keyMask →
        s.OneRound (.insert key data) [lines, l₁, l₂, l₃]
          (s.slotsWith x.bank x.index ⟨x.key, data &&& c.dataMask, true⟩)) ∧
      (key &&& c.keyMask ∉ s.storedKeys → ∀ t < c.banks,
        (s.slotAt t (s.home t (key &&& c.keyMask))).valid = false →
        (∀ u < t, (s.slotAt u (s.home u (key &&& c.keyMask))).valid = true) →
        s.OneRound (.insert key data) [lines, l₁, l₂, l₃]
          (s.slotsWith t (s.home t (key &&& c.keyMask))
            ⟨key &&& c.keyMask, data &&& c.dataMask, true⟩))) ∧
    ∀ key, lines.exclusive? = some (.delete key) →
      (∀ x ∈ s.entries, x.key = key &&& c.keyMask →
        s.OneRound (.delete key) [lines, l₁, l₂, l₃]
          (s.slotsWith x.bank x.index ⟨x.key, s.staging.data, false⟩)) ∧
      (key &&& c.keyMask ∉ s.storedKeys →
        s.OneRound (.delete key) [lines, l₁, l₂, l₃] s.slotAt) := by
  obtain ⟨hs, rfl⟩ := hr.steady h
  constructor
  · intro key data hlines
    constructor
    · intro x hx hkey
      refine hs.oneRound_of_entry hrest hlines rfl l₁ l₂ l₃ hx ?_ rfl
      rw [hkey]
      rfl
    · intro habsent t ht hfree hlow
      exact hs.oneRound_of_free hrest hlines l₁ l₂ l₃ (misses_of_not_mem habsent) ht hfree hlow
  · intro key hlines
    constructor
    · intro x hx hkey
      refine hs.oneRound_of_entry hrest hlines rfl l₁ l₂ l₃ hx ?_ rfl
      rw [hkey]
      rfl
    · intro habsent
      exact hs.oneRound_of_missing hrest hlines l₁ l₂ l₃ (misses_of_not_mem habsent)

/-- The keys 1 and 3 take all slots that the key 5 could have. -/
theorem one_round_frame_saturated :
    ∃ s, (smallEngine fun _ => id).Reaches s ∧ s.entries = [⟨0, 1, 1, 10⟩, ⟨1, 1, 3, 30⟩] ∧
      s.OneRound (.insert 3 31) [{ insert := some (3, 31) }, {}, {}, {}]
        (s.slotsWith 1 1 ⟨3, 31, true⟩) ∧
      s.OneRound (.insert 2 20) [{ insert := some (2, 20) }, {}, {}, {}]
        (s.slotsWith 0 0 ⟨2, 20, true⟩) ∧
      s.OneRound (.delete 1) [{ delete := some 1 }, {}, {}, {}]
        (s.slotsWith 0 1 ⟨1, 30, false⟩) ∧
      s.OneRound (.delete 5) [{ delete := some 5 }, {}, {}, {}] s.slotAt := by
  obtain ⟨s, hr, hrest, hentries, hkeys, hdata, hhome, hfree⟩ :
      ∃ s, (smallEngine fun _ => id).Reaches s ∧ s.atRest = true ∧
        s.entries = [⟨0, 1, 1, 10⟩, ⟨1, 1, 3, 30⟩] ∧ s.storedKeys = [1, 3] ∧
        s.staging.data = 30 ∧ s.home 0 2 = 0 ∧ (s.slotAt 0 0).valid = false :=
    ⟨_, ⟨[{ insert := some (1, 10) }, {}, {}, {}, { insert := some (3, 30) }, {}, {}, {}], _, rfl⟩,
      rfl, rfl, rfl, rfl, rfl, rfl⟩
  have hframe := fun lines => one_round_frame (ofLanes_smallEngine _) hr hrest lines {} {} {}
  refine ⟨s, hr, hentries, ?_, ?_, ?_, ?_⟩
  · exact ((hframe { insert := some (3, 31) }).1 3 31 rfl).1 ⟨1, 1, 3, 30⟩ (by simp [hentries]) rfl
  · have hfill := ((hframe { insert := some (2, 20) }).1 2 20 rfl).2 (by rw [hkeys]; decide) 0
      (by decide)
    rw [show (2 : Key) &&& smallConfig.keyMask = 2 from rfl, hhome] at hfill
    exact hfill hfree fun u hu => absurd hu (Nat.not_lt_zero u)
  · rw [← hdata]
    exact ((hframe { delete := some 1 }).2 1 rfl).1 ⟨0, 1, 1, 10⟩ (by simp [hentries]) rfl
  · exact ((hframe { delete := some 5 }).2 5 rfl).2 (by rw [hkeys]; decide)

end Engine
end ClockedCuckoo
