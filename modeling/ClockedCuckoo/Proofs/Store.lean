import ClockedCuckoo.Proofs.Placement

/-! The map that an engine stands for: how requests change it and what lookups of it are answered,
and what an engine with placed entries holds. -/

namespace ClockedCuckoo

abbrev Store := Key → Option Data

/-- What a lookup is told: its key, whether the key was found, and the data. -/
abbrev Answer := Key × Bool × Option Data

def Response.answer (r : Response) : Answer :=
  (r.key, r.found, r.data)

namespace Store

def empty : Store :=
  fun _ => none

def apply (c : Config) (m : Store) : Request → Store
  | .clean => empty
  | .delete key => fun k => if k = key &&& c.keyMask then none else m k
  | .insert key data => fun k => if k = key &&& c.keyMask then some (data &&& c.dataMask) else m k
  | .lookup _ => m

def after (c : Config) (m : Store) (rs : List Request) : Store :=
  rs.foldl (apply c) m

def answer (m : Store) (key : Key) : Answer :=
  (key, (m key).isSome, m key)

/-- The answers to the lookups among the requests, each from the map that the lookup meets. -/
def expected (c : Config) : Store → List Request → List Answer
  | _, [] => []
  | m, r :: rs => ((r.lookup? c.keyMask).map m.answer).toList ++ expected c (m.apply c r) rs

variable {c : Config}

theorem after_append (m : Store) (rs ss : List Request) :
    after c m (rs ++ ss) = after c (after c m rs) ss :=
  List.foldl_append

theorem expected_append (m : Store) (rs ss : List Request) :
    expected c m (rs ++ ss) = expected c m rs ++ expected c (after c m rs) ss := by
  induction rs generalizing m with
  | nil => rfl
  | cons r rs ih =>
    rw [List.cons_append, expected, expected, ih, List.append_assoc]
    rfl

end Store

namespace Bank

theorem mem_entries {b : Bank} {i : Nat} {key : Key} {data : Data} :
    (i, key, data) ∈ b.entries ↔ b.slotAt i = ⟨key, data, true⟩ := by
  rw [entries, List.mem_filterMap, ← Slot.stored?_eq_some]
  constructor
  · rintro ⟨j, -, hj⟩
    obtain ⟨entry, hentry, heq⟩ := Option.map_eq_some_iff.1 hj
    cases heq
    exact hentry
  · intro h
    have hi : i < b.size := by
      by_contra hle
      rw [slotAt_eq_of_le (Nat.not_lt.1 hle)] at h
      cases h
    exact ⟨i, List.mem_range.2 hi, by rw [stored?, h]; rfl⟩

theorem pairwise_entries (b : Bank) : b.entries.Pairwise fun x y => x.1 < y.1 := by
  rw [entries, List.pairwise_filterMap]
  refine List.pairwise_lt_range.imp fun {i j} hlt x hx y hy => ?_
  obtain ⟨_, -, rfl⟩ := Option.map_eq_some_iff.1 hx
  obtain ⟨_, -, rfl⟩ := Option.map_eq_some_iff.1 hy
  exact hlt

end Bank

namespace Engine

def Holds (e : Engine) (key : Key) (data : Data) : Prop :=
  ∃ t, (e.readAt t key).found = true ∧ (e.readAt t key).slot.data = data

variable {e e' : Engine} {keys : List Key} {t : Nat} {key : Key} {data : Data}

theorem SameSlots.holds_iff (h : SameSlots e e') : e'.Holds key data ↔ e.Holds key data := by
  simp only [Holds, h.readAt_eq]

theorem Misses.not_holds (h : e.Misses key) : ¬e.Holds key data := by
  rintro ⟨t, hf, -⟩
  rw [misses_iff.1 h t] at hf
  cases hf

theorem Placed.holds_iff_of_found (h : e.Placed) (hf : (e.readAt t key).found = true) :
    e.Holds key data ↔ (e.readAt t key).slot.data = data := by
  constructor
  · rintro ⟨u, hu, hd⟩
    rwa [h.unique key t u hf hu]
  · exact fun hd => ⟨t, hf, hd⟩

theorem found_readAt_iff_slot : (e.readAt t key).found = true ∧ (e.readAt t key).slot.data = data ↔
    (e.readAt t key).slot = ⟨key, data, true⟩ := by
  rw [found_readAt]
  show _ ∧ (e.slotAt t (e.home t key)).data = data ↔ e.slotAt t (e.home t key) = ⟨key, data, true⟩
  obtain ⟨k, d, v⟩ := e.slotAt t (e.home t key)
  simp only [Slot.mk.injEq]
  constructor
  · rintro ⟨⟨hv, hk⟩, hd⟩
    exact ⟨hk, hd, hv⟩
  · rintro ⟨hk, hd, hv⟩
    exact ⟨⟨hv, hk⟩, hd⟩

theorem holds_overwritten (h : e.Placed) (hb : e.Built keys) (hl : e'.lanes = e.overwritten t)
    (ht : t < e.lanes.length)
    (honly : ∀ s, (e.readAt s e.staging.key).found = true → s = t) :
    e'.Holds key data ↔ if key = e.staging.key then
        e.staging.valid = true ∧ e.staging.data = data
      else e.Holds key data ∧ ¬((e.readAt t e.staging.key).occupied = true ∧
        (e.readAt t e.staging.key).slot.key = key) := by
  have hslot : ∀ s k, (e'.readAt s k).slot =
      if s = t ∧ e.home s k = e.home t e.staging.key then e.staging.slot
      else (e.readAt s k).slot := by
    intro s k
    show e'.slotAt s (e'.home s k) = _
    rw [home_overwritten hl, slotAt_overwritten hb hl ht]
    rfl
  constructor
  · rintro ⟨s, hf, rfl⟩
    rcases Placed.found_overwritten hb hl ht hf with ⟨-, rfl, hv, hs⟩ | ⟨hne, hold, hs⟩
    · rw [if_pos rfl, hs]
      exact ⟨hv, rfl⟩
    · have hkey : key ≠ e.staging.key := by
        rintro rfl
        exact hne ⟨honly s hold, rfl⟩
      rw [if_neg hkey, hs]
      refine ⟨⟨s, hold, rfl⟩, ?_⟩
      rintro ⟨hocc, rfl⟩
      have hfound := h.found_of_valid hocc
      exact hne ⟨h.unique _ s t hold hfound, (h.home_eq t _ hocc).symm⟩
  · split
    · rintro ⟨hv, rfl⟩
      subst key
      refine ⟨t, found_readAt_iff_slot.2 ?_⟩
      rw [hslot, if_pos ⟨rfl, rfl⟩, Staging.slot, hv]
    · rintro ⟨⟨s, hf, hd⟩, hfree⟩
      refine ⟨s, found_readAt_iff_slot.2 ?_⟩
      rw [hslot, if_neg, found_readAt_iff_slot.1 ⟨hf, hd⟩]
      rintro ⟨rfl, hhome⟩
      rw [found_readAt, hhome] at hf
      exact hfree hf

section Entries

theorem mem_entries {x : Entry} :
    x ∈ e.entries ↔ e.slotAt x.bank x.index = ⟨x.key, x.data, true⟩ := by
  obtain ⟨t, i, key, data⟩ := x
  rw [entries, List.mem_flatten]
  constructor
  · rintro ⟨xs, hxs, hx⟩
    obtain ⟨u, hu, rfl⟩ := List.mem_mapIdx.1 hxs
    obtain ⟨⟨j, k, d⟩, hmem, heq⟩ := List.mem_map.1 hx
    cases heq
    rw [slotAt_of_lane (List.getElem?_eq_getElem hu)]
    exact Bank.mem_entries.1 hmem
  · intro hslot
    cases hl : e.lanes[t]? with
    | none =>
      simp only [slotAt, hl] at hslot
      cases hslot
    | some l =>
      rw [slotAt_of_lane hl] at hslot
      obtain ⟨ht, hget⟩ := List.getElem?_eq_some_iff.1 hl
      refine ⟨_, List.mem_mapIdx.2 ⟨t, ht, rfl⟩, List.mem_map.2 ⟨(i, key, data), ?_, rfl⟩⟩
      rw [hget]
      exact Bank.mem_entries.2 hslot

theorem pairwise_entries :
    e.entries.Pairwise fun x y => ¬(x.bank = y.bank ∧ x.index = y.index) := by
  rw [entries, List.pairwise_flatten]
  constructor
  · intro xs hxs
    obtain ⟨t, ht, rfl⟩ := List.mem_mapIdx.1 hxs
    rw [List.pairwise_map]
    refine (Bank.pairwise_entries _).imp fun {x y} hlt => ?_
    rintro ⟨-, hindex⟩
    exact Nat.ne_of_lt hlt hindex
  · rw [List.pairwise_iff_getElem]
    intro t u ht hu hlt x hx y hy
    rw [List.getElem_mapIdx] at hx hy
    obtain ⟨_, -, rfl⟩ := List.mem_map.1 hx
    obtain ⟨_, -, rfl⟩ := List.mem_map.1 hy
    exact fun heq => Nat.ne_of_lt hlt heq.1

theorem Placed.nodup_keys (h : e.Placed) : (e.entries.map (·.key)).Nodup := by
  rw [List.nodup_iff_pairwise_ne, List.pairwise_map]
  refine pairwise_entries.imp_of_mem fun {x y} hx hy hne hkey => hne ?_
  rw [mem_entries] at hx hy
  have hvx : (e.slotAt x.bank x.index).valid = true := by rw [hx]
  have hvy : (e.slotAt y.bank y.index).valid = true := by rw [hy]
  have hfx := h.found_of_valid hvx
  have hfy := h.found_of_valid hvy
  have hix := h.home_eq _ _ hvx
  have hiy := h.home_eq _ _ hvy
  rw [hx] at hfx hix
  rw [hy, ← hkey] at hfy hiy
  have hbank := h.unique _ _ _ hfx hfy
  refine ⟨hbank, ?_⟩
  rw [hix, hiy, hbank]

theorem Placed.mem_pairs (h : e.Placed) :
    (key, data) ∈ e.entries.map (fun x => (x.key, x.data)) ↔ e.Holds key data := by
  rw [List.mem_map]
  constructor
  · rintro ⟨x, hx, heq⟩
    cases heq
    rw [mem_entries] at hx
    have hv : (e.slotAt x.bank x.index).valid = true := by rw [hx]
    have hhome := h.home_eq _ _ hv
    rw [hx] at hhome
    refine ⟨x.bank, found_readAt_iff_slot.2 ?_⟩
    show e.slotAt x.bank (e.home x.bank x.key) = _
    rw [← hhome, hx]
  · rintro ⟨t, hheld⟩
    exact ⟨⟨t, e.home t key, key, data⟩, mem_entries.2 (found_readAt_iff_slot.1 hheld), rfl⟩

end Entries

end Engine
end ClockedCuckoo
