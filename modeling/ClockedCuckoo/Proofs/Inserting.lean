import Mathlib.Data.List.Nodup
import Mathlib.Data.Set.Function
import ClockedCuckoo.Proofs.KeptKeys
import ClockedCuckoo.Proofs.Lookups

/-! An insert over banks that were empty once keeps the map that it began with until it ends. If the
keys do not fit into their slots it never ends: the entries and the staged one stay the same, and one
of them is always on its way. -/

namespace ClockedCuckoo

namespace Engine

def pairs (e : Engine) : List (Key × Data) :=
  e.entries.map fun x => (x.key, x.data)

/-- The keys can be given banks such that no two of them belong in the same slot. -/
def Placeable (e : Engine) (ks : List Key) : Prop :=
  ∃ bank : Key → Nat, (∀ k ∈ ks, bank k < e.config.banks) ∧
    Set.InjOn (fun k => (bank k, e.home (bank k) k)) {k | k ∈ ks}

structure Carries (e₀ : Engine) (m : Store) (e : Engine) : Prop where
  accounted : ∃ keys, e.Accounted keys
  sound : e.Sound
  represents : e.Represents m
  config_eq : e.config = e₀.config
  home_eq : ∀ t key, e.home t key = e₀.home t key

structure Inserting (e₀ : Engine) (m : Store) (beats : List Beat) (e : Engine) : Prop
    extends Carries e₀ m e where
  updating : e.Updating
  origin_eq : e.staging.origin = .insert
  length_eq : beats.length = 3 * e.rounds + e.phase.elapsed
  busy : ∀ b ∈ beats, b.start.phase ≠ .idle ∧ ∃ out, b.result = .ok out

structure Inserted (e₀ : Engine) (m : Store) (beats : List Beat) (e : Engine) : Prop
    extends Carries e₀ m e where
  idle : e.phase = .idle
  length_eq : beats.length = 3 * (e.rounds + 1)
  busy : ∀ b ∈ beats, b.start.phase ≠ .idle ∧ ∃ out, b.result = .ok out

variable {c : Config} {e e' e₀ : Engine} {keys ks : List Key} {lines : Lines} {m : Store}
  {k : Key} {t : Nat}

section Entries

theorem Placed.mem_storedKeys_iff (h : e.Placed) : k ∈ e.storedKeys ↔ ∃ d, e.Holds k d := by
  rw [mem_storedKeys]
  constructor
  · rintro ⟨t, i, hv, rfl⟩
    exact ⟨_, t, h.found_of_valid hv, rfl⟩
  · rintro ⟨d, t, hf, -⟩
    exact mem_storedKeys.1 (mem_storedKeys_of_found hf)

theorem Placed.nodup_pairs (h : e.Placed) : e.pairs.Nodup := by
  apply List.Nodup.of_map Prod.fst
  rw [pairs, List.map_map]
  exact h.nodup_keys

theorem SameSlots.perm_pairs (h : SameSlots e e') (hs : e.Placed) (hs' : e'.Placed) :
    e'.pairs.Perm e.pairs := by
  rw [List.perm_ext_iff_of_nodup hs'.nodup_pairs hs.nodup_pairs]
  rintro ⟨key, data⟩
  exact hs'.mem_pairs.trans (h.holds_iff.trans hs.mem_pairs.symm)

theorem Built.placeable (h : e.Built keys) (hf : ∀ k ∈ ks, ∃ t, (e.readAt t k).found = true) :
    e.Placeable ks := by
  choose! bank hbank using hf
  refine ⟨bank, fun k hk => ?_, fun k hk l hl hkl => ?_⟩
  · by_contra hle
    rw [← h.lanes_length, Nat.not_lt] at hle
    have hfound := hbank k hk
    rw [found_of_length_le hle] at hfound
    cases hfound
  · obtain ⟨hb, hhome⟩ := Prod.mk.inj hkl
    obtain ⟨-, hkey⟩ := found_readAt.1 (hbank k hk)
    obtain ⟨-, hkey'⟩ := found_readAt.1 (hbank l hl)
    rw [hhome, hb] at hkey
    exact hkey.symm.trans hkey'

end Entries

namespace Carries

theorem behind (h : Carries e₀ m e) (gates : Nat → Gate) : Carries e₀ m (e.behind gates) where
  accounted := h.accounted.imp fun _ hk => hk.behind gates
  sound := h.sound.behind gates
  represents := h.represents.behind gates
  config_eq := h.config_eq
  home_eq t key := ((sameSlots_behind gates).home_eq t key).trans (h.home_eq t key)

theorem fault?_eq_none (h : Carries e₀ m e) : e.fault? = none := by
  obtain ⟨keys, hk⟩ := h.accounted
  exact h.sound.toPlaced.fault?_eq_none hk.toBuilt

theorem move {result : Except Duplicate Outputs} (h : Carries e₀ m e)
    (hm : Move e lines e' result) (hp : e.phase ≠ .idle) : Carries e₀ m e' := by
  obtain ⟨keys, hk⟩ := h.accounted
  obtain ⟨keys', hk', -⟩ := hm.accounted hk
  have hrep := hm.represents hk h.sound h.represents
  rw [nextStore_of_ne hp] at hrep
  exact ⟨⟨keys', hk'⟩, hm.sound hk h.sound, hrep, hm.config_eq.trans h.config_eq,
    fun t key => (hm.home_eq t key).trans (h.home_eq t key)⟩

/-- Once every key of the map is found in a bank, the keys are seen to fit. -/
theorem placeable (h : Carries e₀ m e) (hks : ∀ k ∈ ks, (m k).isSome = true)
    (hall : e.phase = .idle ∨ e.Updating ∧ ¬e.Misses e.staging.key) : e₀.Placeable ks := by
  have hfound : ∀ k ∈ ks, ∃ t, (e.readAt t k).found = true := by
    intro k hk
    obtain ⟨d, hd⟩ := Option.isSome_iff_exists.1 (hks k hk)
    rcases hall with hp | ⟨hup, hhit⟩
    · obtain ⟨t, hf, -⟩ := (h.represents.idle hp k d).1 hd
      exact ⟨t, hf⟩
    · have hheld := (h.represents.updating hup k d).1 hd
      by_cases hstaged : k = e.staging.key
      · rw [misses_iff, not_forall] at hhit
        simpa [hstaged] using hhit
      · rw [if_neg hstaged] at hheld
        obtain ⟨t, hf, -⟩ := hheld
        exact ⟨t, hf⟩
  obtain ⟨keys, hk⟩ := h.accounted
  obtain ⟨bank, hlt, hinj⟩ := hk.placeable hfound
  exact ⟨bank, h.config_eq ▸ hlt, by simpa only [h.home_eq] using hinj⟩

end Carries

namespace Inserting

variable {beats : List Beat}

theorem staged_valid (h : Inserting e₀ m beats e) : e.staging.valid = true := by
  obtain ⟨keys, hk⟩ := h.accounted
  exact hk.staged_valid h.updating h.origin_eq

theorem isSome_of_found (h : Inserting e₀ m beats e)
    (hf : (e.readAt t k).found = true) : (m k).isSome = true := by
  rw [Option.isSome_iff_exists]
  simp only [h.represents.updating h.updating]
  split
  · exact ⟨_, h.staged_valid, rfl⟩
  · exact ⟨_, t, hf, rfl⟩

theorem isSome_staged (h : Inserting e₀ m beats e) :
    (m e.staging.key).isSome = true := by
  rw [Option.isSome_iff_exists]
  simp only [h.represents.updating h.updating, if_pos]
  exact ⟨_, h.staged_valid, rfl⟩

theorem beat (h : Inserting e₀ m beats e) (l : Lines) {o : Outcome Engine Duplicate Outputs}
    (hm : Move (e.behind (Drive.ofLines l).gates) l o.state o.result)
    (hgo : e.Updating → o.state.phase ≠ e.phase) :
    Inserting e₀ m (beats ++ [e.beat (.ofLines l) o]) o.state ∨
      Inserted e₀ m (beats ++ [e.beat (.ofLines l) o]) o.state ∧ o.state.rounds = e.rounds := by
  have hcarries := h.toCarries.behind (Drive.ofLines l).gates
  have hnext := hcarries.move hm h.updating.not_idle
  have hok := hm.result_eq hcarries.fault?_eq_none
  have hbusy : ∀ b ∈ beats ++ [e.beat (.ofLines l) o],
      b.start.phase ≠ .idle ∧ ∃ out, b.result = .ok out := by
    intro b hmem
    rcases List.mem_append.1 hmem with hmem | hmem
    · exact h.busy b hmem
    · rw [List.mem_singleton.1 hmem]
      exact ⟨h.updating.not_idle, _, hok⟩
  have hlength : (beats ++ [e.beat (.ofLines l) o]).length =
      3 * e.rounds + e.phase.elapsed + 1 := by
    rw [List.length_append, h.length_eq]
    rfl
  rcases hm.clock h.updating (hgo h.updating) with ⟨hup, ho, hclock⟩ | ⟨hidle, hr, hlast⟩
  · exact .inl ⟨hnext, hup, ho.trans h.origin_eq, hlength.trans hclock.symm, hbusy⟩
  · have hwriting : e.phase = .writing := by
      refine hlast.resolve_right ?_
      rintro ⟨d, hd⟩
      rw [hd] at hok
      cases hok
    refine .inr ⟨⟨hnext, hidle, ?_, hbusy⟩, hr⟩
    rw [hlength, hwriting, hr]
    rfl

theorem mem_staged_pairs (h : Inserting e₀ m beats e) (hmiss : e.Misses e.staging.key)
    {d : Data} : (k, d) ∈ (e.staging.key, e.staging.data) :: e.pairs ↔ m k = some d := by
  rw [h.represents.updating h.updating, List.mem_cons, pairs, h.sound.toPlaced.mem_pairs]
  by_cases hk : k = e.staging.key
  · subst hk
    rw [if_pos rfl, or_iff_left hmiss.not_holds, Prod.mk.injEq, h.staged_valid]
    exact and_congr_right' eq_comm |>.trans (and_congr_left' (iff_of_true rfl rfl))
  · rw [if_neg hk, or_iff_right fun heq => hk (Prod.mk.inj heq).1]

theorem nodup_staged_pairs (h : Inserting e₀ m beats e) (hmiss : e.Misses e.staging.key) :
    ((e.staging.key, e.staging.data) :: e.pairs).Nodup := by
  refine List.nodup_cons.2 ⟨fun hmem => ?_, h.sound.toPlaced.nodup_pairs⟩
  exact hmiss.not_holds (h.sound.toPlaced.mem_pairs.1 hmem)

theorem perm_staged_pairs {beats' : List Beat} (h : Inserting e₀ m beats e)
    (h' : Inserting e₀ m beats' e') (hmiss : e.Misses e.staging.key)
    (hmiss' : e'.Misses e'.staging.key) :
    ((e'.staging.key, e'.staging.data) :: e'.pairs).Perm
      ((e.staging.key, e.staging.data) :: e.pairs) := by
  rw [List.perm_ext_iff_of_nodup (h'.nodup_staged_pairs hmiss') (h.nodup_staged_pairs hmiss)]
  rintro ⟨k, d⟩
  rw [h'.mem_staged_pairs hmiss', h.mem_staged_pairs hmiss]

theorem rounds_eq (h : Inserting e₀ m beats e) : e.rounds = beats.length / 3 := by
  have hlength := h.length_eq
  have hlt := e.phase.elapsed_lt
  omega

end Inserting

theorem Represents.isSome_iff (h : e.Represents m) (hs : e.Placed) (hp : e.phase = .idle) :
    (m k).isSome = true ↔ k ∈ e.storedKeys := by
  rw [Option.isSome_iff_exists, hs.mem_storedKeys_iff]
  exact exists_congr fun d => h.idle hp k d

theorem Began.inserting {key : Key} {data : Data} (hb : Began e₀ (.insert key data) e)
    (hk : e₀.Accounted keys) (hs : e₀.Sound) (hr : e₀.Represents m) :
    Inserting e₀ (m.apply e₀.config (.insert key data)) [] e where
  accounted := ⟨[], hb.accounted⟩
  sound := by
    obtain ⟨lines, gates, -, hm⟩ := hb.move
    exact hm.sound (hk.behind gates) (hs.behind gates)
  represents := by
    obtain ⟨lines, gates, hacc, hm⟩ := hb.move
    have hrep := hm.represents (hk.behind gates) (hs.behind gates) (hr.behind gates)
    rwa [nextStore, hacc] at hrep
  config_eq := hb.config_eq
  home_eq := hb.sameSlots.home_eq
  updating := .inl hb.phase_eq
  origin_eq := by
    rw [hb.staging_eq]
    rfl
  length_eq := by
    rw [hb.rounds_eq, hb.phase_eq]
    rfl
  busy := by simp

theorem exists_inserting {hash : Nat → Key → Word} {depth : Nat → Nat}
    (h : ofLanes c (emptyLanes c hash depth) = .ok e) (hr : e.Reaches e₀) {key : Key}
    {data : Data} (hacc : e₀.accepted? lines = some (.insert key data)) :
    ∃ m o, e₀.tick (.ofLines lines) = .ok o ∧ Began e₀ (.insert key data) o.state ∧
      Inserting e₀ m [] o.state ∧ e₀.config = c ∧ e₀.Placed ∧
      ∀ k, (m k).isSome = true ↔ k ∈ (key &&& c.keyMask) :: e₀.storedKeys := by
  obtain ⟨ls, beats, hrun⟩ := hr
  obtain ⟨keys, hf⟩ := follows_of_run h hrun
  obtain ⟨o, ht, -, hbegan⟩ := hf.accounted.tick_of_exclusive hacc rfl _
  refine ⟨_, o, ht, hbegan, hbegan.inserting hf.accounted hf.sound hf.represents, hf.config_eq,
    hf.sound.toPlaced, fun k => ?_⟩
  have hp := (accepted?_cases hacc).1
  rw [List.mem_cons, ← hf.represents.isSome_iff hf.sound.toPlaced hp, Store.apply, hf.config_eq]
  by_cases hk : k = key &&& c.keyMask
  · simp [hk]
  · simp [hk]

/-- An insert of keys that do not fit never ends. It evicts in every third cycle, and the entries
together with the staged one are the same all along. -/
theorem unplaceable_insert_evicts {hash : Nat → Key → Word} {depth : Nat → Nat}
    (h : ofLanes c (emptyLanes c hash depth) = .ok e) (hr : e.Reaches e₀) {key : Key}
    {data : Data} (hacc : e₀.accepted? lines = some (.insert key data))
    (hno : ¬e₀.Placeable ((key &&& c.keyMask) :: e₀.storedKeys)) (after : List Lines) :
    e₀.RunsTo ((lines :: after).map .ofLines) fun _ e' =>
      e'.phase ≠ .idle ∧ e'.rounds = after.length / 3 ∧
      ((e'.staging.key, e'.staging.data) :: e'.pairs).Perm
        ((key &&& c.keyMask, data &&& c.dataMask) :: e₀.pairs) := by
  obtain ⟨m, o, ht, hbegan, hstart, rfl, hplaced, hdom⟩ := exists_inserting h hr hacc
  have hmisses : ∀ beats e', Inserting e₀ m beats e' → e'.Misses e'.staging.key := by
    intro beats e' hi
    by_contra hhit
    exact hno (hi.placeable (fun k => (hdom k).2) (.inr ⟨hi.updating, hhit⟩))
  have hruns : o.state.RunsTo (after.map .ofLines) fun beats e' => Inserting e₀ m beats e' := by
    apply runsTo_open hbegan.rounds_eq hstart
    · exact fun _ _ hi => hi.accounted
    · intro beats e' l o' hi hm hgo
      refine (hi.beat l hm hgo).resolve_right ?_
      rintro ⟨hended, -⟩
      exact hno (hended.placeable (fun k => (hdom k).2) (.inl hended.idle))
  apply RunsTo.cons ht
  apply hruns.mono
  intro beats e' hrun hi
  refine ⟨hi.updating.not_idle, ?_, ?_⟩
  · rw [hi.rounds_eq, length_of_run hrun, List.length_map]
  · have hperm := hstart.perm_staged_pairs hi (hmisses _ _ hstart) (hmisses _ _ hi)
    have hsame := hbegan.sameSlots.perm_pairs hplaced hstart.sound.toPlaced
    rw [hbegan.staging_eq] at hperm
    exact hperm.trans (hsame.cons _)

def smallEngine (hash : Nat → Key → Word) : Engine :=
  start smallConfig (emptyLanes smallConfig hash fun _ => 1)

theorem ofLanes_smallEngine (hash : Nat → Key → Word) :
    ofLanes smallConfig (emptyLanes smallConfig hash fun _ => 1) = .ok (smallEngine hash) := rfl

/-- Two of the keys 1, 3 and 5 share a slot, whichever banks they are given. -/
theorem unplaceable_insert_evicts_crowded :
    ∃ e₀ beats e', (smallEngine fun _ => id).Reaches e₀ ∧ e₀.pairs = [(1, 10), (3, 30)] ∧
      e₀.run ([{ insert := some (5, 50) }, {}, {}, {}, {}, {}, {}, {}].map .ofLines) =
        .ok (beats, e') ∧
      e'.phase ≠ .idle ∧ e'.rounds = 2 ∧
      ((e'.staging.key, e'.staging.data) :: e'.pairs).Perm [(5, 50), (1, 10), (3, 30)] := by
  obtain ⟨e₀, hr, hbanks, hhome, hkeys, hpairs, hacc, beats, e', hrun⟩ : ∃ e₀,
      (smallEngine fun _ => id).Reaches e₀ ∧ e₀.config.banks = 2 ∧
      (∀ t < 2, e₀.home t 5 = 1 ∧ e₀.home t 1 = 1 ∧ e₀.home t 3 = 1) ∧
      e₀.storedKeys = [1, 3] ∧ e₀.pairs = [(1, 10), (3, 30)] ∧
      e₀.accepted? { insert := some (5, 50) } = some (.insert 5 50) ∧
      ∃ beats e', e₀.run ([{ insert := some (5, 50) }, {}, {}, {}, {}, {}, {}, {}].map
        .ofLines) = .ok (beats, e') :=
    ⟨_, ⟨[{ insert := some (1, 10) }, {}, {}, {}, { insert := some (3, 30) }, {}, {}, {}],
      _, rfl⟩, rfl, fun | 0, _ => ⟨rfl, rfl, rfl⟩ | 1, _ => ⟨rfl, rfl, rfl⟩, rfl, rfl, rfl,
      _, _, rfl⟩
  have hno : ¬e₀.Placeable ((5 &&& smallConfig.keyMask) :: e₀.storedKeys) := by
    rw [hkeys]
    rintro ⟨bank, hlt, hinj⟩
    have hlt : ∀ k ∈ [5, 1, 3], bank k < 2 := fun k hk => hbanks ▸ hlt k hk
    have hhome : ∀ k ∈ [5, 1, 3], e₀.home (bank k) k = 1 := by
      intro k hk
      obtain ⟨h5, h1, h3⟩ := hhome _ (hlt k hk)
      simp only [List.mem_cons, List.not_mem_nil, or_false] at hk
      rcases hk with rfl | rfl | rfl
      · exact h5
      · exact h1
      · exact h3
    have hne : ∀ k ∈ [5, 1, 3], ∀ l ∈ [5, 1, 3], k ≠ l → bank k ≠ bank l := by
      intro k hk l hl hkl hbank
      exact hkl (hinj hk hl (Prod.ext hbank ((hhome k hk).trans (hhome l hl).symm)))
    have h5 := hlt 5 (by simp)
    have h1 := hlt 1 (by simp)
    have h3 := hlt 3 (by simp)
    have h51 := hne 5 (by simp) 1 (by simp) (by decide)
    have h53 := hne 5 (by simp) 3 (by simp) (by decide)
    have h13 := hne 1 (by simp) 3 (by simp) (by decide)
    omega
  have hruns := unplaceable_insert_evicts (ofLanes_smallEngine _) hr hacc hno
    [{}, {}, {}, {}, {}, {}, {}]
  obtain ⟨hbusy, hrounds, hperm⟩ := hruns.ok hrun
  rw [hpairs] at hperm
  exact ⟨e₀, beats, e', hr, hpairs, hrun, hbusy, hrounds, hperm⟩

end Engine
end ClockedCuckoo
