import ClockedCuckoo.Engine.Cycle

/-! What is stored where, and what the banks answer. A bank answers `keys` when its queue holds one
result for each of them, read from the slots as they stand; cycles that write nothing keep that. -/

namespace ClockedCuckoo

theorem Slot.stored?_eq_some {s : Slot} {key : Key} {data : Data} :
    s.stored? = some (key, data) ↔ s = ⟨key, data, true⟩ := by
  obtain ⟨k, d, v⟩ := s
  cases v with
  | false => simp [stored?]
  | true => simp [stored?]

namespace Bank

/-- The bank hashes every key into one of its `rows` slots, and its queue answers `keys`. -/
structure Answers (b : Bank) (rows : Nat) (keys : List Key) : Prop where
  size_eq : b.size = rows
  isTotal : b.hasher.IsTotal
  depth_pos : 0 < b.depth
  results_eq : b.results = keys.map b.read

variable {b : Bank} {c : Command} {rows : Nat} {keys : List Key}

theorem slotAt_cycle_of_no_write (hw : c.write = none) (i : Nat) :
    (b.cycle c).slotAt i = b.slotAt i := by
  have h := slots_cycle b c
  rw [hw] at h
  rw [slotAt, slotAt, h]

theorem slotAt_cycle_of_write {w : SlotWrite} (hw : c.write = some w) (hi : w.index < b.size)
    (i : Nat) : (b.cycle c).slotAt i = if i = w.index then w.slot else b.slotAt i := by
  have h := slots_cycle b c
  rw [hw] at h
  rw [← slotAt_write b w hi, slotAt, slotAt, h]

theorem read_cycle_of_no_write (hw : c.write = none) (key : Key) :
    (b.cycle c).read key = b.read key := by
  simp only [read, home_cycle, slotAt_cycle_of_no_write hw]

theorem home_lt (h : b.Answers rows keys) (hrows : 0 < rows) (key : Key) :
    b.home key < rows := by
  rw [home, h.size_eq]
  exact Hash.slotIndex_lt _ hrows

theorem slotAt_eq_of_le {i : Nat} (hi : b.size ≤ i) : b.slotAt i = {} := by
  rw [slotAt, Array.getD_eq_getD_getElem?, Array.getElem?_eq_none hi]
  rfl

theorem Answers.cycle (h : b.Answers rows keys) (hw : c.write = none) :
    (b.cycle c).Answers rows ((if c.consume then keys.tail else keys) ++ c.probe.toList) where
  size_eq := (size_cycle b c).trans h.size_eq
  isTotal := (hasher_cycle b c).symm ▸ h.isTotal
  depth_pos := (depth_cycle b c).symm ▸ h.depth_pos
  results_eq := by
    have hread : (b.cycle c).read = b.read := funext (read_cycle_of_no_write hw)
    rw [results_cycle, hread, h.results_eq, List.map_append]
    cases c.consume <;> cases c.probe <;> simp

theorem Answers.cycle_nil (h : b.Answers rows keys) (hp : c.probe = none)
    (hk : (if c.consume then keys.tail else keys) = []) : (b.cycle c).Answers rows [] where
  size_eq := (size_cycle b c).trans h.size_eq
  isTotal := (hasher_cycle b c).symm ▸ h.isTotal
  depth_pos := (depth_cycle b c).symm ▸ h.depth_pos
  results_eq := by
    have hempty : (if c.consume then b.results.tail else b.results) = [] := by
      rw [h.results_eq, ← List.map_tail]
      cases hc : c.consume <;> simp_all
    rw [results_cycle, hp, hempty]
    rfl

theorem Answers.oldest?_eq (h : b.Answers rows keys) : b.oldest? = keys.head?.map b.read := by
  rw [oldest?, h.results_eq, List.head?_map]

end Bank

@[simp] theorem Lane.bank_cycle (l : Lane) (c : Command) : (l.cycle c).bank = l.bank.cycle c := rfl

namespace Engine

def slotAt (e : Engine) (bank i : Nat) : Slot :=
  match e.lanes[bank]? with
  | some l => l.bank.slotAt i
  | none => {}

def home (e : Engine) (bank : Nat) (key : Key) : Nat :=
  match e.lanes[bank]? with
  | some l => l.bank.home key
  | none => 0

def readAt (e : Engine) (bank : Nat) (key : Key) : Probe :=
  let slot := e.slotAt bank (e.home bank key)
  ⟨key, e.home bank key, slot.holds key, slot⟩

def reads (e : Engine) (key : Key) : List Probe :=
  e.lanes.map (·.bank.read key)

structure SameSlots (e e' : Engine) : Prop where
  slotAt_eq : ∀ bank i, e'.slotAt bank i = e.slotAt bank i
  home_eq : ∀ bank key, e'.home bank key = e.home bank key

variable {e e' : Engine} {l : Lane} {t : Nat} {key : Key}

theorem slotAt_of_lane (h : e.lanes[t]? = some l) (i : Nat) :
    e.slotAt t i = l.bank.slotAt i := by
  rw [slotAt, h]

theorem home_of_lane (h : e.lanes[t]? = some l) (key : Key) : e.home t key = l.bank.home key := by
  rw [home, h]

theorem readAt_of_lane (h : e.lanes[t]? = some l) (key : Key) :
    e.readAt t key = l.bank.read key := by
  simp only [readAt, slotAt_of_lane h, home_of_lane h]
  rfl

theorem length_reads (e : Engine) (key : Key) : (e.reads key).length = e.lanes.length :=
  List.length_map _

theorem getElem?_reads (ht : t < e.lanes.length) (key : Key) :
    (e.reads key)[t]? = some (e.readAt t key) := by
  have hl : e.lanes[t]? = some e.lanes[t] := List.getElem?_eq_getElem ht
  rw [reads, List.getElem?_map, hl, readAt_of_lane hl]
  rfl

theorem eq_readAt_of_getElem? {p : Probe} (h : (e.reads key)[t]? = some p) :
    t < e.lanes.length ∧ p = e.readAt t key := by
  obtain ⟨ht, -⟩ := List.getElem?_eq_some_iff.1 h
  rw [length_reads] at ht
  rw [getElem?_reads ht] at h
  exact ⟨ht, (Option.some.inj h).symm⟩

theorem SameSlots.trans {e'' : Engine} (h : SameSlots e e') (h' : SameSlots e' e'') :
    SameSlots e e'' where
  slotAt_eq t i := (h'.slotAt_eq t i).trans (h.slotAt_eq t i)
  home_eq t key := (h'.home_eq t key).trans (h.home_eq t key)

theorem SameSlots.refl (e : Engine) : SameSlots e e where
  slotAt_eq _ _ := rfl
  home_eq _ _ := rfl

theorem SameSlots.readAt_eq (h : SameSlots e e') (bank : Nat) (key : Key) :
    e'.readAt bank key = e.readAt bank key := by
  simp only [readAt, h.slotAt_eq, h.home_eq]

theorem sameSlots_of_lanes_map {c : Command} (h : e'.lanes = e.lanes.map (·.cycle c))
    (hw : c.write = none) : SameSlots e e' := by
  constructor
  · intro t i
    rw [slotAt, slotAt, h, List.getElem?_map]
    cases e.lanes[t]? with
    | none => rfl
    | some l => exact Bank.slotAt_cycle_of_no_write hw i
  · intro t key
    rw [home, home, h, List.getElem?_map]
    cases e.lanes[t]? with
    | none => rfl
    | some l => exact Bank.home_cycle l.bank c key

theorem sameSlots_of_lanes_eq (h : e'.lanes = e.lanes) : SameSlots e e' := by
  constructor
  · intro t i
    rw [slotAt, slotAt, h]
  · intro t key
    rw [home, home, h]

end Engine
end ClockedCuckoo
