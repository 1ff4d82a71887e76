import ClockedCuckoo.Engine.Signals
import ClockedCuckoo.Proofs.LaneMembers

/-! What one probe per bank leads to: the answer of a lookup, and the bank that a round writes to.
Both rest on the key being found in one bank at most. -/

namespace ClockedCuckoo

namespace Probe

def SingleHit (probes : List Probe) : Prop :=
  ∀ (i j : Nat) (p q : Probe), probes[i]? = some p → probes[j]? = some q →
    p.found = true → q.found = true → i = j

theorem getD_map_found (probes : List Probe) (i : Nat) :
    (probes.map found).getD i false = true ↔ ∃ p, probes[i]? = some p ∧ p.found = true := by
  rw [List.getD_eq_getElem?_getD, List.getElem?_map]
  cases probes[i]? <;> simp

theorem contains_foundIn {probes : List Probe} {width : Nat} (hl : probes.length = width)
    (hw : width ≤ LaneSet.maxWidth) (i : Nat) :
    (foundIn probes width).contains i = true ↔ ∃ p, probes[i]? = some p ∧ p.found = true := by
  rw [foundIn, LaneSet.contains_ofFlags _ hw, Bool.and_eq_true, decide_eq_true_eq,
    getD_map_found]
  constructor
  · exact And.right
  · rintro ⟨p, hp, hf⟩
    obtain ⟨hlt, -⟩ := List.getElem?_eq_some_iff.1 hp
    exact ⟨hl ▸ hlt, p, hp, hf⟩

theorem duplicate?_eq_none_iff {probes : List Probe} {width : Nat} (hl : probes.length = width)
    (hw : width ≤ LaneSet.maxWidth) : duplicate? probes width = none ↔ SingleHit probes := by
  have hfits := LaneSet.fits_ofFlags (probes.map found) hw
  have hcount : duplicate? probes width = none ↔ (foundIn probes width).toList.length ≤ 1 := by
    cases probes with
    | nil => simp [duplicate?, foundIn, LaneSet.toList, LaneSet.ofFlags, ← hl]
    | cons p ps =>
      have h : (foundIn (p :: ps) width).count = (foundIn (p :: ps) width).toList.length :=
        hfits.count_eq
      simp only [duplicate?, h]
      split <;> simp <;> omega
  rw [hcount, LaneSet.length_toList_le_one_iff]
  simp only [contains_foundIn hl hw]
  constructor
  · intro h i j p q hp hq hfp hfq
    exact h i j ⟨p, hp, hfp⟩ ⟨q, hq, hfq⟩
  · rintro h i j ⟨p, hp, hfp⟩ ⟨q, hq, hfq⟩
    exact h i j p q hp hq hfp hfq

theorem SingleHit.foundIn_eq {probes : List Probe} (h : SingleHit probes) {width : Nat}
    (hl : probes.length = width) (hw : width ≤ LaneSet.maxWidth) {i : Nat} {p : Probe}
    (hi : probes[i]? = some p) (hf : p.found = true) :
    foundIn probes width = .singleton i width := by
  refine (LaneSet.fits_ofFlags (probes.map found) hw).eq_singleton ?_ ?_
  · exact (contains_foundIn hl hw i).2 ⟨p, hi, hf⟩
  · intro j hj
    obtain ⟨q, hq, hfq⟩ := (contains_foundIn hl hw j).1 hj
    exact h j i q p hq hi hfq hf

theorem toList_foundIn_of_miss {probes : List Probe} {width : Nat} (hl : probes.length = width)
    (hw : width ≤ LaneSet.maxWidth) (h : ∀ p ∈ probes, p.found = false) :
    (foundIn probes width).toList = [] := by
  rw [List.eq_nil_iff_forall_not_mem]
  intro i hi
  obtain ⟨p, hp, hf⟩ := (contains_foundIn hl hw i).1 (LaneSet.mem_toList.1 hi)
  exact absurd hf (by rw [h p (List.mem_of_getElem? hp)]; decide)

theorem found_cases (probes : List Probe) :
    (∃ (i : Nat) (p : Probe), probes[i]? = some p ∧ p.found = true) ∨
      ∀ p ∈ probes, p.found = false := by
  by_cases h : ∃ p ∈ probes, p.found = true
  · obtain ⟨p, hp, hf⟩ := h
    obtain ⟨i, hi⟩ := List.getElem?_of_mem hp
    exact .inl ⟨i, p, hi, hf⟩
  · exact .inr fun p hp => Bool.eq_false_iff.2 fun hf => h ⟨p, hp, hf⟩

end Probe

namespace Response

theorem ofProbes_of_hit {probes : List Probe} (h : Probe.SingleHit probes) {width : Nat}
    (hl : probes.length = width) (hw : width ≤ LaneSet.maxWidth) {i : Nat} {p : Probe}
    (hi : probes[i]? = some p) (hf : p.found = true) :
    ofProbes probes width = some ⟨p.key, some ⟨i, p.slot.data⟩, p.index⟩ := by
  obtain ⟨hlt, -⟩ := List.getElem?_eq_some_iff.1 hi
  rw [ofProbes, h.foundIn_eq hl hw hi hf, LaneSet.only?_singleton (hl ▸ hlt) hw]
  simp [hi]

theorem ofProbes_of_miss {probes : List Probe} {width : Nat} (hl : probes.length = width)
    (hw : width ≤ LaneSet.maxWidth) (h : ∀ p ∈ probes, p.found = false) :
    ofProbes probes width = probes.head?.map fun p => ⟨p.key, none, p.index⟩ := by
  have hnone : (Probe.foundIn probes width).only? = none := by
    rw [Option.eq_none_iff_forall_ne_some]
    intro i hi
    have hone := (LaneSet.fits_ofFlags (probes.map Probe.found) hw).only?_eq_some_iff.1 hi
    have hnil := Probe.toList_foundIn_of_miss hl hw h
    rw [Probe.foundIn] at hnil
    simp [hnil] at hone
  rw [ofProbes, hnone]

theorem isSome_ofProbes {probes : List Probe} {width : Nat} (hl : probes.length = width)
    (hpos : 0 < width) (hw : width ≤ LaneSet.maxWidth) :
    (ofProbes probes width).isSome = true := by
  rw [ofProbes]
  cases ho : (Probe.foundIn probes width).only? with
  | some bank =>
    have hone := (LaneSet.fits_ofFlags (probes.map Probe.found) hw).only?_eq_some_iff.1 ho
    have hmem : bank ∈ (Probe.foundIn probes width).toList := by
      rw [Probe.foundIn, hone]
      exact List.mem_singleton_self bank
    obtain ⟨p, hp, -⟩ := (Probe.contains_foundIn hl hw bank).1 (LaneSet.mem_toList.1 hmem)
    simp [hp]
  | none =>
    have hne : probes ≠ [] := List.ne_nil_of_length_pos (hl ▸ hpos)
    simp [hne]

theorem ofProbesViolation?_eq_none {probes : List Probe} {width : Nat}
    (hl : probes.length = width) (hpos : 0 < width) (hw : width ≤ LaneSet.maxWidth) :
    ofProbesViolation? probes width = none := by
  have hsome := isSome_ofProbes hl hpos hw
  rw [ofProbesViolation?, LaneSet.ofFlagsViolation?_eq_none _ hw, Option.none_or,
    Violation.when_eq_none]
  simpa using hsome

end Response

namespace Choice

def Names (c : Choice) (width : Nat) : Prop :=
  c.target = .empty width ∨ ∃ i < width, c.target = .singleton i width

theorem Names.width_eq {c : Choice} {width : Nat} (h : c.Names width) :
    c.target.width = width := by
  rcases h with h | ⟨i, -, h⟩ <;> rw [h] <;> rfl

theorem names_initial (width : Nat) : (initial width).Names width := .inl rfl

theorem Names.keepViolation? {c : Choice} {width : Nat} (h : c.Names width)
    (hw : width ≤ LaneSet.maxWidth) : c.keepViolation? = none := by
  rw [Choice.keepViolation?, Violation.when_eq_none, Bool.not_eq_false']
  rcases h with h | ⟨i, hi, h⟩
  · rw [h, (LaneSet.fits_empty hw).isAtMostOne_eq, LaneSet.toList_empty]
    rfl
  · rw [h, (LaneSet.fits_singleton hi hw).isAtMostOne_eq, LaneSet.toList_singleton hi hw]
    rfl

theorem Names.chooseViolation? {c : Choice} {width : Nat} (h : c.Names width) (hpos : 0 < width)
    (hw : width ≤ LaneSet.maxWidth) {probes : List Probe} (hl : probes.length = width) :
    c.chooseViolation? probes = none := by
  have hcount : Violation.resultCount.when (probes.length != width) = none := by
    rw [Violation.when_eq_none, hl, bne_self_eq_false]
  rw [Choice.chooseViolation?, h.width_eq, hcount, LaneSet.widthViolation?_eq_none hpos hw]
  rfl

theorem Names.containsViolation? {c : Choice} {width : Nat} (h : c.Names width)
    (hw : width ≤ LaneSet.maxWidth) (i : Nat) : c.target.containsViolation? i = none :=
  LaneSet.containsViolation?_eq_none (h.width_eq.symm ▸ hw) i

theorem victim_of_target {c : Choice} {i width : Nat} (hi : i < width)
    (hw : width ≤ LaneSet.maxWidth) (h : c.target = .singleton i width) :
    c.victim = .singleton ((i + width - 1) % width) width := by
  rw [Choice.victim, h, LaneSet.isEmpty_singleton hi hw, LaneSet.rotateRight_singleton hi hw]
  rfl

theorem Names.victim {c : Choice} {width : Nat} (h : c.Names width) (hpos : 0 < width)
    (hw : width ≤ LaneSet.maxWidth) : ∃ i < width, c.victim = .singleton i width := by
  rcases h with h | ⟨i, hi, h⟩
  · have hempty : (LaneSet.empty width).isEmpty = true := rfl
    rw [Choice.victim, h, hempty]
    exact ⟨width - 1, by omega, rfl⟩
  · exact ⟨_, Nat.mod_lt _ hpos, victim_of_target hi hw h⟩

variable {last : Choice} {probes : List Probe} {width : Nat}

theorem next_of_hit (hlast : last.target.width = width) (h : Probe.SingleHit probes)
    (hl : probes.length = width) (hw : width ≤ LaneSet.maxWidth) {i : Nat} {p : Probe}
    (hi : probes[i]? = some p) (hf : p.found = true) :
    last.next probes = ⟨.singleton i width, true, true⟩ := by
  obtain ⟨hlt, -⟩ := List.getElem?_eq_some_iff.1 hi
  rw [next, hlast, h.foundIn_eq hl hw hi hf, LaneSet.isEmpty_singleton (hl ▸ hlt) hw]
  rfl

theorem next_of_miss (hlast : last.target.width = width) (hl : probes.length = width)
    (hw : width ≤ LaneSet.maxWidth) (h : ∀ p ∈ probes, p.found = false) :
    last.next probes = match LaneSet.lowest? (probes.map Probe.isFree) width with
      | some free => ⟨free, false, true⟩
      | none => ⟨last.victim, false, false⟩ := by
  have hempty : (Probe.foundIn probes width).isEmpty = true := by
    have hfits : (Probe.foundIn probes width).Fits := LaneSet.fits_ofFlags _ hw
    rw [hfits.isEmpty_eq, Probe.toList_foundIn_of_miss hl hw h]
    rfl
  rw [next, hlast, hempty]
  rfl

/-- A round overwrites the key where it is, or takes the lowest free slot, or evicts. -/
theorem next_cases (hlast : last.target.width = width) (h : Probe.SingleHit probes)
    (hl : probes.length = width) (hw : width ≤ LaneSet.maxWidth) :
    (∃ (i : Nat) (p : Probe), probes[i]? = some p ∧ p.found = true ∧
      last.next probes = ⟨.singleton i width, true, true⟩) ∨
    ((∀ p ∈ probes, p.found = false) ∧
      ∃ (i : Nat) (p : Probe), probes[i]? = some p ∧ p.occupied = false ∧
        (∀ j < i, ∀ q, probes[j]? = some q → q.occupied = true) ∧
        last.next probes = ⟨.singleton i width, false, true⟩) ∨
    ((∀ p ∈ probes, p.found = false) ∧ (∀ p ∈ probes, p.occupied = true) ∧
      last.next probes = ⟨last.victim, false, false⟩) := by
  rcases Probe.found_cases probes with ⟨i, p, hi, hf⟩ | hmiss
  · exact .inl ⟨i, p, hi, hf, next_of_hit hlast h hl hw hi hf⟩
  right
  have hnext := next_of_miss hlast hl hw hmiss
  cases hlow : LaneSet.lowest? (probes.map Probe.isFree) width with
  | some free =>
    rw [hlow] at hnext
    obtain ⟨i, hi, htrue, hfirst, rfl⟩ := LaneSet.lowest?_eq_some_iff.1 hlow
    rw [List.getElem?_map, Option.map_eq_some_iff] at htrue
    obtain ⟨p, hp, hfree⟩ := htrue
    refine .inl ⟨hmiss, i, p, hp, by simpa [Probe.isFree] using hfree, fun j hj q hq => ?_, hnext⟩
    have hj' := hfirst j hj
    rw [List.getElem?_map, hq] at hj'
    simpa [Probe.isFree] using hj'
  | none =>
    rw [hlow] at hnext
    refine .inr ⟨hmiss, fun p hp => ?_, hnext⟩
    obtain ⟨i, hi⟩ := List.getElem?_of_mem hp
    obtain ⟨hlt, -⟩ := List.getElem?_eq_some_iff.1 hi
    have hi' := LaneSet.lowest?_eq_none_iff.1 hlow i (hl ▸ hlt)
    rw [List.getElem?_map, hi] at hi'
    simpa [Probe.isFree] using hi'

theorem Names.next (hlast : last.Names width) (h : Probe.SingleHit probes)
    (hl : probes.length = width) (hpos : 0 < width) (hw : width ≤ LaneSet.maxWidth) :
    ∃ i < width, (last.next probes).target = .singleton i width := by
  rcases next_cases hlast.width_eq h hl hw with
    ⟨i, p, hi, -, hnext⟩ | ⟨-, i, p, hi, -, -, hnext⟩ | ⟨-, -, hnext⟩
  · obtain ⟨hlt, -⟩ := List.getElem?_eq_some_iff.1 hi
    exact ⟨i, hl ▸ hlt, by rw [hnext]⟩
  · obtain ⟨hlt, -⟩ := List.getElem?_eq_some_iff.1 hi
    exact ⟨i, hl ▸ hlt, by rw [hnext]⟩
  · rw [hnext]
    exact hlast.victim hpos hw

end Choice
end ClockedCuckoo
