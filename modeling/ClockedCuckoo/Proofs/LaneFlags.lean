import Mathlib.Logic.Function.Iterate
import ClockedCuckoo.Proofs.LaneMembers

/-! A lane set read from flags has the flagged lanes for its members, and every view of the set tells
of just these. Turning it moves the members by one lane and loses none. -/

namespace ClockedCuckoo.LaneSet

def flagged (flags : List Bool) (width : Nat) : List Nat :=
  (List.range width).filter fun i => flags.getD i false

variable {s : LaneSet} {flags : List Bool} {width i : Nat}

theorem getD_eq_true : flags.getD i false = true ↔ flags[i]? = some true := by
  rw [List.getD_eq_getElem?_getD]
  cases flags[i]? <;> simp

theorem toList_ofFlags (flags : List Bool) (hw : width ≤ maxWidth) :
    (ofFlags flags width).toList = flagged flags width := by
  refine List.filter_congr fun i hi => ?_
  have hi : i < width := List.mem_range.1 hi
  rw [contains_ofFlags flags hw, decide_eq_true hi, Bool.true_and]

theorem Fits.eq_ofFlags (h : s.Fits) :
    s = ofFlags ((List.range s.width).map s.contains) s.width := by
  refine h.ext (fits_ofFlags _ h.width_le) rfl fun i hi => ?_
  rw [contains_ofFlags _ h.width_le, decide_eq_true hi, Bool.true_and, List.getD_eq_getElem?_getD,
    List.getElem?_map, List.getElem?_range hi]
  rfl

theorem lowest?_eq (flags : List Bool) (width : Nat) :
    lowest? flags width = (flagged flags width).head?.map (singleton · width) := by
  rw [flagged, List.head?_filter]
  cases hf : (List.range width).find? fun i => flags.getD i false with
  | none =>
    rw [List.find?_range_eq_none] at hf
    refine lowest?_eq_none_iff.2 fun i hi htrue => ?_
    rw [← getD_eq_true] at htrue
    exact absurd (hf i hi) (by rw [htrue]; decide)
  | some i =>
    obtain ⟨htrue, hi, hfirst⟩ := List.find?_range_eq_some.1 hf
    refine lowest?_eq_some_iff.2
      ⟨i, List.mem_range.1 hi, getD_eq_true.1 htrue, fun j hj hj' => ?_, rfl⟩
    rw [← getD_eq_true] at hj'
    exact absurd (hfirst j hj) (by rw [hj']; decide)

theorem lowestViolation?_eq_none (flags : List Bool) (hw : width ≤ maxWidth) :
    lowestViolation? flags width = none := by
  unfold lowestViolation?
  rw [Option.bind_eq_none_iff]
  intro i hi
  obtain ⟨hlt, -⟩ := List.findIdx?_eq_some_iff_getElem.1 hi
  rw [List.length_take] at hlt
  rw [singletonViolation?, Option.or_eq_none_iff, Violation.when_eq_none, Violation.when_eq_none,
    decide_eq_false_iff_not, decide_eq_false_iff_not]
  omega

section Turning

theorem contains_rotateRight_pred (h : s.Fits) (hi : i < s.width) :
    s.rotateRight.contains ((i + s.width - 1) % s.width) = s.contains i := by
  have hpos : 0 < s.width := Nat.zero_lt_of_lt hi
  have hback : ((i + s.width - 1) % s.width + 1) % s.width = i := by
    rw [Nat.mod_add_mod, show i + s.width - 1 + 1 = i + s.width by omega, Nat.add_mod_right,
      Nat.mod_eq_of_lt hi]
  rw [contains_rotateRight h (Nat.mod_lt _ hpos), hback]

theorem count_rotateRight (h : s.Fits) : s.rotateRight.count = s.count := by
  rw [(fits_rotateRight h.width_le).count_eq, h.count_eq, toList, toList,
    ← List.countP_eq_length_filter, ← List.countP_eq_length_filter]
  change (List.range s.width).countP s.rotateRight.contains = (List.range s.width).countP s.contains
  cases hn : s.width with
  | zero => rfl
  | succ n =>
    have hlow : (List.range n).countP s.rotateRight.contains =
        (List.range n).countP fun i => s.contains (i + 1) := by
      refine List.countP_congr fun i hi => ?_
      have hi : i + 1 < s.width := by
        rw [hn]
        exact Nat.succ_lt_succ (List.mem_range.1 hi)
      rw [contains_rotateRight h (Nat.lt_of_succ_lt hi), Nat.mod_eq_of_lt hi]
    have hlast : s.rotateRight.contains n = s.contains 0 := by
      rw [contains_rotateRight h (hn ▸ Nat.lt_succ_self n), hn, Nat.mod_self]
    -- The turned set is counted from the bottom, the set itself from the top.
    calc (List.range (n + 1)).countP s.rotateRight.contains
        = (List.range n).countP (fun i => s.contains (i + 1)) + if s.contains 0 then 1 else 0 := by
          rw [List.range_succ, List.countP_append, hlow, List.countP_singleton, hlast]
      _ = (List.range (n + 1)).countP s.contains := by
          rw [List.range_succ_eq_map, List.countP_cons, List.countP_map]
          rfl

theorem width_iterate_rotateRight (s : LaneSet) (n : Nat) :
    (rotateRight^[n] s).width = s.width := by
  induction n with
  | zero => rfl
  | succ n ih =>
    rw [Function.iterate_succ_apply']
    exact ih

theorem Fits.iterate_rotateRight (h : s.Fits) (n : Nat) : (rotateRight^[n] s).Fits := by
  cases n with
  | zero => exact h
  | succ n =>
    rw [Function.iterate_succ_apply']
    apply fits_rotateRight
    rw [width_iterate_rotateRight]
    exact h.width_le

theorem contains_iterate_rotateRight (h : s.Fits) (n : Nat) (hi : i < s.width) :
    (rotateRight^[n] s).contains i = s.contains ((i + n) % s.width) := by
  induction n generalizing i with
  | zero => rw [Nat.add_zero, Nat.mod_eq_of_lt hi, Function.iterate_zero_apply]
  | succ n ih =>
    have hw := width_iterate_rotateRight s n
    rw [Function.iterate_succ_apply', contains_rotateRight (h.iterate_rotateRight n) (hw ▸ hi), hw,
      ih (Nat.mod_lt _ (Nat.zero_lt_of_lt hi)), Nat.mod_add_mod, Nat.add_right_comm, Nat.add_assoc]

theorem iterate_rotateRight_width (h : s.Fits) : rotateRight^[s.width] s = s := by
  refine (h.iterate_rotateRight _).ext h (width_iterate_rotateRight ..) fun i hi => ?_
  rw [width_iterate_rotateRight] at hi
  rw [contains_iterate_rotateRight h _ hi, Nat.add_mod_right, Nat.mod_eq_of_lt hi]

end Turning

/-- Flags of any number make a set of at most 64 lanes: those below its width whose flag is set. Its
list, its count, its only lane, its least lane and the test for one lane agree on them, and turning it
takes each lane to the one before, all the way round. -/
theorem ofFlags_faithful (hpos : 0 < width) (hw : width ≤ maxWidth) (flags : List Bool) :
    ∃ s, guarded (ofFlagsViolation? flags width) (ofFlags flags width) = .ok s ∧
      guarded s.toListViolation? s.toList = .ok (flagged flags width) ∧
      s.count = (flagged flags width).length ∧
      (∀ i, s.only? = some i ↔ flagged flags width = [i]) ∧
      (∀ i, guarded (s.containsViolation? i) (s.contains i) =
        .ok (decide (i ∈ flagged flags width))) ∧
      (∃ least?, guarded (lowestViolation? flags width) (lowest? flags width) = .ok least? ∧
        (least? = none ↔ flagged flags width = []) ∧
        ∀ i rest, flagged flags width = i :: rest →
          least? = some (singleton i width) ∧ (singleton i width).toList = [i]) ∧
      (∃ t, guarded s.rotateViolation? s.rotateRight = .ok t ∧ t.width = width ∧
        (∀ i, width ≤ i → Word.bit t.bits i = false) ∧ t.count = s.count ∧
        ∀ i < width, t.contains ((i + width - 1) % width) = s.contains i) ∧
      (∀ n, (rotateRight^[n] s).rotateViolation? = none) ∧ rotateRight^[width] s = s := by
  have hfits : (ofFlags flags width).Fits := fits_ofFlags flags hw
  have hlist := toList_ofFlags flags hw
  refine ⟨ofFlags flags width, guarded_eq_ok.2 ⟨ofFlagsViolation?_eq_none flags hw, rfl⟩,
    guarded_eq_ok.2 ⟨?_, hlist⟩, ?_, fun i => ?_, fun i => guarded_eq_ok.2 ⟨?_, ?_⟩, ?_,
    ⟨(ofFlags flags width).rotateRight, guarded_eq_ok.2 ⟨widthViolation?_eq_none hpos hw, rfl⟩,
      rfl, fun i hi => ?_, count_rotateRight hfits, fun i hi => contains_rotateRight_pred hfits hi⟩,
    fun n => ?_, iterate_rotateRight_width hfits⟩
  · rw [toListViolation?, Violation.when_eq_none, decide_eq_false_iff_not]
    exact Nat.not_lt.2 hw
  · rw [hfits.count_eq, hlist]
  · rw [hfits.only?_eq_some_iff, hlist]
  · exact containsViolation?_eq_none hw i
  · rw [← hlist, Bool.eq_iff_iff, decide_eq_true_iff]
    exact mem_toList.symm
  · refine ⟨_, guarded_eq_ok.2 ⟨lowestViolation?_eq_none flags hw, rfl⟩, ?_, fun i rest hi => ?_⟩
    · rw [lowest?_eq, Option.map_eq_none_iff, List.head?_eq_none_iff]
    · have hmem : i ∈ flagged flags width := hi ▸ List.mem_cons_self
      have hlt : i < width := List.mem_range.1 (List.mem_filter.1 hmem).1
      refine ⟨?_, toList_singleton hlt hw⟩
      rw [lowest?_eq, hi]
      rfl
  · rw [Bool.eq_false_iff]
    exact fun hb => absurd ((fits_rotateRight hw).lt_width hb) (Nat.not_lt.2 hi)
  · rw [rotateViolation?, width_iterate_rotateRight]
    exact widthViolation?_eq_none hpos hw

/-- Flags of more lanes than a word has bits: the first is set, and the last two. -/
def longFlags : List Bool :=
  true :: List.replicate 62 false ++ [true, true]

/-- Lanes 0 and 63 of all 64 are in the set, flag 64 is ignored, and a turn takes lane 0 to the top. -/
theorem ofFlags_faithful_long :
    0 < 64 ∧ 64 ≤ maxWidth ∧
      ∃ s t, guarded (ofFlagsViolation? longFlags 64) (ofFlags longFlags 64) = .ok s ∧
        guarded s.toListViolation? s.toList = .ok [0, 63] ∧ s.count = 2 ∧ s.only? ≠ some 0 ∧
        guarded (s.containsViolation? 64) (s.contains 64) = .ok false ∧
        guarded (lowestViolation? longFlags 64) (lowest? longFlags 64) =
          .ok (some (singleton 0 64)) ∧
        guarded s.rotateViolation? s.rotateRight = .ok t ∧ t.contains 63 = s.contains 0 ∧
        t.contains 62 = s.contains 63 ∧ rotateRight^[64] s = s := by
  have hflags : flagged longFlags 64 = [0, 63] := by decide
  obtain ⟨s, hs, hlist, hcount, honly, hmem, ⟨least?, hleast, -, hfirst⟩,
    ⟨t, ht, -, -, -, hturn⟩, -, hround⟩ :=
    ofFlags_faithful (by decide : 0 < 64) (by decide) longFlags
  rw [hflags] at hlist hcount
  obtain ⟨rfl, -⟩ := hfirst 0 [63] hflags
  refine ⟨by decide, by decide, s, t, hs, hlist, hcount, fun h0 => ?_, ?_, hleast, ht,
    hturn 0 (by decide), hturn 63 (by decide), hround⟩
  · rw [honly, hflags] at h0
    exact absurd h0 (by decide)
  · rw [hmem, hflags]
    rfl

end ClockedCuckoo.LaneSet
