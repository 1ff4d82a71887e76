import Mathlib.Algebra.Group.Nat.Defs
import ClockedCuckoo.LaneSet

/-! Lane sets as ascending lists of lanes. A set that keeps its bits below its width is known by
its members; its count, its only lane and its emptiness can be read off the list. -/

namespace ClockedCuckoo

namespace Word

theorem toNat_lowMask (width : Nat) : (lowMask width).toNat = 2 ^ min width 64 - 1 := by
  have h : 2 ^ min width 64 ≤ 2 ^ 64 := Nat.pow_le_pow_right (by decide) (Nat.min_le_right ..)
  rw [lowMask, Nat.one_shiftLeft]
  exact UInt64.toNat_ofNat_of_lt' (by simp only [UInt64.size]; omega)

theorem toNat_and_lowMask (w : Word) (width : Nat) :
    (w &&& lowMask width).toNat = w.toNat % 2 ^ min width 64 := by
  rw [UInt64.toNat_and, toNat_lowMask, Nat.and_two_pow_sub_one_eq_mod]

theorem bit_and (v w : Word) (i : Nat) : bit (v &&& w) i = (bit v i && bit w i) := by
  rw [bit, UInt64.toNat_and, Nat.testBit_and]
  rfl

theorem bit_or (v w : Word) (i : Nat) : bit (v ||| w) i = (bit v i || bit w i) := by
  rw [bit, UInt64.toNat_or, Nat.testBit_or]
  rfl

theorem bit_lowMask (width i : Nat) : bit (lowMask width) i = decide (i < min width 64) := by
  rw [bit, toNat_lowMask, Nat.testBit_two_pow_sub_one]

theorem bit_one (i : Nat) : bit 1 i = decide (i = 0) := by
  rw [bit, UInt64.toNat_one, ← Nat.pow_zero 2, Nat.testBit_two_pow, decide_eq_decide]
  exact eq_comm

theorem bit_shiftRight_one (w : Word) (i : Nat) : bit (w >>> 1) i = bit w (i + 1) := by
  rw [bit, UInt64.toNat_shiftRight, UInt64.toNat_one, Nat.testBit_shiftRight, Nat.add_comm]
  rfl

theorem bit_shiftLeft (w : Word) {n : Nat} (hn : n < 64) (i : Nat) :
    bit (w <<< UInt64.ofNat n) i = (decide (i < 64) && (decide (n ≤ i) && bit w (i - n))) := by
  have hs : (UInt64.ofNat n).toNat % 64 = n := by
    rw [UInt64.toNat_ofNat_of_lt' (Nat.lt_trans hn (by decide)), Nat.mod_eq_of_lt hn]
  rw [bit, UInt64.toNat_shiftLeft, hs, Nat.testBit_mod_two_pow, Nat.testBit_shiftLeft]
  rfl

end Word

namespace LaneSet

theorem shift_lt {i : Nat} (h : i < maxWidth) : 1 <<< i < UInt64.size := by
  rw [Nat.one_shiftLeft]
  exact Nat.pow_lt_pow_right (by decide) h

theorem pack_lt (flags : List Bool) : pack flags < 2 ^ flags.length := by
  induction flags with
  | nil => simp [pack]
  | cons f fs ih =>
    have hf := f.toNat_le
    simp only [pack, List.length_cons, Nat.pow_succ]
    omega

theorem pack_take_lt (flags : List Bool) {width : Nat} (hw : width ≤ maxWidth) :
    pack (flags.take width) < UInt64.size := by
  have hl : (flags.take width).length ≤ 64 := Nat.le_trans (List.length_take_le ..) hw
  exact Nat.lt_of_lt_of_le (pack_lt _) (Nat.pow_le_pow_right (by decide) hl)

theorem testBit_pack (flags : List Bool) (i : Nat) :
    (pack flags).testBit i = flags.getD i false := by
  induction flags generalizing i with
  | nil => simp [pack]
  | cons f fs ih =>
    have hf := f.toNat_le
    cases i with
    | zero => cases f <;> simp [pack, Nat.testBit_zero]
    | succ i =>
      have hd : (f.toNat + 2 * pack fs) / 2 = pack fs := by omega
      rw [pack, Nat.testBit_succ, hd, ih, List.getD_cons_succ]

theorem widthViolation?_eq_none {width : Nat} (hpos : 0 < width) (hw : width ≤ maxWidth) :
    widthViolation? width = none := by
  rw [widthViolation?, Violation.when_eq_none, Bool.or_eq_false_iff, beq_eq_false_iff_ne,
    decide_eq_false_iff_not]
  omega

theorem ofFlagsViolation?_eq_none (flags : List Bool) {width : Nat} (hw : width ≤ maxWidth) :
    ofFlagsViolation? flags width = none := by
  rw [ofFlagsViolation?, Violation.when_eq_none, decide_eq_false_iff_not, Nat.not_lt]
  exact Nat.le_trans (List.length_take_le ..) hw

theorem containsViolation?_eq_none {s : LaneSet} (hw : s.width ≤ maxWidth) (i : Nat) :
    s.containsViolation? i = none := by
  rw [containsViolation?, Violation.when_eq_none, Bool.and_eq_false_iff, decide_eq_false_iff_not,
    decide_eq_false_iff_not]
  omega

theorem contains_empty (width i : Nat) : (empty width).contains i = false := by
  simp [contains, empty, Word.bit]

theorem contains_singleton {i width : Nat} (hi : i < width) (hw : width ≤ maxWidth) (j : Nat) :
    (singleton i width).contains j = decide (i = j) := by
  rw [contains, singleton, Word.bit_ofNat (shift_lt (Nat.lt_of_lt_of_le hi hw)),
    Nat.one_shiftLeft, Nat.testBit_two_pow]
  by_cases hj : i = j
  · subst hj
    simp [hi]
  · simp [hj]

theorem singleton_inj {i j width : Nat} (hi : i < width) (hj : j < width) (hw : width ≤ maxWidth)
    (h : singleton i width = singleton j width) : i = j := by
  have hmem := contains_singleton hj hw i
  rw [← h, contains_singleton hi hw, decide_eq_decide] at hmem
  exact (hmem.1 rfl).symm

theorem contains_ofFlags (flags : List Bool) {width : Nat} (hw : width ≤ maxWidth) (i : Nat) :
    (ofFlags flags width).contains i = (decide (i < width) && flags.getD i false) := by
  rw [contains, ofFlags, Word.bit_ofNat (pack_take_lt flags hw), testBit_pack]
  by_cases hi : i < width
  · simp [hi, List.getD_eq_getElem?_getD]
  · simp [hi]

/-- A set that has at most one bit per bit of a word, and no bit from its width on. -/
structure Fits (s : LaneSet) : Prop where
  width_le : s.width ≤ maxWidth
  lt_width : ∀ {i}, Word.bit s.bits i = true → i < s.width

variable {s t : LaneSet}

theorem Fits.contains_eq (h : s.Fits) (i : Nat) : s.contains i = Word.bit s.bits i := by
  rw [contains]
  cases hb : Word.bit s.bits i with
  | false => rw [Bool.and_false]
  | true => simpa using h.lt_width hb

theorem fits_empty {width : Nat} (hw : width ≤ maxWidth) : (empty width).Fits where
  width_le := hw
  lt_width h := by simp [empty, Word.bit] at h

theorem fits_singleton {i width : Nat} (hi : i < width) (hw : width ≤ maxWidth) :
    (singleton i width).Fits where
  width_le := hw
  lt_width {j} h := by
    rw [singleton, Word.bit_ofNat (shift_lt (Nat.lt_of_lt_of_le hi hw)), Nat.one_shiftLeft,
      Nat.testBit_two_pow, decide_eq_true_eq] at h
    exact h ▸ hi

theorem fits_ofFlags (flags : List Bool) {width : Nat} (hw : width ≤ maxWidth) :
    (ofFlags flags width).Fits where
  width_le := hw
  lt_width {j} h := by
    rw [ofFlags, Word.bit_ofNat (pack_take_lt flags hw), testBit_pack, List.getD_eq_getElem?_getD] at h
    by_cases hj : j < width
    · exact hj
    · rw [List.getElem?_take_eq_none (Nat.le_of_not_lt hj)] at h
      exact absurd h (by decide)

theorem fits_rotateRight (h : s.width ≤ maxWidth) : s.rotateRight.Fits where
  width_le := h
  lt_width {i} hi := by
    rw [rotateRight, Word.bit_and, Word.bit_lowMask, Bool.and_eq_true, decide_eq_true_eq] at hi
    exact Nat.lt_of_lt_of_le hi.2 (Nat.min_le_left ..)

theorem contains_rotateRight (h : s.Fits) {i : Nat} (hi : i < s.width) :
    s.rotateRight.contains i = s.contains ((i + 1) % s.width) := by
  have hw : s.width ≤ 64 := h.width_le
  have hmin : i < min s.width 64 := by omega
  have hrot : s.rotateRight.contains i =
      (Word.bit s.bits (i + 1) || (decide (s.width - 1 ≤ i) && Word.bit s.bits 0)) := by
    rw [(fits_rotateRight h.width_le).contains_eq, rotateRight, Word.bit_and, Word.bit_or,
      Word.bit_shiftRight_one, Word.bit_shiftLeft _ (by omega), Word.bit_and, Word.bit_one,
      Word.bit_lowMask]
    by_cases hl : s.width - 1 ≤ i
    · have h0 : i - (s.width - 1) = 0 := by omega
      have h64 : i < 64 := by omega
      simp [hl, h0, h64, hmin]
    · simp [hl, hmin]
  rw [hrot, h.contains_eq]
  -- At the last lane the shift brings in a clear bit, and lane 0 comes round.
  by_cases hl : i + 1 = s.width
  · have hout : Word.bit s.bits (i + 1) = false :=
      Bool.eq_false_iff.2 fun hb => absurd (h.lt_width hb) (by omega)
    have hle : s.width - 1 ≤ i := by omega
    rw [hout, hl, Nat.mod_self]
    simp [hle]
  · have hle : ¬s.width - 1 ≤ i := by omega
    rw [Nat.mod_eq_of_lt (by omega)]
    simp [hle]

theorem Fits.ext (hs : s.Fits) (ht : t.Fits) (hw : s.width = t.width)
    (h : ∀ i < s.width, s.contains i = t.contains i) : s = t := by
  have hbits : s.bits = t.bits := by
    apply Word.eq_of_bit_eq
    intro i
    by_cases hi : i < s.width
    · rw [← hs.contains_eq, ← ht.contains_eq, h i hi]
    · have hs' := mt (hs.lt_width (i := i)) hi
      have ht' := mt (ht.lt_width (i := i)) (hw ▸ hi)
      rw [Bool.eq_false_iff.2 hs', Bool.eq_false_iff.2 ht']
  cases s
  cases t
  exact congr (congrArg LaneSet.mk hbits) hw

theorem Fits.filter_bit (h : s.Fits) : (List.range 64).filter (Word.bit s.bits) = s.toList := by
  obtain ⟨n, hn⟩ := Nat.exists_eq_add_of_le h.width_le
  have hhigh : ((List.range n).map (s.width + ·)).filter (Word.bit s.bits) = [] := by
    rw [List.filter_eq_nil_iff]
    intro i hi hb
    obtain ⟨j, -, rfl⟩ := List.mem_map.1 hi
    exact absurd (h.lt_width hb) (Nat.not_lt.2 (Nat.le_add_right ..))
  have h64 : (64 : Nat) = s.width + n := hn
  rw [h64, List.range_add, List.filter_append, hhigh, List.append_nil, toList]
  exact List.filter_congr fun i _ => (h.contains_eq i).symm

theorem Fits.count_eq (h : s.Fits) : s.count = s.toList.length := by
  rw [count, Word.ones, List.countP_eq_length_filter, h.filter_bit]

theorem Fits.isEmpty_eq (h : s.Fits) : s.isEmpty = s.toList.isEmpty := by
  rw [Bool.eq_iff_iff, isEmpty, beq_iff_eq, List.isEmpty_iff]
  constructor
  · intro h0
    rw [toList, List.filter_eq_nil_iff]
    intro i _
    simp [contains, h0, Word.bit]
  · intro hnil
    apply Word.eq_of_bit_eq
    intro i
    rw [← h.contains_eq, show Word.bit 0 i = false by simp [Word.bit]]
    exact Bool.eq_false_iff.2 fun hc => List.not_mem_nil (hnil ▸ mem_toList.2 hc)

theorem Fits.only?_eq_some_iff (h : s.Fits) {i : Nat} : s.only? = some i ↔ s.toList = [i] := by
  have hz : Word.trailingZeros s.bits = s.toList.head?.getD 64 := by
    rw [Word.trailingZeros, ← List.head?_filter, h.filter_bit]
  rw [only?, h.count_eq, hz]
  constructor
  · intro hi
    split at hi
    · rename_i hone
      obtain ⟨j, hj⟩ := List.length_eq_one_iff.1 hone
      rw [hj] at hi ⊢
      exact congrArg (fun j => [j]) (Option.some.inj hi)
    · exact absurd hi (by simp)
  · intro hi
    rw [hi]
    rfl

theorem Fits.isAtMostOne_eq (h : s.Fits) : s.isAtMostOne = decide (s.toList.length ≤ 1) := by
  rw [isAtMostOne, h.count_eq]

theorem pairwise_toList (s : LaneSet) : s.toList.Pairwise (· < ·) :=
  List.pairwise_lt_range.filter _

theorem length_toList_le_one_iff {s : LaneSet} : s.toList.length ≤ 1 ↔
    ∀ i j, s.contains i = true → s.contains j = true → i = j := by
  simp only [← mem_toList]
  have hlt := s.pairwise_toList
  match hs : s.toList with
  | [] => simp
  | [i] => simp
  | i :: j :: rest =>
    rw [hs] at hlt
    -- The list ascends, so a second member differs from the first.
    have hij : i < j := List.rel_of_pairwise_cons hlt (List.mem_cons_self ..)
    constructor
    · intro h
      simp at h
    · intro h
      exact absurd (h i j (by simp) (by simp)) (Nat.ne_of_lt hij)

theorem toList_empty (width : Nat) : (empty width).toList = [] := by
  rw [toList, List.filter_eq_nil_iff]
  intro i _
  rw [contains_empty]
  exact Bool.false_ne_true

theorem toList_singleton {i width : Nat} (hi : i < width) (hw : width ≤ maxWidth) :
    (singleton i width).toList = [i] := by
  have hf : (singleton i width).toList = (List.range width).filter (· = i) := by
    refine List.filter_congr fun j _ => ?_
    rw [contains_singleton hi hw]
    exact decide_eq_decide.2 eq_comm
  rw [hf, List.filter_eq, List.count_range, if_pos hi, List.replicate_one]

theorem only?_singleton {i width : Nat} (hi : i < width) (hw : width ≤ maxWidth) :
    (singleton i width).only? = some i :=
  (fits_singleton hi hw).only?_eq_some_iff.2 (toList_singleton hi hw)

theorem isEmpty_singleton {i width : Nat} (hi : i < width) (hw : width ≤ maxWidth) :
    (singleton i width).isEmpty = false := by
  rw [(fits_singleton hi hw).isEmpty_eq, toList_singleton hi hw]
  rfl

theorem Fits.eq_singleton (h : s.Fits) {i : Nat} (hi : s.contains i = true)
    (hone : ∀ j, s.contains j = true → j = i) : s = singleton i s.width := by
  have hlt : i < s.width := h.lt_width (h.contains_eq i ▸ hi)
  refine h.ext (fits_singleton hlt h.width_le) rfl fun j _ => ?_
  rw [contains_singleton hlt h.width_le]
  by_cases hj : i = j
  · rw [← hj, hi, decide_eq_true rfl]
  · rw [decide_eq_false hj]
    exact Bool.eq_false_iff.2 fun hc => hj (hone j hc).symm

theorem rotateRight_singleton {i width : Nat} (hi : i < width) (hw : width ≤ maxWidth) :
    (singleton i width).rotateRight = singleton ((i + width - 1) % width) width := by
  have hpos : 0 < width := Nat.zero_lt_of_lt hi
  have hlt : (i + width - 1) % width < width := Nat.mod_lt _ hpos
  refine (fits_rotateRight hw).ext (fits_singleton hlt hw) rfl fun j hj => ?_
  have hj : j < width := hj
  rw [contains_rotateRight (fits_singleton hi hw) hj, contains_singleton hi hw,
    contains_singleton hlt hw, decide_eq_decide]
  change i = (j + 1) % width ↔ (i + width - 1) % width = j
  have hpred : (i + width - 1) % width = if i = 0 then width - 1 else i - 1 := by
    split
    · rw [Nat.mod_eq_of_lt (by omega)]
      omega
    · rw [show i + width - 1 = i - 1 + width by omega, Nat.add_mod_right,
        Nat.mod_eq_of_lt (by omega)]
  have hsucc : (j + 1) % width = if j + 1 = width then 0 else j + 1 := by
    split
    · rename_i h
      rw [h, Nat.mod_self]
    · exact Nat.mod_eq_of_lt (by omega)
  rw [hpred, hsucc]
  split <;> split <;> omega

/-- One place further to the right, as the remainder of a count that may go below zero. -/
theorem cast_pred_mod {width t₀ t n : Nat} (hpos : 0 < width)
    (h : (t : Int) = ((t₀ : Int) - n) % width) :
    (((t + width - 1) % width : Nat) : Int) = ((t₀ : Int) - (n + 1 : Nat)) % width := by
  have hsum : ((t + width - 1 : Nat) : Int) = t + (width - 1) := by omega
  have hnext : (t₀ : Int) - n + (width - 1) = t₀ - (n + 1 : Nat) + width := by omega
  rw [Int.natCast_emod, hsum, h, Int.emod_add_emod, hnext, Int.add_emod_right]

theorem lowest?_eq_some_iff {flags : List Bool} {width : Nat} {s : LaneSet} :
    lowest? flags width = some s ↔ ∃ i < width, flags[i]? = some true ∧
      (∀ j < i, flags[j]? ≠ some true) ∧ s = singleton i width := by
  rw [lowest?, Option.map_eq_some_iff]
  constructor
  · rintro ⟨i, hi, rfl⟩
    rw [List.findIdx?_eq_some_iff_getElem] at hi
    obtain ⟨hlt, htrue, hfirst⟩ := hi
    rw [List.length_take] at hlt
    have hget : ∀ j < width, (flags.take width)[j]? = flags[j]? :=
      fun j hj => List.getElem?_take_of_lt hj
    refine ⟨i, by omega, ?_, fun j hj => ?_, rfl⟩
    · rw [← hget i (by omega), List.getElem?_eq_getElem (by rw [List.length_take]; omega)]
      simpa using htrue
    · rw [← hget j (by omega), List.getElem?_eq_getElem (by rw [List.length_take]; omega)]
      simpa using hfirst j hj
  · rintro ⟨i, hi, htrue, hfirst, rfl⟩
    refine ⟨i, ?_, rfl⟩
    obtain ⟨hlen, hval⟩ := List.getElem?_eq_some_iff.1 htrue
    rw [List.findIdx?_eq_some_iff_getElem]
    refine ⟨by rw [List.length_take]; omega, by simpa using hval, fun j hj => ?_⟩
    have hj' := hfirst j hj
    rw [List.getElem?_eq_getElem (by omega)] at hj'
    simpa using hj'

theorem lowest?_eq_none_iff {flags : List Bool} {width : Nat} :
    lowest? flags width = none ↔ ∀ i < width, flags[i]? ≠ some true := by
  rw [lowest?, Option.map_eq_none_iff, List.findIdx?_eq_none_iff]
  constructor
  · intro h i hi htrue
    have hmem : true ∈ flags.take width :=
      List.mem_of_getElem? (List.getElem?_take_of_lt hi ▸ htrue)
    exact absurd (h true hmem) (by decide)
  · intro h flag hmem
    obtain ⟨i, hi⟩ := List.getElem?_of_mem hmem
    by_cases hw : i < width
    · rw [List.getElem?_take_of_lt hw] at hi
      cases flag with
      | false => rfl
      | true => exact absurd hi (h i hw)
    · rw [List.getElem?_take_eq_none (Nat.le_of_not_lt hw)] at hi
      cases hi

end LaneSet
end ClockedCuckoo
