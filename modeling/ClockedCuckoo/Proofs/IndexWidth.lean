import Mathlib.Algebra.Group.Nat.Defs
import Mathlib.Order.Bounds.Defs
import ClockedCuckoo.Bank
import ClockedCuckoo.Config

/-! The capacity of a valid configuration is shared out evenly among the banks, and the index width is
the fewest bits that number the slots of a bank. -/

namespace ClockedCuckoo.Config

variable {c : Config}

theorem indexWidth_le_iff (c : Config) (width : Nat) :
    c.indexWidth ≤ width ↔ c.rows ≤ 2 ^ width := by
  unfold indexWidth
  split
  · rename_i hone
    exact iff_of_true (Nat.zero_le _) (Nat.le_trans hone Nat.one_le_two_pow)
  · rename_i hmany
    have hlast : c.rows - 1 ≠ 0 := by omega
    rw [Nat.succ_le_iff, Nat.log2_lt hlast]
    omega

theorem rows_le_two_pow (c : Config) : c.rows ≤ 2 ^ c.indexWidth :=
  (c.indexWidth_le_iff _).1 (Nat.le_refl _)

theorem two_pow_pred_lt_rows (h : 1 < c.rows) : 2 ^ (c.indexWidth - 1) < c.rows := by
  have hpos : 0 < c.indexWidth := by
    rw [Nat.pos_iff_ne_zero]
    intro hzero
    have hle := c.rows_le_two_pow
    rw [hzero] at hle
    omega
  have hnot : ¬c.indexWidth ≤ c.indexWidth - 1 := by omega
  rw [indexWidth_le_iff] at hnot
  omega

/-- The banks of a configuration that passes its check take its capacity in equal shares of at least one
slot. The index width is the least that numbers the slots of a bank: every key's slot fits in so many
bits, and where there is more than one slot some slot needs them all. -/
theorem indexWidth_exact (h : c.validate = .ok ()) :
    guarded c.rowsViolation? c.rows = .ok c.rows ∧ c.banks * c.rows = c.capacity ∧ 1 ≤ c.rows ∧
      IsLeast {width | c.rows ≤ 2 ^ width} c.indexWidth ∧
      (∀ (b : Bank) (key : Key), b.size = c.rows → b.home key < 2 ^ c.indexWidth) ∧
      (1 < c.rows → ∃ i < c.rows, 2 ^ (c.indexWidth - 1) ≤ i) := by
  have hvalid := validate_eq_ok.1 h
  have hbanks := hvalid.banks_pos
  refine ⟨guarded_eq_ok.2 ⟨?_, rfl⟩, hvalid.banks_mul_rows, hvalid.rows_pos,
    ⟨c.rows_le_two_pow, fun width hwidth => (c.indexWidth_le_iff width).2 hwidth⟩,
    fun b key hsize => ?_, fun hmany => ⟨_, two_pow_pred_lt_rows hmany, Nat.le_refl _⟩⟩
  · rw [rowsViolation?, Violation.when_eq_none, beq_eq_false_iff_ne]
    omega
  · have hlt : b.home key < b.size := Hash.slotIndex_lt _ (hsize ▸ hvalid.rows_pos)
    exact Nat.lt_of_lt_of_le (hsize ▸ hlt) c.rows_le_two_pow

/-- Two banks with one slot more than `2 ^ 62` each. -/
def hugeConfig : Config where
  capacity := 2 ^ 63 + 2

/-- One slot more than a power of two needs one bit more. -/
theorem indexWidth_exact_huge :
    hugeConfig.validate = .ok () ∧ 2 * hugeConfig.rows = 2 ^ 63 + 2 ∧ hugeConfig.indexWidth = 63 ∧
      (∀ (b : Bank) (key : Key), b.size = 2 ^ 62 + 1 → b.home key < 2 ^ 63) ∧
      ∃ i < hugeConfig.rows, 2 ^ 62 ≤ i := by
  have hrows : hugeConfig.rows = 2 ^ 62 + 1 := rfl
  have hwidth : hugeConfig.indexWidth = 63 := by decide +kernel
  obtain ⟨-, hshares, -, -, hfits, hneeds⟩ := indexWidth_exact (rfl : hugeConfig.validate = .ok ())
  rw [hwidth] at hfits hneeds
  exact ⟨rfl, hshares, hwidth, fun b key hb => hfits b key (hb.trans hrows.symm),
    hneeds (by rw [hrows]; decide)⟩

end ClockedCuckoo.Config
