import ClockedCuckoo.Error
import ClockedCuckoo.LaneSet
import ClockedCuckoo.Hash.Algorithm

/-!
The fixed parameters of an engine, the defects that forbid building one, and the sizes derived from
the parameters.
-/

namespace ClockedCuckoo

structure Config where
  /-- The slots of all banks together. -/
  capacity : Nat := 32
  banks : Nat := 2
  keyWidth : Nat := 8
  /-- The width of the data; 0 stores keys alone. -/
  dataWidth : Nat := 32
  /-- One more than the number of lookups that may be in flight at once. -/
  maxOverlap : Nat := 16
  algorithm : Hash.Algorithm := .random
  queueDepth : Nat := 16
  deriving DecidableEq, Repr, Inhabited

namespace Config

inductive Defect
  | noBanks
  | tooManyBanks (banks : Nat)
  | noSlots
  | unevenBanks (capacity banks : Nat)
  | keyWidth (width : Nat)
  | dataWidth (width : Nat)
  | overlapTooSmall
  | noQueue
  deriving DecidableEq, Repr

def Defect.message : Defect → String
  | noBanks => "TABLE_CNT 必须大于0"
  | tooManyBanks banks =>
    "TABLE_CNT 最大为 " ++ LaneSet.maxWidth.repr ++ ", 实际 " ++ banks.repr
  | noSlots => "TABLE_SIZE 必须大于0"
  | unevenBanks capacity banks =>
    "TABLE_SIZE (" ++ capacity.repr ++ ") 不能被 TABLE_CNT (" ++ banks.repr ++ ") 整除"
  | keyWidth width => "KEY_WIDTH 必须在 1..=64 之间, 实际 " ++ width.repr
  | dataWidth width => "DATA_WIDTH 不能超过 64, 实际 " ++ width.repr
  | overlapTooSmall => "MAX_LOOKUP_OVERLAP 至少为 2, 否则任何查询都无法被接收"
  | noQueue => "结果队列深度必须大于0"

/-- The first defect, banks and slots before widths, widths before the pipeline. -/
def defect? (c : Config) : Option Defect :=
  if c.banks = 0 then some .noBanks
  else if LaneSet.maxWidth < c.banks then some (.tooManyBanks c.banks)
  else if c.capacity = 0 then some .noSlots
  else if c.capacity % c.banks ≠ 0 then some (.unevenBanks c.capacity c.banks)
  else if c.keyWidth = 0 ∨ 64 < c.keyWidth then some (.keyWidth c.keyWidth)
  else if 64 < c.dataWidth then some (.dataWidth c.dataWidth)
  else if c.maxOverlap < 2 then some .overlapTooSmall
  else if c.queueDepth = 0 then some .noQueue
  else none

def validate (c : Config) : Except Error Unit :=
  match c.defect? with
  | some d => .error (.invalidConfig d.message)
  | none => .ok ()

structure Valid (c : Config) : Prop where
  banks_pos : 0 < c.banks
  banks_le : c.banks ≤ 64
  capacity_pos : 0 < c.capacity
  banks_dvd : c.banks ∣ c.capacity
  keyWidth_pos : 0 < c.keyWidth
  keyWidth_le : c.keyWidth ≤ 64
  dataWidth_le : c.dataWidth ≤ 64
  two_le_maxOverlap : 2 ≤ c.maxOverlap
  queueDepth_pos : 0 < c.queueDepth

def rows (c : Config) : Nat :=
  c.capacity / c.banks

def rowsViolation? (c : Config) : Option Violation :=
  Violation.zeroDivisor.when (c.banks == 0)

def indexWidth (c : Config) : Nat :=
  if c.rows ≤ 1 then 0 else (c.rows - 1).log2 + 1

def keyMask (c : Config) : Word :=
  Word.lowMask c.keyWidth

def dataMask (c : Config) : Word :=
  Word.lowMask c.dataWidth

theorem ite_some_eq_none_iff {α : Type} {p : Prop} [Decidable p] {a : α} {b : Option α} :
    (if p then some a else b) = none ↔ ¬p ∧ b = none := by
  split <;> simp [*]

theorem defect?_eq_none_iff (c : Config) : c.defect? = none ↔ c.Valid := by
  simp only [defect?, ite_some_eq_none_iff]
  simp only [LaneSet.maxWidth]
  constructor
  · rintro ⟨h1, h2, h3, h4, h5, h6, h7, h8, -⟩
    exact ⟨by omega, by omega, by omega, Nat.dvd_of_mod_eq_zero (by omega), by omega, by omega,
      by omega, by omega, by omega⟩
  · rintro ⟨h1, h2, h3, h4, h5, h6, h7, h8, h9⟩
    have h4 := Nat.mod_eq_zero_of_dvd h4
    exact ⟨by omega, by omega, by omega, by omega, by omega, by omega, by omega, by omega, trivial⟩

theorem validate_eq_ok {c : Config} : c.validate = .ok () ↔ c.Valid := by
  rw [← defect?_eq_none_iff, validate]
  cases c.defect? <;> simp

theorem Valid.validate {c : Config} (h : c.Valid) : c.validate = .ok () :=
  validate_eq_ok.2 h

theorem Valid.banks_mul_rows {c : Config} (h : c.Valid) : c.banks * c.rows = c.capacity :=
  Nat.mul_div_cancel' h.banks_dvd

theorem Valid.rows_pos {c : Config} (h : c.Valid) : 0 < c.rows :=
  Nat.div_pos (Nat.le_of_dvd h.capacity_pos h.banks_dvd) h.banks_pos

end Config
end ClockedCuckoo
