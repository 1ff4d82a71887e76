import ClockedCuckoo.Word

/-!
The errors a caller can meet: a configuration that cannot be built, a key found in several banks,
a run that did not come to rest in time. Each is a value that names its cause; the texts are here.
-/

namespace ClockedCuckoo

/-- A probed key that several banks hold at once, with those banks in ascending order. -/
structure Duplicate where
  key : Key
  banks : List Nat
  deriving DecidableEq, Repr

inductive Error
  | invalidConfig (reason : String)
  /-- The banks handed over differ from the configuration in number or in size. -/
  | shapeMismatch (expected actual : Nat)
  | duplicateKey (duplicate : Duplicate)
  | timeout (operation : String) (ticks : Nat)
  deriving DecidableEq, Repr

namespace Duplicate

def banksText (d : Duplicate) : String :=
  "[" ++ ", ".intercalate (d.banks.map Nat.repr) ++ "]"

end Duplicate

namespace Error

def message : Error → String
  | invalidConfig reason => "无效配置: " ++ reason
  | shapeMismatch expected actual =>
    "子表数量或容量与配置不符 (期望: " ++ expected.repr ++ ", 实际: " ++ actual.repr ++ ")"
  | duplicateKey d => "键 " ++ Word.hex d.key ++ " 同时存在于多个子表: " ++ d.banksText
  | timeout operation ticks =>
    "操作超时: " ++ operation ++ " (已运行 " ++ ticks.repr ++ " 个周期)"

def advice : Error → String
  | invalidConfig _ => "检查配置参数, TABLE_SIZE 必须能被 TABLE_CNT 整除"
  | shapeMismatch _ _ => "按配置提供 TABLE_CNT 个容量为 TABLE_SIZE/TABLE_CNT 的子表"
  | duplicateKey _ => "出错的操作已被丢弃, 提交清空以恢复子表一致性"
  | timeout _ _ => "降低负载因子或增加周期上限"

def isRecoverable : Error → Bool
  | timeout _ _ => true
  | _ => false

def isConstruction : Error → Bool
  | invalidConfig _ | shapeMismatch _ _ => true
  | duplicateKey _ | timeout _ _ => false

/-- The same error, a timeout told under the name of another operation. -/
def renamed (operation : String) : Error → Error
  | timeout _ ticks => timeout operation ticks
  | e => e

end Error
end ClockedCuckoo
