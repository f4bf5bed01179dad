import Mathlib

/-! Block ids, task handles and task descriptions shared by the stores. -/

namespace UnifiedCache

abbrev BlockId := Vector UInt8 16

abbrev TaskHandle := Nat

abbrev Addr := Nat

structure Shard where
  owner : BlockId
  index : Nat
  addrs : List Addr
  deriving DecidableEq

/-- What the cache store keys its buffer by. -/
def Shard.key (s : Shard) : BlockId × Nat := (s.owner, s.index)

abbrev TaskDesc := List Shard

end UnifiedCache
