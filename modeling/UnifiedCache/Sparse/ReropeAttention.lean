import UnifiedCache.Sparse.ReropeRows

/-! The attention kernels of Rerope compute plain attention, whichever of them runs and in whatever order
their programs store, and a token's softmax does not depend on how its keys are cut in segments. -/

namespace UnifiedCache.Sparse.Rerope

section Offsets

variable {K : Type*} {a : Args K}

end Offsets

section Segments

variable {K : Type*} {a : Args K} {s t i : Nat}

/-- A segment that has keys of its sequence. -/
def Args.Active (a : Args K) (seqIdx segmIdx : Nat) : Prop :=
  segmIdx * a.blocksPerSegment seqIdx * a.blockSize < a.sequsedK seqIdx

end Segments

variable {K : Type*} [Field K] [LinearOrder K] {e : Exponential K} {a : Args K} {s t h i : Nat}

/-- The buffers hold what the programs of the active segments have for a token and a head. -/
structure Segms.Holds (segms : Segms K) (e : Exponential K) (a : Args K) (seqIdx token head : Nat) : Prop where
  max : ∀ i < numSegments, a.Active seqIdx i →
    segms.max (a.segmOffset token head i) = ((a.rowAt seqIdx token head).segment e a i).max
  expsum : ∀ i < numSegments, a.Active seqIdx i →
    segms.expsum (a.segmOffset token head i) = ((a.rowAt seqIdx token head).segment e a i).sum
  output : ∀ i < numSegments, a.Active seqIdx i → ∀ d < a.headSize,
    segms.output (a.segmOutputOffset token head i d) = ((a.rowAt seqIdx token head).segment e a i).acc d

variable [IsStrictOrderedRing K]

section Stored

variable {K : Type*} {a : Args K}

end Stored

section Stores

variable {K : Type*} [Field K] [LinearOrder K] {e : Exponential K} {a : Args K} {g kv i s t h : Nat}

end Stores

section Attention

variable {K : Type*} [Field K] [LinearOrder K] {e : Exponential K} {a : Args K}

variable [IsStrictOrderedRing K]

end Attention

end UnifiedCache.Sparse.Rerope
