import UnifiedCache.Cache.Handles

/-! A dispatcher gathers as many nodes as its task has new keys, one by one, before it
gives any of them on. -/

namespace UnifiedCache.CacheStore.Store

open PinnedPool StepSystem

variable {Data : Type} {config : Config Data} {s : Store Data}

end UnifiedCache.CacheStore.Store
