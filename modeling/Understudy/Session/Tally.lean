/-!
What a selective loader has done so far, counted by the way in which each request ended.
-/

namespace Understudy

/-- The ways in which a request ends that are counted. -/
inductive LoadEvent where
  | cacheHit
  | intercepted
  | transformed
  | unmodified
  | deferred
  | notFound
  deriving DecidableEq, Repr

/-- How often each of them came about. -/
structure Tally where
  cacheHits : Nat := 0
  intercepted : Nat := 0
  transformed : Nat := 0
  unmodified : Nat := 0
  deferred : Nat := 0
  notFound : Nat := 0
  deriving DecidableEq, Repr

namespace Tally

/-- Counts one more. -/
def count (stats : Tally) : LoadEvent → Tally
  | .cacheHit => { stats with cacheHits := stats.cacheHits + 1 }
  | .intercepted => { stats with intercepted := stats.intercepted + 1 }
  | .transformed => { stats with transformed := stats.transformed + 1 }
  | .unmodified => { stats with unmodified := stats.unmodified + 1 }
  | .deferred => { stats with deferred := stats.deferred + 1 }
  | .notFound => { stats with notFound := stats.notFound + 1 }

/-- The requests that ended in a class defined from the loader's own class path. -/
def defined (stats : Tally) : Nat := stats.transformed + stats.unmodified

end Tally

end Understudy
