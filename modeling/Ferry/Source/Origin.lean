/-
  Ferry.Source.Origin

  What names refer to, gathered over all files of a run. The first origin recorded for a name stays,
  whatever is recorded later.
-/
import Ferry.Association

namespace Ferry.Source

structure OriginCache where
  origins : List (String × String) := []
deriving DecidableEq

namespace OriginCache

def empty : OriginCache := {}

def origin? (cache : OriginCache) (name : String) : Option String :=
  cache.origins.lookup name

/-- Records the origin of a name that has none yet. -/
def record (cache : OriginCache) (name origin : String) : OriginCache :=
  match cache.origin? name with
  | some _ => cache
  | none => { origins := Association.put name origin cache.origins }

def size (cache : OriginCache) : Nat :=
  cache.origins.length

/-- What is recorded for one name leaves the others alone, and the first record stays. -/
theorem origin?_record (cache : OriginCache) (name origin other : String) :
    (cache.record name origin).origin? other =
      if other = name then some ((cache.origin? name).getD origin) else cache.origin? other := by
  unfold record
  cases h : cache.origin? name with
  | some known =>
    by_cases heq : other = name
    · simp [heq, h]
    · simp [heq]
  | none =>
    show (Association.put name origin cache.origins).lookup other = _
    rw [Association.lookup_put]
    by_cases heq : other = name
    · simp [heq]
    · simp [heq, origin?]

end OriginCache

end Ferry.Source
