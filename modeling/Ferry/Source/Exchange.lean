/-
  Ferry.Source.Exchange

  Computations that share the origins of names with others. Such a computation is known by what it
  does with them, one step at a time: it records the origin of a name, or it asks whether a name is
  known to come from the library and goes on with the answer. Between two steps it is on its own, so
  that others may take theirs.

  `run` takes all steps at once.
-/
import Ferry.Source.Table
import Ferry.Source.Origin

namespace Ferry.Source

def OriginCache.isLibrary (cache : OriginCache) (name : String) : Bool :=
  (cache.origin? name).any isLibraryOrigin

/-- A computation that records origins and asks for them. -/
inductive Exchange (α : Type) where
  | done (value : α)
  | record (name origin : String) (rest : Unit → Exchange α)
  | ask (name : String) (rest : Bool → Exchange α)

namespace Exchange

variable {α β γ : Type}

protected def bind : Exchange α → (α → Exchange β) → Exchange β
  | done value, next => next value
  | record name origin rest, next => record name origin fun u => (rest u).bind next
  | ask name rest, next => ask name fun answer => (rest answer).bind next

instance : Monad Exchange where
  pure := done
  bind := Exchange.bind

def tell (name origin : String) : Exchange Unit :=
  record name origin done

/-- Asks whether a name is known to come from the library. -/
def hear (name : String) : Exchange Bool :=
  ask name done

theorem bind_done (e : Exchange α) : e >>= done = e := by
  induction e with
  | done value => rfl
  | record name origin rest ih => exact congrArg (record name origin) (funext ih)
  | ask name rest ih => exact congrArg (ask name) (funext ih)

theorem bind_bind (e : Exchange α) (next : α → Exchange β) (last : β → Exchange γ) :
    e >>= next >>= last = e >>= fun value => next value >>= last := by
  induction e with
  | done value => rfl
  | record name origin rest ih => exact congrArg (record name origin) (funext ih)
  | ask name rest ih => exact congrArg (ask name) (funext ih)

instance : LawfulMonad Exchange :=
  LawfulMonad.mk' Exchange bind_done (fun _ _ => rfl) bind_bind

/-- Takes all steps against what has been recorded so far. -/
def run : Exchange α → OriginCache → α × OriginCache
  | done value, cache => (value, cache)
  | record name origin rest, cache => (rest ()).run (cache.record name origin)
  | ask name rest, cache => (rest (cache.isLibrary name)).run cache

/-- Takes all steps without anything shared: no name is known. -/
def alone : Exchange α → α
  | done value => value
  | record _ _ rest => (rest ()).alone
  | ask _ rest => (rest false).alone

end Exchange

end Ferry.Source
