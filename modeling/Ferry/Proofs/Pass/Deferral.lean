/-
  Ferry.Proofs.Pass.Deferral

  Running blocks with deferred blocks in them.  A `defer` registers its block when it is reached,
  and what is registered is run when the block ends, the last first and however the block ends.  The
  clean-up of a `do` is run after its body in any case.  What any other statement does is left open:
  it adds to the trace, in a way that may depend on all that was done before, and ends normally or
  with an exit.

  Running a block with more blocks registered from the start is running it and then those
  (`run_append`).  So a `defer` may guard what follows it instead of being registered, and a block
  runs as it did once all its deferred blocks are clean-ups (`run_wrapDefers`).
-/
import Ferry.Proofs.Pass.Settled

namespace Ferry.Execution

open Pass

/-- What has been done, and the exit that was taken before the end. -/
structure Course (Event Exit : Type) where
  trace : List Event
  exit : Option Exit

variable {Event Exit : Type}

/-- What goes on from all that has been done so far. -/
abbrev Action (Event Exit : Type) := List Event → Course Event Exit

/-- Runs an action after everything else; its exit counts before an earlier one. -/
def Course.andFinally (course : Course Event Exit) (cleanup : Action Event Exit) :
    Course Event Exit :=
  let cleaned := cleanup course.trace
  ⟨cleaned.trace, cleaned.exit <|> course.exit⟩

/-- Runs the registered actions, the last one first. -/
def unwind (registered : List (Action Event Exit)) (course : Course Event Exit) :
    Course Event Exit :=
  registered.foldl Course.andFinally course

/-- What is added to the trace by a statement that neither defers nor guards, and its exit. -/
abbrev World (Event Exit : Type) := Stmt → Action Event Exit

namespace World

def perform (world : World Event Exit) (s : Stmt) : Action Event Exit :=
  fun done => ⟨done ++ (world s done).trace, (world s done).exit⟩

variable (world : World Event Exit)

mutual

def runStmt : Stmt → Action Event Exit
  | .doBlock body cleanup _ => fun done => (run body [] done).andFinally (run cleanup [])
  | s => world.perform s

/-- Runs a block in which some actions are registered already, the last one first. -/
def run : List Stmt → (registered : List (Action Event Exit)) → Action Event Exit
  | [], registered, done => unwind registered ⟨done, none⟩
  | .deferBlock body _ :: rest, registered, done => run rest (run body [] :: registered) done
  | s :: rest, registered, done =>
    let course := runStmt s done
    if course.exit.isSome then unwind registered course else run rest registered course.trace

end

theorem run_nil (registered : List (Action Event Exit)) (done : List Event) :
    world.run [] registered done = unwind registered ⟨done, none⟩ := rfl

theorem run_defer (body rest : List Stmt) (span : Option Span)
    (registered : List (Action Event Exit)) (done : List Event) :
    world.run (.deferBlock body span :: rest) registered done =
      world.run rest (world.run body [] :: registered) done := rfl

theorem run_cons {s : Stmt} (hs : ∀ body span, s ≠ .deferBlock body span) (rest : List Stmt)
    (registered : List (Action Event Exit)) (done : List Event) :
    world.run (s :: rest) registered done =
      if (world.runStmt s done).exit.isSome then unwind registered (world.runStmt s done)
      else world.run rest registered (world.runStmt s done).trace := by
  cases s with
  | deferBlock body span => exact absurd rfl (hs body span)
  | _ => rfl

/-- What is registered first is run last, so it may as well be run after the block. -/
theorem run_append (block : List Stmt) (registered outer : List (Action Event Exit))
    (done : List Event) :
    world.run block (registered ++ outer) done =
      unwind outer (world.run block registered done) := by
  induction block generalizing registered done with
  | nil => exact List.foldl_append
  | cons s rest ih =>
    by_cases hs : ∃ body span, s = .deferBlock body span
    · obtain ⟨body, span, rfl⟩ := hs
      exact ih (world.run body [] :: registered) done
    · push Not at hs
      rw [run_cons world hs, run_cons world hs]
      split
      next => exact List.foldl_append
      next => exact ih registered _

theorem run_eq_unwind (block : List Stmt) (registered : List (Action Event Exit))
    (done : List Event) :
    world.run block registered done = unwind registered (world.run block [] done) :=
  world.run_append block [] registered done

/-- A statement at the end of a block leaves the registered actions to be run. -/
theorem run_singleton {s : Stmt} (hs : ∀ body span, s ≠ .deferBlock body span)
    (registered : List (Action Event Exit)) (done : List Event) :
    world.run [s] registered done = unwind registered (world.runStmt s done) := by
  rw [run_cons world hs, run_nil]
  split
  next => rfl
  next hexit => rw [← Option.not_isSome_iff_eq_none.mp hexit]

theorem run_wrapDefers (block : List Stmt) (registered : List (Action Event Exit))
    (done : List Event) :
    world.run (wrapDefers block) registered done = world.run block registered done := by
  fun_induction wrapDefers block generalizing registered done with
  | case1 => rfl
  | case2 body span rest hrest =>
    -- Nothing follows, so the deferred block is run next whether it is registered or not.
    obtain rfl := List.isEmpty_iff.mp hrest
    rw [run_defer, run_nil, run_eq_unwind]
    refine congrArg (unwind registered) ?_
    simp [Course.andFinally]
  | case3 body span rest hrest ih =>
    calc world.run [.doBlock (wrapDefers rest) body span] registered done
        = unwind registered ((world.run (wrapDefers rest) [] done).andFinally
          (world.run body [])) :=
          world.run_singleton (fun _ _ => Stmt.noConfusion) registered done
      _ = unwind (world.run body [] :: registered) (world.run rest [] done) := by rw [ih]; rfl
      _ = world.run rest (world.run body [] :: registered) done :=
        (world.run_eq_unwind rest _ done).symm
  | case4 s rest hs ih =>
    rw [run_cons world hs, run_cons world hs]
    simp only [ih]

/-! ## The whole pass -/

/-- Each statement as the pass leaves it. -/
def afterDefers (owner : Option String) : World Event Exit :=
  fun s => world (defersToFinally.onStmt owner s)

theorem onStmts_defersToFinally (owner : Option String) (block : List Stmt) :
    defersToFinally.onStmts owner block =
      wrapDefers (block.map (defersToFinally.onStmt owner)) := by
  rw [Transform.onStmts_eq, List.map_eq_flatMap]
  rfl

/-- That the pass leaves a block to be run as it was, up to what it does to single statements. -/
def KeptByDefers (owner : Option String) (block : List Stmt) : Prop :=
  ∀ registered done, world.run (defersToFinally.onStmts owner block) registered done =
    (world.afterDefers owner).run block registered done

theorem runStmt_onStmt {owner : Option String} {s : Stmt}
    (hs : ∀ body span, s ≠ .deferBlock body span)
    (hparts : ∀ body, .body body ∈ s.parts → world.KeptByDefers owner body) :
    (∀ body span, defersToFinally.onStmt owner s ≠ .deferBlock body span) ∧
      world.runStmt (defersToFinally.onStmt owner s) = (world.afterDefers owner).runStmt s := by
  cases s with
  | deferBlock body span => exact absurd rfl (hs body span)
  | doBlock body cleanup span =>
    refine ⟨fun _ _ => Stmt.noConfusion, ?_⟩
    have hbody := hparts body List.mem_cons_self
    have hcleanup := hparts cleanup (List.mem_cons_of_mem _ (List.mem_singleton_self _))
    funext done
    show (world.run (defersToFinally.onStmts owner body) [] done).andFinally
      (world.run (defersToFinally.onStmts owner cleanup) []) = _
    rw [hbody, funext (hcleanup [])]
    rfl
  | _ => exact ⟨fun _ _ => Stmt.noConfusion, rfl⟩

theorem keptByDefers_of_parts {owner : Option String} {block : List Stmt}
    (hparts : ∀ s ∈ block, ∀ body, .body body ∈ s.parts → world.KeptByDefers owner body) :
    world.KeptByDefers owner block := by
  intro registered done
  rw [onStmts_defersToFinally, run_wrapDefers]
  induction block generalizing registered done with
  | nil => rfl
  | cons s rest ih =>
    obtain ⟨hfirst, hrest⟩ := List.forall_mem_cons.mp hparts
    by_cases hs : ∃ body span, s = .deferBlock body span
    · obtain ⟨body, span, rfl⟩ := hs
      have hbody := hfirst body (List.mem_singleton_self _)
      show world.run (.deferBlock (defersToFinally.onStmts owner body) span :: _) registered
        done = _
      rw [run_defer, run_defer, ih hrest, funext (hbody [])]
    · push Not at hs
      obtain ⟨hs', hrun⟩ := world.runStmt_onStmt hs hfirst
      rw [List.map_cons, run_cons world hs', run_cons _ hs, hrun]
      simp only [ih hrest]

theorem keptByDefers (owner : Option String) (block : List Stmt) :
    world.KeptByDefers owner block := by
  suffices h : ∀ (place : Place) (fragment : Fragment) block, fragment = .stmts block →
      world.KeptByDefers owner block from h {} _ block rfl
  intro place fragment
  induction place, fragment using Fragment.induction with
  | expr place called e ih => exact fun _ h => Fragment.noConfusion h
  | stmts place list ih =>
    rintro block ⟨⟩
    exact world.keptByDefers_of_parts fun s hs body hbody => ih s hs _ hbody body rfl

end World

/-- A block is run as before once what follows each `defer` is guarded: the same is done, and the
same exit is taken.  After the whole pass, which does this at any depth, it is run as before but
that each statement other than `defer` and `do` is what the pass makes of it, and there is no
`defer` at all. -/
theorem run_defersToFinally (world : World Event Exit) (block : List Stmt) (done : List Event) :
    world.run (wrapDefers block) [] done = world.run block [] done ∧
      ∀ owner, world.run (defersToFinally.onStmts owner block) [] done =
          World.run (fun s => world (defersToFinally.onStmt owner s)) block [] done ∧
        undeferred.Met { owner } (.stmts (defersToFinally.onStmts owner block)) :=
  ⟨world.run_wrapDefers block [] done, fun owner => ⟨world.keptByDefers owner block [] done,
    carries_undeferred.met (Demand.met_trivial { owner } (.stmts block))⟩⟩

/-- The name of a statement that is a name, and an exit at `stop`. -/
def spoken : World String Unit
  | .expression (.name n _ _ _) _, _ => ⟨[n], if n = "stop" then some () else none⟩
  | _, _ => ⟨[], none⟩

/-- Of three deferred blocks the last is not reached, and the second defers a block of its own. -/
example :
    let name n : Stmt := .expression (.name n false false {}) none
    let block := [name "open", .deferBlock [name "close"] none,
      .deferBlock [name "flush", .deferBlock [name "sync"] none, name "seal"] none,
      name "stop", .deferBlock [name "never"] none, name "done"]
    spoken.run (wrapDefers block) [] [] =
      ⟨["open", "stop", "flush", "seal", "sync", "close"], some ()⟩ := by
  rfl

end Ferry.Execution
