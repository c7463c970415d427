/-
  Ferry.Pass.Defer

  Deferred blocks as clean-up. What follows a `defer` is guarded, and the deferred block is run
  after it in any case. A later `defer` is wrapped inside the guarded part, so deferred blocks still
  run in the reverse of their order.
-/
import Ferry.Traverse.Transform

namespace Ferry.Pass

/-- Guards what follows each `defer`; at the end of a list there is nothing to guard. -/
def wrapDefers : List Stmt → List Stmt
  | [] => []
  | .deferBlock body span :: rest =>
    if rest.isEmpty then body else [.doBlock (wrapDefers rest) body span]
  | s :: rest => s :: wrapDefers rest

def defersToFinally : Transform where
  block := wrapDefers

end Ferry.Pass
