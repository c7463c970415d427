/-
  Ferry.Text.Run

  Sets of characters given as runs of code points. A run names its first and last code point and
  the step between members, so a block that alternates capital and small letters is one run.
-/
namespace Ferry.Text

/-- The code points `first`, `first + step`, … up to `last`. -/
structure Run where
  first : Nat
  last : Nat
  step : Nat
deriving DecidableEq

namespace Run

/-- Whether the code point is one of the run's members. -/
def holds (run : Run) (point : Nat) : Bool :=
  run.first ≤ point && point ≤ run.last && (point - run.first) % run.step == 0

end Run

/-- Runs of one step by distances: how far each starts after the end of the one before it, and how
far it reaches from there. -/
def chain (step : Nat) : (point : Nat) → List Nat → List Run
  | point, gap :: reach :: rest =>
    ⟨point + gap, point + gap + reach, step⟩ :: chain step (point + gap + reach) rest
  | _, _ => []

def memberOf (runs : List Run) (c : Char) : Bool :=
  runs.any (·.holds c.toNat)

end Ferry.Text
