import Patchbay.Engine.Step

/-! Running until nothing is ready, and letting time pass. -/

namespace Patchbay

namespace World

/-- The steps one run may take; a run that needs more is left where it is. -/
def stepLimit : Nat := 1000000

def runSteps : Nat → World → World
  | 0, w => w
  | fuel + 1, w =>
    match w.step with
    | none => w
    | some w => runSteps fuel w

/-- Runs all ready tasks, and those they wake or start, until nothing moves. -/
def run (w : World) : World := runSteps stepLimit w

/-- The next moment after now, up to `limit`, at which a parked task goes on. -/
def nextDue (w : World) (limit : Nat) : Option Nat :=
  (w.parked.filterMap fun p => p.due.filter fun t => w.now < t && t ≤ limit).min?

/-- Lets time pass up to `limit`, stopping at every moment at which a task goes on. -/
def advance (limit : Nat) : Nat → World → World
  | 0, w => { w with now := limit }
  | fuel + 1, w =>
    match w.nextDue limit with
    | none => { w with now := limit }
    | some t => advance limit fuel (run (wakeDue { w with now := t }))

/-- Every stop is a later moment, so the waiting time bounds the stops. -/
def wait (w : World) (ms : Nat) : World := advance (w.now + ms) ms w

end World

end Patchbay
