/-!
The listeners of one connection, oldest first. Numbers are given once and never again,
so removing a listener by its number can hit no other.
-/

namespace Patchbay

structure Listener (α : Type) where
  id : Nat
  event : String
  action : α
  /-- Removed by its first delivery. -/
  once : Bool

structure Listeners (α : Type) where
  entries : List (Listener α) := []
  next : Nat := 1
deriving Inhabited

namespace Listeners

variable {α : Type}

def add (l : Listeners α) (event : String) (action : α) (once : Bool) : Listeners α × Nat :=
  (⟨l.entries ++ [⟨l.next, event, action, once⟩], l.next + 1⟩, l.next)

def hears (l : Listeners α) (event : String) : Bool := l.entries.any (·.event == event)

/-- The listeners a delivery calls, and those left when it calls the first of them. -/
def deliver (l : Listeners α) (event : String) : List (Listener α) × Listeners α :=
  (l.entries.filter (·.event == event),
    { l with entries := l.entries.filter fun e => !(e.once && e.event == event) })

/-- Removes the listeners that `out` picks, and returns their actions. -/
def remove (l : Listeners α) (out : Listener α → Bool) : List α × Listeners α :=
  ((l.entries.filter out).map (·.action),
    { l with entries := l.entries.filter fun e => !out e })

end Listeners

end Patchbay
