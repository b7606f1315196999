/-! A subscription is undone once, whether it is ended by a call or given up. -/

namespace Patchbay

/-- What has to be done to undo a registration; nothing when there is none left. -/
structure Subscription (α : Type) where
  undo : Option α
deriving DecidableEq, Repr

namespace Subscription

variable {α : Type}

def new (undo : α) : Subscription α := ⟨some undo⟩
def noop : Subscription α := ⟨none⟩

def active (s : Subscription α) : Bool := s.undo.isSome

/-- What ending the subscription runs, and the subscription afterwards. -/
def finish (s : Subscription α) : Option α × Subscription α := (s.undo, noop)

def text (s : Subscription α) : String :=
  "Subscription \x7b active: " ++ (if s.active then "true" else "false") ++ " \x7d"

end Subscription

end Patchbay
