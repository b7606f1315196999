import Patchbay.Engine.Task

/-!
The deliveries of one connection call by call. A delivery settles whom it calls when it starts, and
the responder goes to the first of them. Between its calls the handler that was called, or anybody
else, may add and remove listeners and deliver more; a delivery that starts last is the first to go
on. The engine's own handlers do none of this, so the engine makes each delivery in one go.
-/

namespace Patchbay

namespace Listeners

variable {α : Type}

inductive Act (α : Type) where
  | add (event : String) (action : α) (once : Bool)
  | off (event : String)
  | offListener (id : Nat)
  | offAll
  | deliver (event : String) (payload : Json) (ack : Option CellId)
  /-- Of the deliveries that have somebody left to call, the one that started last calls the
  next. -/
  | call

/-- A listener that is called in the delivery that started at that place of the history. -/
structure Call (α : Type) where
  start : Nat
  listener : Listener α
  payload : Json
  ack : Option CellId

/-- The calls of a delivery; the responder goes to the first. -/
def calls (start : Nat) (payload : Json) : Option CellId → List (Listener α) → List (Call α)
  | _, [] => []
  | ack, l :: rest => ⟨start, l, payload, ack⟩ :: calls start payload none rest

/-- The listeners with the deliveries under way. -/
structure Scene (α : Type) where
  listeners : Listeners α := {}
  /-- Calls that are due, those of the delivery that started last before the others. -/
  due : List (Call α) := []
  /-- Calls that were made, in order. -/
  made : List (Call α) := []
  /-- How many acts there were. -/
  clock : Nat := 0

namespace Scene

def act (s : Scene α) : Act α → Scene α
  | .add event action once =>
    { s with listeners := (s.listeners.add event action once).1, clock := s.clock + 1 }
  | .off event =>
    { s with listeners := (s.listeners.remove (·.event == event)).2, clock := s.clock + 1 }
  | .offListener id =>
    { s with listeners := (s.listeners.remove (·.id == id)).2, clock := s.clock + 1 }
  | .offAll => { s with listeners := (s.listeners.remove fun _ => true).2, clock := s.clock + 1 }
  | .deliver event payload ack =>
    let (called, listeners) := s.listeners.deliver event
    { s with listeners, due := calls s.clock payload ack called ++ s.due, clock := s.clock + 1 }
  | .call =>
    match s.due with
    | [] => { s with clock := s.clock + 1 }
    | c :: rest => { s with due := rest, made := s.made ++ [c], clock := s.clock + 1 }

/-- All calls there were and will be of the deliveries so far. -/
def all (s : Scene α) : List (Call α) := s.made ++ s.due

end Scene

def after (acts : List (Act α)) : Scene α := acts.foldl Scene.act {}

end Listeners

end Patchbay
