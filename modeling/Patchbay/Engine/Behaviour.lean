import Patchbay.Emit
import Patchbay.State.Tree

/-!
What surrounds the engine: the named handlers of components, the servers that answer
emits, and the actions and mutations of the store. Each is given by its replies, which
may depend on the call's number and its argument in any way.
-/

namespace Patchbay

/-- How a component's handler treats one call. -/
structure Reply where
  /-- A place in the component's data that the handler looks at first. -/
  peek : Option String := none
  delay : Option Nat := none
  /-- What it writes into the component's data before it returns. -/
  write : Option (String × Json) := none
  verdict : Verdict

structure Handler where
  calls : Nat := 0
  reply : Nat → Json → Reply

inductive PeerAnswer where
  /-- The responder is kept and may be used later. -/
  | hold
  /-- The responder is given up. -/
  | drop
  | value (v : Json)

/-- How a server treats one emit: the pushes and the disconnect come before the answer. -/
structure PeerReply where
  delay : Option Nat := none
  pushes : List (String × Json) := []
  disconnect : Bool := false
  answer : PeerAnswer

/-- The server's handler of one event on one namespace. -/
structure Server where
  namespaceName : String
  event : String
  calls : Nat := 0
  reply : Nat → Json → PeerReply

inductive Mutation where
  | set (path : String)
  /-- Merges an object into a place; another payload changes nothing. -/
  | merge (path : String)
  | note

namespace Mutation

def apply (m : Mutation) (payload : Json) (state : Tree) : Tree :=
  match m with
  | .set path => state.set path payload
  | .merge path =>
    match payload with
    | .obj fields => state.merge path fields
    | _ => state
  | .note => state

/-- Plain setters are not traced. -/
def traced : Mutation → Bool
  | .set _ => false
  | _ => true

end Mutation

inductive ActionEnd where
  | dispatch (action : String)
  | fail (reason : String)
  | value (v : Json)

/-- What an action does with its payload: wait, commit it, then end. -/
structure ActionPlan where
  delay : Option Nat := none
  commit : Option String := none
  ending : ActionEnd

abbrev StoreAction := Json → ActionPlan

end Patchbay
