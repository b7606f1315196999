import Patchbay.Engine.Task
import Patchbay.Warning

/-! The trace of a run: what an observer of transport, servers, handlers, store, state trees
and log could see, in order. -/

namespace Patchbay

inductive Event where
  | opened (url namespaceName : String) (extra : Fields Json)
  | emitted (connection : Nat) (event : String) (payload : Json) (acked : Bool)
  | served (namespaceName event : String) (msg : Json) (acked : Bool)
  | called (component handler : String) (argument : Json) (peek : Option Json)
  | returned (component handler : String)
  | heard (listener : String) (payload : Json) (acked : Bool)
  | mutated (name : String) (payload : Json)
  | acted (name : String) (payload : Json)
  | warned (warning : Warning)
  /-- A state tree was written; this is its document now. -/
  | wrote (place : Place) (root : Json)
  /-- A watch was started; this is what it saw first. -/
  | watched (place : Place) (id : Nat) (path : String) (first : Option Json)

end Patchbay
