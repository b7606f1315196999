import Patchbay.Record

/-! A binding ties an action name to a place in application state; its role says in
which direction values go. -/

namespace Patchbay

inductive Role where
  /-- Sends when the application asks for it. -/
  | emitter
  /-- Writes incoming events into application state. -/
  | listener
  /-- Sends whenever a watched value changes. -/
  | emitBack
deriving DecidableEq, Repr, Inhabited

namespace Role

def name : Role → String
  | .emitter => "emitter"
  | .listener => "listener"
  | .emitBack => "emitBack"

def ofName? (name : String) : Option Role :=
  [Role.emitter, .listener, .emitBack].find? (·.name == name)

end Role

/-- A role is named by a string, or by the only member of an object, with null. -/
instance : Readable Role where
  read?
    | .str name => Role.ofName? name
    | .obj [(name, .null)] => Role.ofName? name
    | _ => none

instance : Writable Role := ⟨fun role => .str role.name⟩

structure Binding where
  role : Role
  action : String
  /-- The extra payload of an emitter, the watched path of an emitBack. -/
  source : Option String
  /-- Where acknowledgments and payloads are written. -/
  target : Option String
  pre : Option String
  post : Option String
deriving DecidableEq, Repr, Inhabited

namespace Binding

/-- The path a listener writes to. -/
def targetOrAction (b : Binding) : String := b.target.getD b.action

/-- The path an emitBack watches. -/
def sourceOrAction (b : Binding) : String := b.source.getD b.action

/-- The listener of an event that is written nowhere else. -/
def bareListener (event : String) : Binding := ⟨.listener, event, none, none, none, none⟩

end Binding

instance : Readable Binding where
  read? v := do
    let slots ← Record.slots? ["role", "action", "source", "target", "pre", "post"] v
    return {
      role := ← Record.required slots 0
      action := ← Record.required slots 1
      source := ← Record.optional slots 2
      target := ← Record.optional slots 3
      pre := ← Record.optional slots 4
      post := ← Record.optional slots 5 }

instance : Writable Binding where
  write b := .record
    [("role", some (write b.role)), ("action", some (write b.action)),
      ("source", b.source.map write), ("target", b.target.map write),
      ("pre", b.pre.map write), ("post", b.post.map write)]

end Patchbay
