import Patchbay.Record

/-! An API descriptor lists the events a peer sends and the methods it answers. -/

namespace Patchbay

structure EventShape where
  data : Option Json
  /-- The methods whose data the event updates. -/
  methods : List String
deriving Inhabited

structure MethodShape where
  msg : Option Json
  resp : Option Json
deriving Inhabited

structure Descriptor where
  label : Option String
  version : Json
  events : Dict EventShape
  methods : Dict MethodShape
deriving Inhabited

instance : Readable EventShape where
  read? v := do
    let slots ← Record.slots? ["data", "methods"] v
    return ⟨← Record.optional slots 0, ← Record.defaulted [] slots 1⟩

instance : Writable EventShape where
  write s := .record
    [("data", s.data), ("methods", if s.methods.isEmpty then none else some (write s.methods))]

instance : Readable MethodShape where
  read? v := do
    let slots ← Record.slots? ["msg", "resp"] v
    return ⟨← Record.optional slots 0, ← Record.optional slots 1⟩

instance : Writable MethodShape where
  write s := .record [("msg", s.msg), ("resp", s.resp)]

instance : Readable Descriptor where
  read? v := do
    let slots ← Record.slots? ["label", "version", "evts", "methods"] v
    return {
      label := ← Record.optional slots 0
      version := ← Record.defaulted .null slots 1
      events := ← Record.defaulted .empty slots 2
      methods := ← Record.defaulted .empty slots 3 }

instance : Writable Descriptor where
  write d := .record
    [("label", d.label.map write), ("version", if d.version.isNull then none else some d.version),
      ("evts", some (write d.events)), ("methods", some (write d.methods))]

namespace Descriptor

def isEmpty (d : Descriptor) : Bool := d.events.isEmpty && d.methods.isEmpty

/-- The default fields of an event whose data is an object. -/
def eventDefaults (d : Descriptor) (event : String) : Option (Fields Json) :=
  (d.events.get? event).bind fun shape => shape.data.bind Json.members?

end Descriptor

/-- A response slot before the first response: a list for lists, else an object. -/
def MethodShape.emptyResponse (s : MethodShape) : Json :=
  match s.resp with
  | some (.arr _) => .arr []
  | _ => .emptyObject

end Patchbay
