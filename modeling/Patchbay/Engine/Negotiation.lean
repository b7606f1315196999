import Patchbay.Engine.Sessions

/-!
Negotiated APIs. The peer's API is asked for, its methods get slots in the component's
data and its events listeners that write there; the component's own API is published and
its methods are answered by the component's handlers.
-/

namespace Patchbay

namespace ServerApi

def defaultEvent : String := "getAPI"

/-- A place in the component's data under the root of the peer's API. -/
def slot (parts : List String) : String := String.intercalate "." ("ioData" :: parts)

def methods (api : ServerApi) : List String := api.descriptor.methods.keys

/-- What the store keeps of a negotiated API. -/
def summary (api : ServerApi) : Json := .object
  [("ready", .bool true), ("label", write api.descriptor.label),
    ("version", api.descriptor.version), ("evts", write api.descriptor.events.keys),
    ("methods", write api.methods)]

end ServerApi

namespace World

def addSubscription (wired : Wired) (p : Pass) (listener : Nat) : Wired :=
  wired.append { subscriptions := [.new (.listener p.channel.connection listener)] }

/-! The peer's API -/

def discoveryRun (p : Pass) (d : Discovery) : EmitRun :=
  { channel := p.channel, event := d.event.getD ServerApi.defaultEvent
    msg := some (d.data.getD .emptyObject) }

/-- Slots for a method's message and response, where there is nothing yet. -/
def initMethod (w : World) (p : Pass) (name : String) (shape : MethodShape) : World :=
  let place := Place.component p.owner
  (w.setDefault place (ServerApi.slot [name, "msg"]) (shape.msg.getD .emptyObject)).setDefault
    place (ServerApi.slot [name, "resp"]) shape.emptyResponse

/-- Where an event's payload is written: under its methods, if it names any. -/
def eventSlots (name : String) (shape : EventShape) : List String :=
  if shape.methods.isEmpty then [ServerApi.slot [name]]
  else shape.methods.map fun method => ServerApi.slot [method, name]

def attachEvent (w : World) (p : Pass) (name : String) (shape : EventShape) : World × Nat :=
  let paths := eventSlots name shape
  let initial := shape.data.getD .emptyObject
  let w := paths.foldl (fun w path => w.setDefault (.component p.owner) path initial) w
  let w := w.warnIf (p.warnings && w.hears p.channel.connection name) (.apiListenerAttached name)
  w.listen p.channel.connection name (.apiEvent p.owner paths p.token)

/-- Listens to one event of the peer, unless it is ignored or has its listener already. -/
def bindEvent (p : Pass) (ignored : List String) (acc : World × Wired)
    (entry : String × EventShape) : World × Wired :=
  if ignored.contains entry.1 then acc
  else
    let b := Binding.bareListener entry.1
    match acc.1.claim p p.componentScope b with
    | (w, false) => (w, acc.2)
    | (w, true) =>
      let (w, id) := w.attachEvent p entry.1 entry.2
      (w, (addSubscription acc.2 p id).append { bindings := [b] })

def bindServerApi (w : World) (p : Pass) (ignored : List String) (d : Descriptor) (wired : Wired) :
    World × Wired × ServerApi :=
  let w := d.methods.entries.foldl (fun w (name, shape) => w.initMethod p name shape) w
  let (w, wired) := d.events.entries.foldl (bindEvent p ignored) (w, wired)
  let api : ServerApi := ⟨p.channel, p.owner, d⟩
  ({ w with sockets := w.sockets.setServerApi p.channel.scope api.summary }, wired, api)

/-! The component's own API -/

def bindMethod (p : Pass) (acc : World × Wired) (name : String) : World × Wired :=
  match acc.1.handler? p.owner name with
  | none => (acc.1.warnIf p.warnings (.noMethodHandler name), acc.2)
  | some hook =>
    let b := Binding.bareListener name
    match acc.1.claim p p.componentScope b with
    | (w, false) => (w, acc.2)
    | (w, true) =>
      let (w, id) := w.listen p.channel.connection name (.serve hook p.token)
      (w, (addSubscription acc.2 p id).append { bindings := [b] })

def helperName (event : String) : String := event ++ "Emit"

/-- An event with default fields fills the gaps in the component's value of that name, and
gets a helper that sends it, unless the component has a member of the helper's name. -/
def bindHelper (p : Pass) (d : Descriptor) (w : World) (event : String) : World :=
  match d.eventDefaults event with
  | none => w
  | some defaults =>
    let place := Place.component p.owner
    let w :=
      if (w.tree place).contains event then
        defaults.foldl (fun w (field, v) => w.setDefault place (event ++ "." ++ field) v) w
      else w
    if w.hasMember p.owner (helperName event) then w
    else w.insertCallable p.owner (helperName event) (.helper p.channel event)

def publish (w : World) (p : Pass) (d : Descriptor) (event : String) (wired : Wired) :
    World × Wired :=
  let b := Binding.bareListener event
  match w.claim p p.componentScope b with
  | (w, false) => (w, wired)
  | (w, true) =>
    let (w, id) := w.listen p.channel.connection event (.publish (write d))
    (w, (addSubscription wired p id).append { bindings := [b] })

/-- A descriptor without events and methods is not published. -/
def bindClientApi (w : World) (p : Pass) (d : Descriptor) (event : String) (wired : Wired) :
    World × Wired :=
  if d.isEmpty then (w, wired)
  else
    let (w, wired) := d.methods.keys.foldl (bindMethod p) (w, wired)
    let w := d.events.keys.foldl (bindHelper p d) w
    let (w, wired) := w.publish p d event wired
    ({ w with sockets := w.sockets.setClientApi p.channel.scope d }, wired)

end World

end Patchbay
