import Patchbay.Descriptor

/-! The configuration of sockets and the options of one connect request. -/

namespace Patchbay

/-- The directive lists of one namespace of a socket, entry by entry as configured. -/
structure NamespaceConfig where
  emitters : List Json := []
  listeners : List Json := []
  emitBacks : List Json := []
deriving Inhabited

namespace NamespaceConfig

def isEmpty (c : NamespaceConfig) : Bool :=
  c.emitters.isEmpty && c.listeners.isEmpty && c.emitBacks.isEmpty

end NamespaceConfig

/-- The directive lists that tie a socket to the store. -/
structure StoreWiring where
  actions : List Json := []
  mutations : List Json := []
  emitBacks : List Json := []
deriving Inhabited

namespace StoreWiring

def isEmpty (w : StoreWiring) : Bool :=
  w.actions.isEmpty && w.mutations.isEmpty && w.emitBacks.isEmpty

end StoreWiring

structure SocketEntry where
  name : String := ""
  url : Option String := none
  isDefault : Bool := false
  namespaces : Dict NamespaceConfig := .empty
  store : StoreWiring := {}
  emitTimeout : Option Nat := none
deriving Inhabited

/-- An unnamed socket is known by its address. -/
def SocketEntry.label (e : SocketEntry) : String :=
  if e.name.isEmpty then e.url.getD "" else e.name

structure Settings where
  sockets : List SocketEntry := []
  warnings : Bool := true
  ignoredEvents : List String := []
  emitTimeout : Option Nat := none
  origin : String := "http://localhost:3000"
deriving Inhabited

/-- Under which key a connection is kept for later requests, if at all. -/
inductive Persist where
  | flag (on : Bool)
  | key (name : String)
deriving DecidableEq, Repr

def Persist.key? (scope : String) : Persist → Option String
  | .flag false => none
  | .flag true => some scope
  | .key name => if name.isEmpty then none else some name

/-- How the API of the peer is asked for. -/
structure Discovery where
  event : Option String := none
  data : Option Json := none
deriving Inhabited

structure ConnectOptions where
  name : Option String := none
  channel : Option String := none
  persist : Persist := .flag false
  teardown : Option Bool := none
  emitTimeout : Option Nat := none
  namespaceConfig : Option NamespaceConfig := none
  store : Option StoreWiring := none
  serverApi : Option Discovery := none
  clientApi : Option Descriptor := none
  ignoredEvents : Option (List String) := none
  warnings : Option Bool := none
  statusKey : Option String := none
  /-- Members that mean nothing here go to the transport as they are. -/
  extra : Fields Json := []

instance : Readable NamespaceConfig where
  read? v := do
    let slots ← Record.slots? ["emitters", "listeners", "emitBacks"] v
    return {
      emitters := ← Record.defaulted [] slots 0
      listeners := ← Record.defaulted [] slots 1
      emitBacks := ← Record.defaulted [] slots 2 }

instance : Writable NamespaceConfig where
  write c := .object
    [("emitters", .arr c.emitters), ("listeners", .arr c.listeners),
      ("emitBacks", .arr c.emitBacks)]

instance : Readable StoreWiring where
  read? v := do
    let slots ← Record.slots? ["actions", "mutations", "emitBacks"] v
    return {
      actions := ← Record.defaulted [] slots 0
      mutations := ← Record.defaulted [] slots 1
      emitBacks := ← Record.defaulted [] slots 2 }

instance : Writable StoreWiring where
  write w := .object
    [("actions", .arr w.actions), ("mutations", .arr w.mutations),
      ("emitBacks", .arr w.emitBacks)]

instance : Readable SocketEntry where
  read? v := do
    let slots ← Record.slots? ["name", "url", "default", "namespaces", "vuex", "emitTimeout"] v
    return {
      name := ← Record.defaulted "" slots 0
      url := ← Record.optional slots 1
      isDefault := ← Record.defaulted false slots 2
      namespaces := ← Record.defaulted .empty slots 3
      store := ← Record.defaulted {} slots 4
      emitTimeout := ← Record.optional slots 5 }

instance : Writable SocketEntry where
  write e := .record
    [("name", some (.str e.name)), ("url", e.url.map write),
      ("default", some (.bool e.isDefault)), ("namespaces", some (write e.namespaces)),
      ("vuex", some (write e.store)), ("emitTimeout", e.emitTimeout.map write)]

instance : Readable Settings where
  read? v := do
    let slots ← Record.slots?
      ["sockets", "warnings", "apiIgnoreEvts", "emitTimeoutMs", "origin"] v
    let base : Settings := {}
    return {
      sockets := ← Record.defaulted base.sockets slots 0
      warnings := ← Record.defaulted base.warnings slots 1
      ignoredEvents := ← Record.defaulted base.ignoredEvents slots 2
      emitTimeout := ← Record.defaulted base.emitTimeout slots 3
      origin := ← Record.defaulted base.origin slots 4 }

instance : Writable Settings where
  write s := .object
    [("sockets", write s.sockets), ("warnings", write s.warnings),
      ("apiIgnoreEvts", write s.ignoredEvents), ("emitTimeoutMs", write s.emitTimeout),
      ("origin", write s.origin)]

instance : Readable Persist where
  read?
    | .bool on => some (.flag on)
    | .str name => some (.key name)
    | _ => none

instance : Writable Persist where
  write
    | .flag on => .bool on
    | .key name => .str name

instance : Readable Discovery where
  read? v := do
    let slots ← Record.slots? ["evt", "data"] v
    return ⟨← Record.optional slots 0, ← Record.optional slots 1⟩

instance : Writable Discovery where
  write d := .record [("evt", d.event.map write), ("data", d.data)]

namespace ConnectOptions

def names : List String :=
  ["name", "channel", "persist", "teardown", "emitTimeout", "namespaceCfg", "vuex", "serverAPI",
    "clientAPI", "apiIgnoreEvts", "warnings", "statusProp"]

end ConnectOptions

/-- Options are read from an object only: members of other names are kept as `extra`. -/
instance : Readable ConnectOptions where
  read?
    | .obj members => do
      let slots ← Record.slots? ConnectOptions.names (.obj members)
      return {
        name := ← Record.optional slots 0
        channel := ← Record.optional slots 1
        persist := ← Record.defaulted (.flag false) slots 2
        teardown := ← Record.optional slots 3
        emitTimeout := ← Record.optional slots 4
        namespaceConfig := ← Record.optional slots 5
        store := ← Record.optional slots 6
        serverApi := ← Record.optional slots 7
        clientApi := ← Record.optional slots 8
        ignoredEvents := ← Record.optional slots 9
        warnings := ← Record.optional slots 10
        statusKey := ← Record.optional slots 11
        extra := members.filter fun (k, _) => !ConnectOptions.names.contains k }
    | _ => none

instance : Writable ConnectOptions where
  write o := .obj (Fields.overlay (Fields.ofList
    [("name", write o.name), ("channel", write o.channel), ("persist", write o.persist),
      ("teardown", write o.teardown), ("emitTimeout", write o.emitTimeout),
      ("namespaceCfg", write o.namespaceConfig), ("vuex", write o.store),
      ("serverAPI", write o.serverApi), ("clientAPI", write o.clientApi),
      ("apiIgnoreEvts", write o.ignoredEvents), ("warnings", write o.warnings),
      ("statusProp", write o.statusKey)]) o.extra)

end Patchbay
