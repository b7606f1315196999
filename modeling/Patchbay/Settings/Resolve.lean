import Patchbay.Failure
import Patchbay.Settings.Basic
import Patchbay.Warning

/-! Resolving a connect request: the options of the call win over the socket entry, and
the entry over the settings. -/

namespace Patchbay

structure Resolved where
  label : String
  url : String
  namespaceName : String
  /-- The label followed by the namespace; it names the socket's place in the store. -/
  scope : String
  persistKey : Option String
  teardown : Bool
  emitTimeout : Option Nat
  namespaceConfig : NamespaceConfig
  store : StoreWiring
  serverApi : Option Discovery
  clientApi : Option Descriptor
  ignoredEvents : List String
  warnings : Bool
  statusKey : String
  extra : Fields Json

namespace Resolved

/-- Keeps the first of the entries of one name; unnamed entries are all kept. -/
def mergeFrom (seen : List String) : List SocketEntry → List SocketEntry × List String
  | [] => ([], [])
  | entry :: rest =>
    if entry.name.isEmpty then
      let (kept, dropped) := mergeFrom seen rest
      (entry :: kept, dropped)
    else if seen.contains entry.name then
      let (kept, dropped) := mergeFrom seen rest
      (kept, entry.name :: dropped)
    else
      let (kept, dropped) := mergeFrom (entry.name :: seen) rest
      (entry :: kept, dropped)

/-- The configured entries before those given at run time. -/
def mergeSockets (configured runtime : List SocketEntry) (warnings : Bool) :
    List SocketEntry × List Warning :=
  let (kept, dropped) := mergeFrom [] (configured ++ runtime)
  (kept, if warnings then dropped.map .duplicateSocket else [])

/-- The entry of that name; without a name the first default entry, else the first. -/
def select (sockets : List SocketEntry) (name : Option String) :
    Except ConfigError SocketEntry :=
  match sockets with
  | [] => .error .noSockets
  | first :: rest =>
    match name with
    | some name =>
      match (first :: rest).find? (·.name == name) with
      | some entry => .ok entry
      | none => .error (.socketNotFound name)
    | none => .ok (((first :: rest).find? (·.isDefault)).getD first)

def nonempty (text : Option String) : Option String := text.filter (!·.isEmpty)

def defaultStatusKey : String := "socketStatus"

def ofEntry (s : Settings) (opts : ConnectOptions) (entry : SocketEntry) : Resolved :=
  let url := (nonempty entry.url).getD s.origin
  let label := if entry.label.isEmpty then url else entry.label
  let namespaceName := (nonempty opts.channel).getD "/"
  let scope := label ++ namespaceName
  let persistKey := opts.persist.key? scope
  { label, url, namespaceName, scope, persistKey
    teardown := opts.teardown.getD persistKey.isNone
    emitTimeout := opts.emitTimeout <|> entry.emitTimeout <|> s.emitTimeout
    namespaceConfig := (opts.namespaceConfig <|> entry.namespaces.get? namespaceName).getD {}
    store := opts.store.getD entry.store
    serverApi := opts.serverApi
    clientApi := opts.clientApi
    ignoredEvents := opts.ignoredEvents.getD s.ignoredEvents
    warnings := opts.warnings.getD s.warnings
    statusKey := (nonempty opts.statusKey).getD defaultStatusKey
    extra := opts.extra }

def ofRequest (s : Settings) (runtime : List SocketEntry) (opts : ConnectOptions) :
    Except ConfigError Resolved × List Warning :=
  let (sockets, warnings) := mergeSockets s.sockets runtime (opts.warnings.getD s.warnings)
  ((select sockets opts.name).map (ofEntry s opts), warnings)

end Resolved

end Patchbay
