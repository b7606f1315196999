import Patchbay.Binding
import Patchbay.Json.Printer

/-! What can go wrong, and the text that says so. -/

namespace Patchbay

/-- One failed emit as it is kept in the error lists. -/
structure ErrorRecord where
  message : String
  event : String
  msg : Option Json
  details : Fields Json
  timestamp : String
deriving Inhabited

namespace ErrorRecord

private def members (r : ErrorRecord) : List (String × Json) :=
  [("message", some (.str r.message)), ("evt", some (.str r.event)), ("msg", r.msg),
    ("details", if r.details.isEmpty then none else some (.obj r.details)),
    ("timestamp", some (.str r.timestamp))].filterMap fun (k, v) => v.map (k, ·)

/-- The record as text, its members in the order of declaration. -/
def text (r : ErrorRecord) : String := Json.compact (.obj r.members)

def timeoutMessage : String := "emitTimeout"

def isTimeout (r : ErrorRecord) : Bool := r.message == timeoutMessage

end ErrorRecord

instance : Readable ErrorRecord where
  read? v := do
    let slots ← Record.slots? ["message", "evt", "msg", "details", "timestamp"] v
    return {
      message := ← Record.required slots 0
      event := ← Record.required slots 1
      msg := ← Record.optional slots 2
      details := (← Record.defaulted (⟨[]⟩ : JsonObject) slots 3).members
      timestamp := ← Record.required slots 4 }

instance : Writable ErrorRecord := ⟨fun r => .object r.members⟩

inductive TransportError where
  | notConnected (connection event : String)
  | connectFailed (url reason : String)
deriving DecidableEq

def TransportError.message : TransportError → String
  | .notConnected connection event =>
    s!"connection {connection} is not connected, cannot emit '{event}'"
  | .connectFailed url reason => s!"connect to {url} failed: {reason}"

/-- How an emit that was to be acknowledged can be rejected. -/
inductive EmitError where
  | timeout (event : String) (after : Nat)
  /-- The peer answered with an error and details. -/
  | ack (record : ErrorRecord)
  /-- The peer answered with a bare error. -/
  | remote (record : ErrorRecord)
  | disconnected (event : String)
  | missingConnection
  | transport (error : TransportError)

namespace EmitError

def message : EmitError → String
  | .timeout .. => ErrorRecord.timeoutMessage
  | .ack record => record.text
  | .remote record => record.message
  | .disconnected event => s!"connection closed before '{event}' was acknowledged"
  | .missingConnection =>
    "socket instance required. Please provide a valid socket label or socket instance"
  | .transport error => error.message

def kind : EmitError → String
  | .timeout .. => "timeout"
  | .ack _ => "ack"
  | .remote _ => "remote"
  | .disconnected _ => "disconnected"
  | .missingConnection => "missing_connection"
  | .transport _ => "transport"

def isTimeout : EmitError → Bool
  | .timeout .. => true
  | _ => false

/-- What is recorded of a rejected emit of `event` with payload `msg`. A record that the
peer's answer already gave stays as it is. -/
def toRecord (error : EmitError) (event : String) (msg : Option Json) (now : String) :
    ErrorRecord :=
  match error with
  | .ack record => record
  | .remote record => record
  | _ => ⟨error.message, event, msg, [], now⟩

end EmitError

inductive BindingError where
  | missingSource (source origin : String)
  | duplicate (scope : String) (role : Role) (action : String)
deriving DecidableEq

def BindingError.message : BindingError → String
  | .missingSource source origin =>
    s!"[nspwire]: Trying to register emitback {source} failed\nbecause it is not defined in " ++
      s!"{origin}.\nIs {origin} set up before wiring?"
  | .duplicate scope role action =>
    s!"{role.name} '{action}' is already registered in scope {scope}"

inductive StoreError where
  | unknownMutation (name : String)
  | unknownAction (name : String)
  | actionFailed (name reason : String)
deriving DecidableEq

def StoreError.message : StoreError → String
  | .unknownMutation name => s!"unknown mutation: {name}"
  | .unknownAction name => s!"unknown action: {name}"
  | .actionFailed name reason => s!"action {name} failed: {reason}"

/-- Why a connect request names no socket. -/
inductive ConfigError where
  | noSockets
  | socketNotFound (name : String)
deriving DecidableEq

def ConfigError.message : ConfigError → String
  | .noSockets =>
    "Please configure sockets before connecting: \r\n [\x7bname: '', url: ''\x7d]"
  | .socketNotFound name => s!"socket '{name}' is not among the configured sockets"

inductive EngineError where
  | config (error : ConfigError)
  | binding (error : BindingError)
  | emit (error : EmitError)
  | transport (error : TransportError)
  | store (error : StoreError)
  | handler (text : String)
  | unknownCallable (name : String)
  | invalidDescriptor (reason : String)

namespace EngineError

def message : EngineError → String
  | .config error => error.message
  | .binding error => error.message
  | .emit error => error.message
  | .transport error => "transport error: " ++ error.message
  | .store error => "store error: " ++ error.message
  | .handler text => "handler error: " ++ text
  | .unknownCallable name => s!"no callable named '{name}'"
  | .invalidDescriptor reason => "invalid API descriptor: " ++ reason

def emit? : EngineError → Option EmitError
  | .emit error => some error
  | _ => none

end EngineError

end Patchbay
