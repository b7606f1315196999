import Patchbay.Json.Parser
import Patchbay.Settings.Environment
import Patchbay.Settings.Layer

/-! Loading settings: the file is a layer over the defaults, and the environment comes
last. A missing file leaves the defaults. -/

namespace Patchbay

/-- What stands at the path of the settings file. -/
inductive FileContent where
  | missing
  /-- Not a file, or no text. -/
  | unreadable
  | text (content : String)

inductive LoadError where
  | unreadable
  | json (fault : Json.Fault)
  /-- The document has the wrong shape. -/
  | shape
deriving DecidableEq

namespace Settings

def defaults : Settings := {}

def path (home : Option String) : String :=
  let home := home.getD "/tmp"
  let base := if home.isEmpty || home.endsWith "/" then home else home ++ "/"
  base ++ ".nspwire/settings.json"

/-- Reads a document as a layer over the defaults. -/
def ofLayer? (layer : Json) : Option Settings := read? ((write defaults).layer layer)

def ofFile (content : FileContent) : Except LoadError Settings :=
  match content with
  | .missing => .ok defaults
  | .unreadable => .error .unreadable
  | .text text =>
    match Json.parse text with
    | .error fault => .error (.json fault)
    | .ok layer =>
      match ofLayer? layer with
      | none => .error .shape
      | some s => .ok s

def load (content : FileContent) (env : Environment) :
    Except LoadError (Settings × List Warning) :=
  (ofFile content).map env.override

end Settings

end Patchbay
