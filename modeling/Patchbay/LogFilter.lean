/-! Log levels: a default level, overrides by module, and the filter text for both. -/

namespace Patchbay

inductive Level where
  | error
  | warn
  | info
  | debug
  | trace
deriving DecidableEq, Repr

namespace Level

def all : List Level := [.error, .warn, .info, .debug, .trace]

def name : Level → String
  | .error => "error"
  | .warn => "warn"
  | .info => "info"
  | .debug => "debug"
  | .trace => "trace"

def upperName (level : Level) : String := level.name.toUpper

/-- A level's name in any spelling, or its number from one for errors to five. -/
def ofText? (text : String) : Option Level :=
  let number := match text.toList with
    | '+' :: rest => rest
    | cs => cs
  match number.dropWhile (· == '0') with
  | ['1'] => some .error
  | ['2'] => some .warn
  | ['3'] => some .info
  | ['4'] => some .debug
  | ['5'] => some .trace
  | _ => all.find? (·.name == text.toLower)

end Level

structure LogFilter where
  level : Level := .info
  /-- In the order in which the modules were first named. -/
  modules : List (String × Level) := []
  json : Bool := true

namespace LogFilter

def set (modules : List (String × Level)) (name : String) (level : Level) :
    List (String × Level) :=
  match modules with
  | [] => [(name, level)]
  | (m, l) :: rest => if m = name then (m, level) :: rest else (m, l) :: set rest name level

def directives (f : LogFilter) : String :=
  f.modules.foldl (fun text (m, l) => text ++ s!",{m}={l.name}") f.level.name

end LogFilter

end Patchbay
