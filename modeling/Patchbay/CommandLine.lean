import Patchbay.LogFilter
import Patchbay.Report
import Patchbay.Settings.File

/-!
The command line: `check` compiles every directive, `resolve` shows how a connect
request resolves. Arguments are taken from left to right and the first one that does
not fit is a usage error; asking for help or the version ends the reading.
-/

namespace Patchbay

inductive Verb where
  | check
  | resolve
deriving DecidableEq, Repr

/-- What the arguments ask for, as far as they have been read. -/
structure Request where
  verb : Option Verb := none
  settings : Option String := none
  json : Bool := false
  name : Option String := none
  channel : Option String := none
  persist : Option String := none
  level : Level := .warn
  jsonLogs : Bool := false
  /-- Options given so far; a global one counts once before and once behind the verb. -/
  seen : List String := []
  /-- An option in front of the verb has a value that does not fit. -/
  misfit : Bool := false

/-- Why the reading of arguments ended without a request. -/
inductive Ending where
  | usage
  | show (text : String)

namespace CommandLine

def programName : String := "nspwire"
def version : String := "0.1.0"

private def levelLine : String :=
  "      --log-level <LOG_LEVEL>  Log level: error, warn, info, debug or trace [default: warn]"

private def logsLine : String := "      --json-logs              Emit logs as JSON lines"

private def settingsHelp : List String :=
  ["Arguments:", "  [SETTINGS]  Settings file. Defaults to ~/.nspwire/settings.json", "",
    "Options:"]

private def helpLine : String := "  -h, --help                   Print help"

def help : Option Verb → String
  | none => Report.unlines
    ["Namespace wiring configuration tool", "", "Usage: nspwire [OPTIONS] <COMMAND>", "",
      "Commands:", "  check    Compile every directive and report bindings and skips",
      "  resolve  Resolve a connect request",
      "  help     Print this message or the help of the given subcommand(s)", "", "Options:",
      levelLine, logsLine, helpLine, "  -V, --version                Print version"]
  | some .check => Report.unlines <|
    ["Compile every directive and report bindings and skips", "",
      "Usage: nspwire check [OPTIONS] [SETTINGS]", ""] ++ settingsHelp ++
    ["      --json                   Print the report as JSON", levelLine, logsLine, helpLine]
  | some .resolve => Report.unlines <|
    ["Resolve a connect request", "", "Usage: nspwire resolve [OPTIONS] [SETTINGS]", ""] ++
    settingsHelp ++
    [levelLine, "      --name <NAME>            Socket name; the default socket when omitted",
      "      --channel <CHANNEL>      Namespace to join", logsLine,
      "      --persist <PERSIST>      Persist the connection under this key", helpLine]

/-- What is shown about asking for help itself. -/
def helpOnHelp : String := Report.unlines
  ["Print this message or the help of the given subcommand(s)", "",
    "Usage: nspwire help [COMMAND]...", "", "Arguments:",
    "  [COMMAND]...  Print help for the subcommand(s)"]

def verb? : String → Option Verb
  | "check" => some .check
  | "resolve" => some .resolve
  | _ => none

/-- A flag stands alone, other options take a value. -/
inductive OptionKind where
  | flag
  | value
deriving DecidableEq

def optionKind (verb : Option Verb) (name : String) : Option OptionKind :=
  if name = "log-level" then some .value
  else if name = "json-logs" then some .flag
  else match verb with
    | some .check => if name = "json" then some .flag else none
    | some .resolve => if ["name", "channel", "persist"].contains name then some .value else none
    | none => none

private def mark (r : Request) (name : String) : Except Ending Request :=
  let key := (if r.verb.isSome then "verb " else "") ++ name
  if r.seen.contains key then .error .usage else .ok { r with seen := key :: r.seen }

def setFlag (r : Request) (name : String) : Except Ending Request := do
  let r ← mark r name
  if name = "json" then .ok { r with json := true } else .ok { r with jsonLogs := true }

def setValue (r : Request) (name value : String) : Except Ending Request := do
  let r ← mark r name
  if name = "name" then .ok { r with name := some value }
  else if name = "channel" then .ok { r with channel := some value }
  else if name = "persist" then .ok { r with persist := some value }
  else match Level.ofText? value with
    | some level => .ok { r with level }
    | none => .error .usage

/-- The verb, or a word that asks for help. -/
def isCommand (word : String) : Bool := word == "help" || (verb? word).isSome

/-- Takes a value that stands apart from its option. In front of the verb nobody looks at it
before the words behind the verb are read, so help that is asked for there is still given. -/
def takeValue (r : Request) (name value : String) (next : Option String) :
    Except Ending Request :=
  match setValue r name value with
  | .ok r => .ok r
  | .error ending =>
    if r.verb.isNone && next.any isCommand then .ok { r with misfit := true } else .error ending

/-- A word that is no option: the verb, then the settings file. -/
def takeWord (r : Request) (word : String) : Except Ending Request :=
  match r.verb with
  | none =>
    match verb? word with
    | some verb => .ok { r with verb := some verb }
    | none => .error .usage
  | some _ =>
    if r.settings.isSome || word.isEmpty then .error .usage
      else .ok { r with settings := some word }

/-- The words behind `help`. -/
def helpFor : List String → Ending
  | [] => .show (help none)
  | ["help"] => .show helpOnHelp
  | [word] => match verb? word with
    | some verb => .show (help (some verb))
    | none => .usage
  | _ => .usage

private def splitOption (arg : String) : String × Option String :=
  match Directive.cutFirst '=' (arg.toList.drop 2) with
  | some (name, value) => (String.ofList name, some (String.ofList value))
  | none => (String.ofList (arg.toList.drop 2), none)

private def startsOption (arg : String) : Bool := arg.startsWith "-" && arg != "-"

/-- The options of one dash: help, and the version in front of the verb. -/
private def shortOption (r : Request) (arg : String) : Ending :=
  if arg.startsWith "-h" then .show (help r.verb)
  else if arg.startsWith "-V" && r.verb.isNone then .show s!"{programName} {version}\n"
  else .usage

/-- An option of two dashes that is neither a flag nor takes a value. -/
private def longOption (r : Request) (name : String) : Ending :=
  if name = "help" then .show (help r.verb)
  else if name = "version" && r.verb.isNone then .show s!"{programName} {version}\n"
  else .usage

/-- Behind two dashes come only words, and no verb. -/
def readWords (r : Request) : List String → Except Ending Request
  | [] => .ok r
  | arg :: rest =>
    if arg = "--" then if r.verb.isNone then .error .usage else rest.foldlM takeWord r
    else if arg.startsWith "--" then
      let (name, value) := splitOption arg
      match optionKind r.verb name, value with
      | some .flag, none => do readWords (← setFlag r name) rest
      | some .value, some value => do readWords (← setValue r name value) rest
      | some .value, none =>
        match rest with
        | [] => .error .usage
        | value :: rest =>
          if startsOption value then .error .usage
          else do readWords (← takeValue r name value rest.head?) rest
      | some .flag, some _ => .error .usage
      | none, none => .error (longOption r name)
      | none, some _ => .error .usage
    else if startsOption arg then .error (shortOption r arg)
    else if arg = "help" && r.verb.isNone then .error (helpFor rest)
    else do readWords (← takeWord r arg) rest

def readArgs (args : List String) : Except Ending Request := do
  let r ← readWords {} args
  if r.misfit then .error .usage else .ok r

/-- What a run of the program leaves: its exit code, its output and the error it reports. -/
structure Result where
  exit : Nat
  output : String
  error : Option String := none

/-- The settings file the request names, or the one in the home directory. -/
def settingsPath (r : Request) (home : Option String) : String :=
  r.settings.getD (Settings.path home)

def runRequest (r : Request) (home : Option String) (files : String → FileContent)
    (env : Environment) : Result :=
  let path := settingsPath r home
  match Settings.load (files path) env with
  | .error _ => ⟨1, "", some s!"failed to load settings: {path}"⟩
  | .ok (s, _) =>
    match r.verb with
    | some .resolve =>
      let persist := match r.persist with
        | some key => Persist.key key
        | none => .flag false
      let opts : ConnectOptions := { name := r.name, channel := r.channel, persist }
      match (Resolved.ofRequest s [] opts).1 with
      | .ok resolved => ⟨0, Report.resolved resolved, none⟩
      | .error e => ⟨1, "", some e.message⟩
    | _ =>
      if s.sockets.isEmpty then ⟨1, "", some "no sockets configured"⟩
      else ⟨0, Report.check s r.json, none⟩

/-- Without a verb there is nothing to run. -/
def run (args : List String) (home : Option String) (files : String → FileContent)
    (env : Environment) : Result :=
  match readArgs args with
  | .error .usage => ⟨2, "", none⟩
  | .error (.show text) => ⟨0, text, none⟩
  | .ok r => if r.verb.isNone then ⟨2, "", none⟩ else runRequest r home files env

end CommandLine

end Patchbay
