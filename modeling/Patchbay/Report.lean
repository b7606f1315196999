import Patchbay.Directive
import Patchbay.Settings.Resolve

/-! What the command line shows: how the directives of every socket compile, and how a
connect request resolves. -/

namespace Patchbay

/-- The outcome of compiling one list of directives. -/
structure DirectiveGroup where
  title : String
  bindings : List Binding
  skipped : List Directive.Skipped

structure SocketReport where
  socket : String
  groups : List DirectiveGroup

namespace SocketReport

/-- The directive lists of a socket with their titles and roles. -/
def lists (e : SocketEntry) : List (String × Role × List Json) :=
  e.namespaces.entries.flatMap (fun (name, c) =>
    [(name ++ " emitters", Role.emitter, c.emitters),
      (name ++ " listeners", .listener, c.listeners),
      (name ++ " emitBacks", .emitBack, c.emitBacks)]) ++
  [("vuex actions", .listener, e.store.actions), ("vuex mutations", .listener, e.store.mutations),
    ("vuex emitBacks", .emitBack, e.store.emitBacks)]

/-- Lists without entries are left out. -/
def ofEntry (e : SocketEntry) : SocketReport where
  socket := e.label
  groups := ((lists e).filter fun (_, _, raws) => !raws.isEmpty).map fun (title, role, raws) =>
    let (bindings, skipped) := Directive.compileAll role raws
    ⟨title, bindings, skipped⟩

def skipped (r : SocketReport) : List Directive.Skipped := r.groups.flatMap (·.skipped)

private def groupJson (g : DirectiveGroup) : Json := .object
  [("group", .str g.title), ("bindings", write g.bindings),
    ("skipped", .arr (g.skipped.map fun s =>
      .object [("raw", s.raw), ("reason", .str s.reason.message)]))]

def toJson (r : SocketReport) : Json := .object
  [("socket", .str r.socket), ("groups", .arr (r.groups.map groupJson))]

private def groupLines (g : DirectiveGroup) : List String :=
  ("  " ++ g.title) :: g.bindings.map (fun b => "    ok    " ++ (write b).compact) ++
    g.skipped.map fun s => "    skip  " ++ s.raw.compact ++ " (" ++ s.reason.message ++ ")"

def lines (r : SocketReport) : List String := r.socket :: r.groups.flatMap groupLines

end SocketReport

namespace Report

def unlines (lines : List String) : String := lines.foldl (fun text line => text ++ line ++ "\n") ""

/-- The report on all sockets, as JSON or as text. -/
def check (s : Settings) (asJson : Bool) : String :=
  let reports := s.sockets.map SocketReport.ofEntry
  if asJson then (Json.arr (reports.map SocketReport.toJson)).pretty ++ "\n"
  else
    let total := (reports.flatMap SocketReport.skipped).length
    unlines (reports.flatMap SocketReport.lines ++ [s!"{total} directive(s) skipped"])

def resolved (r : Resolved) : String :=
  (Json.object
    [("label", .str r.label), ("url", .str r.url), ("namespace", .str r.namespaceName),
      ("scope", .str r.scope), ("persistKey", write r.persistKey), ("teardown", .bool r.teardown),
      ("statusProp", .str r.statusKey), ("emitTimeoutMs", write r.emitTimeout),
      ("namespaceCfg", write r.namespaceConfig), ("vuex", write r.store)]).pretty ++ "\n"

end Report

end Patchbay
