import Patchbay.Proofs.Record
import Patchbay.Proofs.Settings.OverDefaults

/-!
Settings that were written are the settings that are read. Each record is read back member by
member, and what is written for the settings fills all that the defaults would give.
-/

namespace Patchbay

open Record

/-! ### The records of the settings -/

theorem NamespaceConfig.roundTrips (c : NamespaceConfig) : RoundTrips c := by
  have hslots : slots? ["emitters", "listeners", "emitBacks"] (write c) =
      some [some (.arr c.emitters), some (.arr c.listeners), some (.arr c.emitBacks)] :=
    slots?_object rfl (by decide)
  simp only [RoundTrips, read?]
  rw [hslots, Option.bind_eq_bind, Option.bind_some, defaulted_of_slot (read?_items _) [] rfl,
    defaulted_of_slot (read?_items _) [] rfl, defaulted_of_slot (read?_items _) [] rfl]
  rfl

theorem StoreWiring.roundTrips (w : StoreWiring) : RoundTrips w := by
  have hslots : slots? ["actions", "mutations", "emitBacks"] (write w) =
      some [some (.arr w.actions), some (.arr w.mutations), some (.arr w.emitBacks)] :=
    slots?_object rfl (by decide)
  simp only [RoundTrips, read?]
  rw [hslots, Option.bind_eq_bind, Option.bind_some, defaulted_of_slot (read?_items _) [] rfl,
    defaulted_of_slot (read?_items _) [] rfl, defaulted_of_slot (read?_items _) [] rfl]
  rfl

theorem SocketEntry.roundTrips (e : SocketEntry) : RoundTrips e := by
  have hslots : slots? ["name", "url", "default", "namespaces", "vuex", "emitTimeout"] (write e) =
      some [some (write e.name), e.url.map write, some (write e.isDefault),
        some (write e.namespaces), some (write e.store), e.emitTimeout.map write] :=
    slots?_record rfl (by decide)
  have hnamespaces : RoundTrips e.namespaces := roundTrips_dict fun entry _ => entry.2.roundTrips
  simp only [RoundTrips, read?]
  rw [hslots, Option.bind_eq_bind, Option.bind_some,
    defaulted_of_slot (roundTrips_string e.name) "" rfl,
    optional_of_slot (a := e.url) (fun url _ => ⟨roundTrips_string url, nofun⟩) rfl,
    defaulted_of_slot (roundTrips_bool e.isDefault) false rfl,
    defaulted_of_slot hnamespaces .empty rfl,
    defaulted_of_slot e.store.roundTrips {} rfl,
    optional_of_slot (a := e.emitTimeout) (fun n _ => ⟨roundTrips_nat n, nofun⟩) rfl]
  rfl

/-! ### Over the defaults -/

/-- None of the variables that override a setting says anything. -/
structure Environment.Silent (env : Environment) : Prop where
  warnings : (env warningsKey).filter (!·.isEmpty) = none
  timeout : (env timeoutKey).filter (!·.isEmpty) = none
  origin : (env originKey).filter (!·.isEmpty) = none

namespace Settings

open Json (nonNull)

variable {env : Environment}

theorem given_of_written {α : Type} [Readable α] [Writable α] {a : α} (h : RoundTrips a)
    (default : α) (hnull : (write a).isNull = false) : given default (some (write a)) = some a := by
  have hsaid : nonNull (some (write a)) = some (write a) := by
    rw [nonNull, Option.filter_some, hnull]; rfl
  rw [given, hsaid]
  exact h

/-- Null is the default of the timeout. -/
theorem given_timeout (timeout : Option Nat) :
    given none (some (write timeout)) = some timeout := by
  cases timeout <;> rfl

theorem ofLayer?_of_slots {members : Fields Json}
    {sockets warnings ignored timeout origin : Option Json} (hmembers : members.Sorted)
    (hslots : slots? ["sockets", "warnings", "apiIgnoreEvts", "emitTimeoutMs", "origin"]
      (.obj members) =
      some [sockets, warnings, ignored, timeout, origin]) :
    ofLayer? (.obj members) = do
      return {
        sockets := ← given [] sockets
        warnings := ← given true warnings
        ignoredEvents := ← given [] ignored
        emitTimeout := ← given none timeout
        origin := ← given "http://localhost:3000" origin } := by
  simp only [slots?, List.map_cons, List.map_nil, Option.some.injEq, List.cons.injEq, and_true]
    at hslots
  obtain ⟨rfl, rfl, rfl, rfl, rfl⟩ := hslots
  exact ofLayer?_obj hmembers

/-- Laid over the defaults, settings that were written are read as they were. -/
theorem ofLayer?_write (s : Settings) : ofLayer? (write s) = some s := by
  have hslots :
      slots? ["sockets", "warnings", "apiIgnoreEvts", "emitTimeoutMs", "origin"] (write s) =
      some [some (write s.sockets), some (write s.warnings), some (write s.ignoredEvents),
        some (write s.emitTimeout), some (write s.origin)] :=
    slots?_object rfl (by decide)
  have hread := ofLayer?_of_slots (Fields.sorted_ofList _) hslots
  rw [given_of_written (roundTrips_list fun e _ => e.roundTrips) [] rfl,
    given_of_written (roundTrips_bool s.warnings) true rfl,
    given_of_written (roundTrips_list fun e _ => roundTrips_string e) [] rfl, given_timeout,
    given_of_written (roundTrips_string s.origin) "http://localhost:3000" rfl] at hread
  exact hread

/-! ### Loaded -/

theorem override_of_silent (h : env.Silent) (s : Settings) : env.override s = (s, []) := by
  simp only [Environment.override, Environment.value, h.warnings, h.timeout, h.origin]
  rfl

/-- Settings as they were before they were written. -/
structure ReadBack (s : Settings) (env : Environment) : Prop where
  layered : (read? ((write defaults).layer (write s))).map env.override = some (s, [])
  loaded : ∀ text, Json.parse text = .ok (write s) → load (.text text) env = .ok (s, [])

/-- Settings that were written are loaded as they were, if the environment is silent. -/
theorem written_read_back (s : Settings) (hsilent : env.Silent) : ReadBack s env where
  layered := by
    have hread : read? ((write defaults).layer (write s)) = some s := ofLayer?_write s
    rw [hread, Option.map_some, override_of_silent hsilent]
  loaded text htext := by
    rw [load, ofFile, htext]
    simp only [ofLayer?_write, Except.map, override_of_silent hsilent]

/-- One socket with a namespace and its store wiring, in whose lists stand directives and what is
none; something turned off, and no timeout. -/
def quiet : Settings where
  sockets := [{
    name := "desk"
    url := some "http://desk"
    namespaces :=
      Dict.empty.insert "chat" { emitters := [.str "say <-- draft"], listeners := [.int 7] }
    store := { mutations := [.str "moved --> at"], emitBacks := [.null] } }]
  warnings := false
  ignoredEvents := ["tick"]
  origin := ""

theorem write_quiet : write quiet = .obj
    [("apiIgnoreEvts", .arr [.str "tick"]), ("emitTimeoutMs", .null), ("origin", .str ""),
      ("sockets", .arr [.obj
        [("default", .bool false), ("name", .str "desk"),
          ("namespaces", .obj [("chat", .obj [("emitBacks", .arr []),
            ("emitters", .arr [.str "say <-- draft"]), ("listeners", .arr [.int 7])])]),
          ("url", .str "http://desk"),
          ("vuex", .obj [("actions", .arr []), ("emitBacks", .arr [.null]),
            ("mutations", .arr [.str "moved --> at"])])]]),
      ("warnings", .bool false)] := rfl

set_option maxRecDepth 2000 in
/-- Read from its text, while one variable is set but empty. -/
theorem written_read_back_quiet :
    ∃ text env, Json.parse text = .ok (write quiet) ∧ ReadBack quiet env ∧
      load (.text text) env = .ok (quiet, []) := by
  have htext : Json.parse
      ("\x7b\"apiIgnoreEvts\":[\"tick\"],\"emitTimeoutMs\":null,\"origin\":\"\"," ++
        "\"sockets\":[\x7b\"default\":false,\"name\":\"desk\"," ++
        "\"namespaces\":\x7b\"chat\":\x7b\"emitBacks\":[],\"emitters\":[\"say <-- draft\"]," ++
        "\"listeners\":[7]\x7d\x7d,\"url\":\"http://desk\"," ++
        "\"vuex\":\x7b\"actions\":[],\"emitBacks\":[null]," ++
        "\"mutations\":[\"moved --> at\"]\x7d\x7d]," ++
        "\"warnings\":false\x7d") = .ok (write quiet) := by
    rw [write_quiet]
    cbv
  have hsilent : Environment.Silent fun key =>
      if key = Environment.originKey then some "" else none :=
    ⟨rfl, rfl, rfl⟩
  have hback := written_read_back quiet hsilent
  exact ⟨_, _, htext, hback, hback.loaded _ htext⟩

end Settings

end Patchbay
