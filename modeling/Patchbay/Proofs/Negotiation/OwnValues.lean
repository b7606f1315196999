import Patchbay.Proofs.Negotiation.Callables
import Patchbay.Proofs.State.Defaults

/-!
What negotiation leaves of the component's own values. It writes nothing into the component's data
but defaults: slots for the peer's methods and events, and the fields of the events that the
component publishes. So it replaces no value at a slot; but the name that a descriptor gives a slot
may lead on from a value that is no object, and then the value is lost.
-/

namespace Patchbay

/-! ### Fields of published events -/

/-- The places of an event's default fields. -/
def Tree.seeds (event : String) (defaults : Fields Json) : List (String × Json) :=
  defaults.map fun entry => (event ++ "." ++ entry.1, entry.2)

namespace Descriptor

/-- The defaults that the descriptor declares for an event. -/
def seeds (d : Descriptor) (event : String) : List (String × Json) :=
  Tree.seeds event ((d.eventDefaults event).getD [])

/-- Where defaults are written below the values of events that lead to this place. -/
def seedsToward (d : Descriptor) (place : Path) : List String :=
  (d.events.keys.filter fun event => Path.ofString event <+: place).flatMap fun event =>
    (d.seeds event).map (·.1)

end Descriptor

namespace Tree

variable {place : Path} {v : Json} {t : Tree} {slots : List String} {d : Descriptor}

/-- The gaps in the value of an event are filled, if there is a value. -/
def seed (t : Tree) (d : Descriptor) (event : String) : Tree :=
  if t.contains event then t.fill (d.seeds event) else t

theorem ofString_seed (event field : String) :
    Path.ofString (event ++ "." ++ field) = Path.ofString event ++ Path.ofString field :=
  Path.ofString_append_separator event field (c := '.') rfl

/-- What has no members is left alone by events that do not lead to it: nothing of theirs can be
below. -/
theorem Spares.seed (h : Spares place v slots t) (hleaf : v.members? = none) (d : Descriptor)
    (event : String) :
    Spares place v
      (slots ++ if Path.ofString event <+: place then (d.seeds event).map (·.1) else [])
      (t.seed d event) := by
  by_cases hleads : Path.ofString event <+: place
  · have hthere : t.contains event = true := by
      obtain ⟨rest, rfl⟩ := hleads
      have hheld := h.held
      rw [Json.at?_append] at hheld
      exact Option.isSome_of_isSome_bind hheld
    rw [if_pos hleads, Tree.seed, if_pos hthere]
    exact h.fill (d.seeds event)
  · rw [if_neg hleads, List.append_nil, Tree.seed]
    split
    · rename_i hthere
      refine (h.fill (d.seeds event)).of_append fun hslots slot hslot hbelow => ?_
      obtain ⟨seed, hseed, rfl⟩ := List.mem_map.1 hslot
      obtain ⟨field, -, rfl⟩ := List.mem_map.1 hseed
      -- then the event itself lies below the value
      obtain ⟨key, rest, hpath⟩ := hbelow
      rw [ofString_seed] at hpath
      have hdeeper : place.Below (.ofString event) := by
        rcases List.append_eq_append_iff.1 hpath with ⟨more, hplace, -⟩ | ⟨more, hevent, -⟩
        · exact absurd ⟨more, hplace.symm⟩ hleads
        · cases more with
          | nil => exact absurd ⟨[], by rw [hevent, List.append_nil, List.append_nil]⟩ hleads
          | cons first others => exact ⟨first, others, hevent⟩
      obtain ⟨members, hmembers⟩ := Json.exists_members_of_below hdeeper hthere
      rw [h.kept hslots] at hmembers
      obtain rfl := Option.some.inj hmembers
      cases hleaf
    · exact h

theorem Spares.seeds (h : Spares place v slots t) (hleaf : v.members? = none) (d : Descriptor)
    (events : List String) :
    Spares place v (slots ++ (events.filter fun event => Path.ofString event <+: place).flatMap
      fun event => (d.seeds event).map (·.1)) (events.foldl (fun t event => t.seed d event) t) := by
  induction events generalizing slots t with
  | nil =>
    rw [List.filter_nil, List.flatMap_nil, List.append_nil]
    exact h
  | cons event rest ih =>
    have hrest := ih (h.seed hleaf d event)
    rw [List.foldl_cons, List.filter_cons]
    split <;> rename_i hleads <;> simp only [decide_eq_true_eq] at hleads
    · rwa [if_pos hleads, List.append_assoc] at hrest
    · rwa [if_neg hleads, List.append_nil] at hrest

end Tree

namespace World

variable {p : Pass} {w : World} {ignored : List String} {d : Descriptor} {place : Path} {v : Json}

/-! ### What is written -/

theorem tree_setDefaults (w : World) (owner : ComponentId) (defaults : List (String × Json)) :
    (defaults.foldl (fun w entry => w.setDefault (.component owner) entry.1 entry.2) w).tree
      (.component owner) = (w.tree (.component owner)).fill defaults := by
  induction defaults generalizing w with
  | nil => rfl
  | cons entry rest ih =>
    rw [List.foldl_cons, ih, tree_setDefault, if_pos rfl]
    rfl

/-- The slots of a method. -/
def methodSlots (method : String × MethodShape) : List (String × Json) :=
  [(ServerApi.slot [method.1, "msg"], method.2.msg.getD .emptyObject),
    (ServerApi.slot [method.1, "resp"], method.2.emptyResponse)]

/-- The slots of an event, each with what it has before the first payload. -/
def filledSlots (event : String × EventShape) : List (String × Json) :=
  (eventSlots event.1 event.2).map fun path => (path, event.2.data.getD .emptyObject)

/-- The slots of an API, as they are filled when it is negotiated. -/
def apiSlots (w : World) (p : Pass) (ignored : List String) (d : Descriptor) :
    List (String × Json) :=
  d.methods.entries.flatMap methodSlots ++
    (w.unbound p ignored d.events.entries).flatMap filledSlots

theorem tree_initMethods (w : World) (p : Pass) (methods : Fields MethodShape) :
    (methods.foldl (fun w entry => w.initMethod p entry.1 entry.2) w).tree (.component p.owner) =
      (w.tree (.component p.owner)).fill (methods.flatMap methodSlots) := by
  induction methods generalizing w with
  | nil => rfl
  | cons method rest ih =>
    have hfirst : (w.initMethod p method.1 method.2).tree (.component p.owner) =
        (w.tree (.component p.owner)).fill (methodSlots method) :=
      tree_setDefaults w p.owner (methodSlots method)
    rw [List.foldl_cons, ih, hfirst, List.flatMap_cons, Tree.fill_append]

theorem tree_attachEvent (w : World) (p : Pass) (event : String × EventShape) :
    (w.attachEvent p event.1 event.2).1.tree (.component p.owner) =
      (w.tree (.component p.owner)).fill (filledSlots event) := by
  let filled := (eventSlots event.1 event.2).foldl (fun w path =>
    w.setDefault (.component p.owner) path (event.2.data.getD .emptyObject)) w
  have hfilled : filled.tree (.component p.owner) =
      (w.tree (.component p.owner)).fill (filledSlots event) := by
    rw [← tree_setDefaults, filledSlots, List.foldl_map]
  simp only [attachEvent, listen_eq]
  exact (tree_warnIf filled _ _ _).trans hfilled

theorem tree_bindEvent (p : Pass) (ignored : List String) (acc : World × Wired)
    (event : String × EventShape) :
    (bindEvent p ignored acc event).1.tree (.component p.owner) =
      (acc.1.tree (.component p.owner)).fill
        ((acc.1.unbound p ignored [event]).flatMap filledSlots) := by
  obtain ⟨hnone, heq⟩ | ⟨hone, claimed, hclaim, heq⟩ := bindEvent_cases p ignored acc event
  · rw [hnone, heq]
    rfl
  · rw [hone, heq, List.flatMap_singleton, claim_eq hclaim]
    exact tree_attachEvent _ p event

theorem tree_bindEvents (ignored : List String) {events : Fields EventShape}
    (hnames : (events.map (·.1)).Nodup) (acc : World × Wired)
    (hopened : acc.1.Opened p.channel.connection) :
    (events.foldl (bindEvent p ignored) acc).1.tree (.component p.owner) =
      (acc.1.tree (.component p.owner)).fill
        ((acc.1.unbound p ignored events).flatMap filledSlots) := by
  induction events generalizing acc with
  | nil => rfl
  | cons event rest ih =>
    obtain ⟨hfirst, hrest⟩ := List.nodup_cons.1 hnames
    have hleft : (bindEvent p ignored acc event).1.unbound p ignored rest =
        acc.1.unbound p ignored rest := by
      refine (bindEvent_gathers ignored acc hopened event).1.unbound_eq ?_
      intro bound hbound other hother heq
      obtain rfl := List.mem_singleton.1 (List.mem_filter.1 hbound).1
      exact hfirst (List.mem_map.2 ⟨other, hother, heq⟩)
    rw [List.foldl_cons, ih hrest _ (hopened.makes (bindEvent_makes p ignored acc event)), hleft,
      tree_bindEvent, unbound_cons acc.1 p ignored event rest, List.flatMap_append,
        Tree.fill_append]

/-- The negotiation of the peer's API fills slots, and does nothing else to the component's data. -/
theorem tree_bindServerApi (hopened : w.Opened p.channel.connection) (ignored : List String)
    (d : Descriptor) (wired : Wired) :
    (w.bindServerApi p ignored d wired).1.tree (.component p.owner) =
      (w.tree (.component p.owner)).fill (w.apiSlots p ignored d) := by
  let filled := d.methods.entries.foldl (fun w entry => w.initMethod p entry.1 entry.2) w
  have hquiet : Makes Change.Quiet w filled := initMethods_quiet w p d
  have hunbound :
      filled.unbound p ignored d.events.entries = w.unbound p ignored d.events.entries := by
    simp only [unbound, hquiet.registry_of_quiet]
  rw [apiSlots, Tree.fill_append, ← tree_initMethods, ← hunbound]
  exact tree_bindEvents ignored (nodup_names d.events) (filled, wired) (hopened.makes hquiet)

theorem tree_bindHelper (p : Pass) (d : Descriptor) (w : World) (event : String) :
    (bindHelper p d w event).tree (.component p.owner) =
      (w.tree (.component p.owner)).seed d event := by
  cases hdefaults : d.eventDefaults event with
  | none =>
    simp only [bindHelper, Tree.seed, Descriptor.seeds, hdefaults]
    exact (ite_self _).symm
  | some defaults =>
    have hseeded : (w.seed p.owner event defaults).tree (.component p.owner) =
        (w.tree (.component p.owner)).seed d event := by
      simp only [World.seed, Tree.seed, Descriptor.seeds, hdefaults, Option.getD_some]
      split
      · rw [← tree_setDefaults, Tree.seeds, List.foldl_map]
      · rfl
    rw [bindHelper_eq hdefaults]
    split
    · exact hseeded
    · rw [tree_insertCallable, hseeded]

/-- The publication of the own API fills the gaps in the values of its events, and does nothing else
to the component's data. -/
theorem tree_bindClientApi (w : World) (p : Pass) (d : Descriptor) (published : String)
    (wired : Wired) :
    (w.bindClientApi p d published wired).1.tree (.component p.owner) =
      d.events.keys.foldl (fun t event => t.seed d event) (w.tree (.component p.owner)) := by
  have hhelpers (events : List String) (w : World) :
      (events.foldl (bindHelper p d) w).tree (.component p.owner) =
        events.foldl (fun t event => t.seed d event) (w.tree (.component p.owner)) := by
    induction events generalizing w with
    | nil => rfl
    | cons event rest ih => rw [List.foldl_cons, ih, tree_bindHelper, List.foldl_cons]
  have htree {w w' : World} (h : w'.components = w.components) :
      w'.tree (.component p.owner) = w.tree (.component p.owner) := by
    simp only [tree, component, h]
  cases hempty : d.isEmpty with
  | true =>
    obtain ⟨hevents, -⟩ := Bool.and_eq_true_iff.1 hempty
    have hkeys : d.events.keys = [] := by
      rw [Dict.keys, List.isEmpty_iff.1 hevents]
      rfl
    rw [bindClientApi_of_isEmpty hempty, hkeys]
    rfl
  | false =>
    let bound := d.methods.keys.foldl (bindMethod p) (w, wired)
    let helped := d.events.keys.foldl (bindHelper p d) bound.1
    have hcomponents : (w.bindClientApi p d published wired).1.components = helped.components := by
      rw [bindClientApi_eq hempty]
      exact components_publish helped p d published bound.2
    rw [htree hcomponents, hhelpers, htree (components_bindMethods p d.methods.keys (w, wired))]

/-! ### What is left -/

/-- Negotiation keeps the component's own values, unless a slot leads on from one. What stands in
the component's data and has no members is unchanged by the negotiation of the peer's API if none of
its slots leads on from there, and by the publication of the own API if no field of an event does;
in either case the first that does leaves an object in the value's place. -/
theorem negotiation_keeps_own_values (hopened : w.Opened p.channel.connection)
    (hleaf : v.members? = none) (hheld : (w.tree (.component p.owner)).root.at? place = some v)
    (ignored : List String) (d : Descriptor) (published : String) (wired : Wired) :
    Tree.Spares place v ((w.apiSlots p ignored d).map (·.1))
        ((w.bindServerApi p ignored d wired).1.tree (.component p.owner)) ∧
      Tree.Spares place v (d.seedsToward place)
        ((w.bindClientApi p d published wired).1.tree (.component p.owner)) := by
  have huntouched := Tree.Spares.untouched hheld
  refine ⟨?_, ?_⟩
  · rw [tree_bindServerApi hopened]
    simpa using huntouched.fill (w.apiSlots p ignored d)
  · rw [tree_bindClientApi]
    simpa [Descriptor.seedsToward] using huntouched.seeds hleaf d d.events.keys

/-- A component that has values of its own where an API will have names. -/
def stocked : World :=
  { kiosk with
    components := [("a", { data := .ofJson (.obj
      [("ioData", .obj [("list", .str "old")]), ("ping", .int 5)]) })] }

/-- The peer's method is called like one value, and the own event like the other. -/
def stockedApi : Descriptor where
  label := none
  version := .null
  events := .ofList [("ping", ⟨some (.obj [("x", .int 1)]), []⟩)]
  methods := .ofList [("list", ⟨none, none⟩)]

/-- The event's value is left alone as long as it is the peer's event, which has its own slot. -/
theorem value_under_published_event : stocked.Opened 1 ∧
    (stocked.tree (.component ⟨"a"⟩)).root.at? ["ping"] = some (.int 5) ∧
    ((stocked.bindServerApi kioskRequest.pass [] stockedApi {}).1.tree
      (.component ⟨"a"⟩)).root.at? ["ping"] =
      some (.int 5) ∧
    ∃ members, ((stocked.bindClientApi kioskRequest.pass stockedApi "getClientAPI" {}).1.tree
      (.component ⟨"a"⟩)).root.at? ["ping"] = some (.obj members) := by
  have hopened : stocked.Opened 1 := ⟨_, rfl⟩
  have hheld : (stocked.tree (.component ⟨"a"⟩)).root.at? ["ping"] = some (.int 5) := rfl
  obtain ⟨hserver, hclient⟩ :=
    negotiation_keeps_own_values (p := kioskRequest.pass) hopened rfl hheld []
    stockedApi "getClientAPI" {}
  refine ⟨hopened, hheld, hserver.kept ?_,
    hclient.replaced "ping.x" (by decide) ⟨"x", [], by decide⟩⟩
  rintro slot hslot ⟨key, rest, hpath⟩
  have hroot : (Path.ofString slot).head? = some "ioData" :=
    (by decide : ∀ slot ∈ (stocked.apiSlots kioskRequest.pass [] stockedApi).map (·.1),
      (Path.ofString slot).head? = some "ioData") slot hslot
  rw [hpath] at hroot
  exact absurd (Option.some.inj hroot) (by decide)

theorem own_values_replaced :
    (stocked.tree (.component ⟨"a"⟩)).root.at? ["ioData", "list"] = some (.str "old") ∧
    ((stocked.bindServerApi kioskRequest.pass [] stockedApi {}).1.tree (.component ⟨"a"⟩)).root.at?
      ["ioData", "list"] = some (.obj [("msg", .obj []), ("resp", .obj [])]) ∧
    (stocked.tree (.component ⟨"a"⟩)).root.at? ["ping"] = some (.int 5) ∧
    ((stocked.bindClientApi kioskRequest.pass stockedApi "getClientAPI" {}).1.tree
      (.component ⟨"a"⟩)).root.at? ["ping"] = some (.obj [("x", .int 1)]) := ⟨rfl, rfl, rfl, rfl⟩

end World

end Patchbay
