import Patchbay.Proofs.Negotiation.Claimed

/-!
What a component has for its application to call. The table is kept by name and outlives
connections. An emitter takes the place of what has its name; the helper of an event leaves what has
its name where it is, so there it may belong to an earlier connection.
-/

namespace Patchbay

namespace World

variable {p : Pass} {place : Place} {w w' w'' : World} {d : Descriptor} {event name : String}

/-- What the component has under that name. -/
def callable? (w : World) (owner : ComponentId) (name : String) : Option Callable :=
  Fields.get? name (w.component owner).callables

/-- To call what a component has is to start a task of the call's own. -/
theorem perform_call {owner : ComponentId} {callable : Callable}
    (h : w.callable? owner name = some callable) (ticket : Nat) (argument : Option Json) :
    w.perform ticket (.call owner name argument) =
      (w.spawn (.call ticket owner callable argument), .later) := by
  have hfound : Fields.get? name (w.component owner).callables = some callable := h
  simp only [perform, hfound]

/-! ### Who leaves all components alone -/

theorem components_warnIf (w : World) (on : Bool) (warning : Warning) :
    (w.warnIf on warning).components = w.components := by
  obtain ⟨trace, heq⟩ := warnIf_trace w on warning
  rw [heq]

theorem components_claim {scope : Scope} {b : Binding} {granted : Bool}
    (h : w.claim p scope b = (w', granted)) : w'.components = w.components := by
  rw [claim_eq h]
  rfl

theorem components_listen (w : World) (serial : Nat) (event : String) (action : Reaction) :
    (w.listen serial event action).1.components = w.components := by
  rw [listen_eq]
  rfl

theorem components_bindMethod (p : Pass) (acc : World × Wired) (name : String) :
    (bindMethod p acc name).1.components = acc.1.components := by
  unfold bindMethod
  split
  · exact components_warnIf ..
  · dsimp only
    split
    · exact components_claim ‹_›
    · rename_i hclaim
      exact (components_listen ..).trans (components_claim hclaim)

theorem components_bindMethods (p : Pass) (names : List String) (acc : World × Wired) :
    (names.foldl (bindMethod p) acc).1.components = acc.1.components := by
  induction names generalizing acc with
  | nil => rfl
  | cons name rest ih => exact (ih _).trans (components_bindMethod p acc name)

theorem components_publish (w : World) (p : Pass) (d : Descriptor) (event : String)
    (wired : Wired) :
    (w.publish p d event wired).1.components = w.components := by
  simp only [publish]
  split
  · exact components_claim ‹_›
  · rename_i hclaim
    exact (components_listen ..).trans (components_claim hclaim)

/-! ### Who leaves callables alone -/

/-- Every component has the same callables. -/
structure SameCallables (w w' : World) : Prop where
  callables : ∀ owner, (w'.component owner).callables = (w.component owner).callables

namespace SameCallables

theorem callable?_eq (h : SameCallables w w') (owner : ComponentId) (name : String) :
    w'.callable? owner name = w.callable? owner name := by
  simp only [callable?, h.callables]

theorem refl (w : World) : SameCallables w w := ⟨fun _ => rfl⟩

theorem trans (h : SameCallables w w') (h' : SameCallables w' w'') : SameCallables w w'' :=
  ⟨fun owner => (h'.callables owner).trans (h.callables owner)⟩

theorem of_components (h : w'.components = w.components) : SameCallables w w' :=
  ⟨fun owner => by simp only [component, h]⟩

theorem foldl {α : Type} {f : World → α → World} (hf : ∀ w a, SameCallables w (f w a))
    (items : List α) (w : World) : SameCallables w (items.foldl f w) := by
  induction items generalizing w with
  | nil => exact .refl w
  | cons first rest ih => exact (hf w first).trans (ih (f w first))

theorem foldl_fst {α β : Type} {f : World × β → α → World × β}
    (hf : ∀ acc a, SameCallables acc.1 (f acc a).1) (items : List α) (acc : World × β) :
    SameCallables acc.1 (items.foldl f acc).1 := by
  induction items generalizing acc with
  | nil => exact .refl acc.1
  | cons first rest ih => exact (hf acc first).trans (ih (f acc first))

end SameCallables

theorem sameCallables_writeTree (w : World) (place : Place) (t : Tree) :
    SameCallables w (w.writeTree place t) :=
  ⟨fun owner => by
    rw [(writeTree_woken w place t).component owner]
    exact (component_setTree w place t owner).1⟩

theorem sameCallables_setDefault (w : World) (place : Place) (path : String) (v : Json) :
    SameCallables w (w.setDefault place path v) := sameCallables_writeTree ..

theorem sameCallables_listen (w : World) (serial : Nat) (event : String) (action : Reaction) :
    SameCallables w (w.listen serial event action).1 := .of_components (components_listen ..)

theorem sameCallables_wireStatus (w : World) (p : Pass) (key url : String) :
    SameCallables w (w.wireStatus p key url).1 := by
  unfold wireStatus
  split
  · exact .refl w
  · refine (sameCallables_writeTree w (.component p.owner) _).trans
      (.foldl_fst ?_ statusEvents (_, _))
    exact fun acc _ => sameCallables_listen acc.1 ..

theorem sameCallables_attachEvent (w : World) (p : Pass) (name : String) (shape : EventShape) :
    SameCallables w (w.attachEvent p name shape).1 := by
  unfold attachEvent
  exact ((SameCallables.foldl (fun w path => sameCallables_setDefault w _ path _) _ w).trans
    (.of_components (components_warnIf ..))).trans (sameCallables_listen ..)

theorem sameCallables_bindEvent (p : Pass) (ignored : List String) (acc : World × Wired)
    (entry : String × EventShape) : SameCallables acc.1 (bindEvent p ignored acc entry).1 := by
  unfold bindEvent
  split
  · exact .refl _
  · dsimp only
    split
    · exact .of_components (components_claim ‹_›)
    · rename_i hclaim
      exact (SameCallables.of_components (components_claim hclaim)).trans
        (sameCallables_attachEvent ..)

theorem sameCallables_bindServerApi (w : World) (p : Pass) (ignored : List String) (d : Descriptor)
    (wired : Wired) : SameCallables w (w.bindServerApi p ignored d wired).1 := by
  have hmethods := SameCallables.foldl (f := fun w (entry : String × MethodShape) =>
    w.initMethod p entry.1 entry.2) (fun w entry => (sameCallables_setDefault w _ _ _).trans
      (sameCallables_setDefault _ _ _ _)) d.methods.entries w
  exact (hmethods.trans
    (.foldl_fst (sameCallables_bindEvent p ignored) d.events.entries (_, wired))).trans
    (.of_components rfl)

/-! ### Requests for a connection -/

theorem components_openFor (w : World) (r : Resolved) :
    (w.openFor r).2.components = w.components := by
  unfold openFor openConnection
  cases r.url.isEmpty <;> cases r.persistKey <;> rfl

theorem components_acquire (w : World) (r : Resolved) :
    (w.acquire r).2.components = w.components := by
  unfold acquire
  split
  · exact components_openFor w r
  · split
    · rfl
    · exact components_openFor ..

/-! ### Emitters -/

/-- What the component has is what it had, or an emitter of the pass that one of these entries
describes. -/
def EmittersOnly (p : Pass) (raws : List Json) (w w' : World) : Prop :=
  ∀ name, w'.callable? p.owner name = w.callable? p.owner name ∨
    ∃ raw ∈ raws, ∃ b hooks, Directive.compile raw .emitter = .ok b ∧ b.action = name ∧
      w'.callable? p.owner name = some (.emitter p.channel b hooks)

namespace EmittersOnly

variable {raws : List Json}

theorem of_same (h : SameCallables w w') : EmittersOnly p raws w w' :=
  fun name => .inl (h.callable?_eq p.owner name)

theorem trans (h : EmittersOnly p raws w w') (h' : EmittersOnly p raws w' w'') :
    EmittersOnly p raws w w'' := by
  intro name
  rcases h' name with hsame | hemitter
  · rw [hsame]
    exact h name
  · exact .inr hemitter

theorem of_adds {bs : List Binding} (h : Adds p place bs w w')
    (hraws : ∀ b ∈ emittersOf bs, ∃ raw ∈ raws, Directive.compile raw .emitter = .ok b) :
    EmittersOnly p raws w w' := by
  intro name
  simp only [callable?, h.callables]
  generalize (w.component p.owner).callables = table
  generalize emittersOf bs = emitters at hraws ⊢
  induction emitters generalizing table with
  | nil => exact .inl rfl
  | cons b rest ih =>
    obtain ⟨⟨raw, hraw, hcompile⟩, hrest⟩ := List.forall_mem_cons.1 hraws
    rw [List.foldl_cons]
    rcases ih (Fields.insert b.action (w.callableOf p b) table) hrest with hsame | hemitter
    · rw [hsame]
      by_cases hname : name = b.action
      · subst hname
        exact .inr ⟨raw, hraw, b, _, hcompile, rfl, Fields.get?_insert_self ..⟩
      · exact .inl (Fields.get?_insert_of_ne hname ..)
    · exact .inr hemitter

end EmittersOnly

/-- An emitter that a pass attaches is described by an entry of an emitter lane. -/
theorem exists_raw_of_mem_emittersOf {lanes : List Lane} {reg : Registry} {b : Binding}
    (hb : b ∈ emittersOf (lanes.flatMap (·.attached reg))) :
    ∃ l ∈ lanes, l.role = .emitter ∧ ∃ raw ∈ l.raws, Directive.compile raw .emitter = .ok b := by
  obtain ⟨hmem, hrole⟩ := List.mem_filter.1 hb
  obtain ⟨l, hl, hattached⟩ := List.mem_flatMap.1 hmem
  have hcompiled := (List.mem_filter.1 ((Lane.firsts_sublist ..).subset hattached)).1
  have hemitter : l.role = .emitter :=
    (l.role_of_mem_compiled hcompiled).symm.trans (of_decide_eq_true hrole)
  obtain ⟨raw, hraw, hcompile⟩ := List.mem_filterMap.1 hcompiled
  refine ⟨l, hl, hemitter, raw, hraw, ?_⟩
  rw [← hemitter]
  cases hread : Directive.compile raw l.role with
  | ok found =>
    rw [hread] at hcompile
    rw [Option.some.inj hcompile]
  | error reason =>
    rw [hread] at hcompile
    cases hcompile

theorem emittersOnly_wireNamespace {config : NamespaceConfig} {wired : Wired}
    (hopened : w.Opened p.channel.connection) (h : w.wireNamespace p config = (w', .ok wired)) :
    EmittersOnly p config.emitters w w' := by
  have hexactly := wireNamespace_exactly hopened h
  refine .of_adds hexactly.adds fun b hb => ?_
  rw [hexactly.bindings] at hb
  obtain ⟨l, hl, hrole, hraw⟩ := exists_raw_of_mem_emittersOf hb
  simp only [namespaceLanes, List.mem_cons, List.not_mem_nil, or_false] at hl
  rcases hl with rfl | rfl | rfl
  · exact hraw
  · cases hrole
  · cases hrole

/-- Store wiring attaches no emitters. -/
theorem emittersOnly_wireStore {config : StoreWiring} {wired : Wired} {raws : List Json}
    (hopened : w.Opened p.channel.connection) (h : w.wireStore p config = (w', .ok wired)) :
    EmittersOnly p raws w w' := by
  have hexactly := wireStore_exactly hopened h
  refine .of_adds hexactly.adds fun b hb => ?_
  rw [hexactly.bindings] at hb
  obtain ⟨l, hl, hrole, -⟩ := exists_raw_of_mem_emittersOf hb
  simp only [storeLanes, List.mem_cons, List.not_mem_nil, or_false] at hl
  rcases hl with rfl | rfl | rfl <;> cases hrole

/-! ### Helpers -/

theorem helperName_inj {event event' : String} (h : helperName event = helperName event') :
    event = event' := (String.append_left_inj _).1 h

/-- The gaps in the component's value of an event are filled. -/
def seed (w : World) (owner : ComponentId) (event : String) (defaults : Fields Json) : World :=
  if (w.tree (.component owner)).contains event then
    defaults.foldl
      (fun w entry => w.setDefault (.component owner) (event ++ "." ++ entry.1) entry.2) w
  else w

theorem sameCallables_seed (w : World) (owner : ComponentId) (event : String)
    (defaults : Fields Json) :
    SameCallables w (w.seed owner event defaults) := by
  unfold seed
  split
  · refine SameCallables.foldl ?_ defaults w
    exact fun w entry => sameCallables_setDefault w ..
  · exact .refl w

theorem retains_seed (w : World) (owner : ComponentId) (event : String) (defaults : Fields Json) :
    Retains owner w (w.seed owner event defaults) := by
  unfold seed
  split
  · generalize w = w
    induction defaults generalizing w with
    | nil => exact fun _ h => h
    | cons entry rest ih =>
      exact fun path h => ih _ path (retains_setDefault w owner _ entry.2 path h)
  · exact fun _ h => h

theorem bindHelper_eq {defaults : Fields Json} (h : d.eventDefaults event = some defaults)
    (w : World) :
    bindHelper p d w event =
      if (w.seed p.owner event defaults).hasMember p.owner (helperName event) then
        w.seed p.owner event defaults
      else (w.seed p.owner event defaults).insertCallable p.owner (helperName event)
        (.helper p.channel event) := by
  simp only [bindHelper, h]
  rfl

theorem callable?_insertCallable (w : World) (owner : ComponentId) (name other : String)
    (c : Callable) : (w.insertCallable owner name c).callable? owner other =
      if other = name then some c else w.callable? owner other := by
  simp only [callable?, insertCallable, component_setComponent, ↓reduceIte]
  split
  · rename_i heq
    rw [heq, Fields.get?_insert_self]
  · rename_i hne
    rw [Fields.get?_insert_of_ne hne]

theorem retains_bindHelper (p : Pass) (d : Descriptor) (w : World) (event : String) :
    Retains p.owner w (bindHelper p d w event) := by
  cases hdefaults : d.eventDefaults event with
  | none =>
    simp only [bindHelper, hdefaults]
    exact fun _ h => h
  | some defaults =>
    rw [bindHelper_eq hdefaults]
    have hseeded := retains_seed w p.owner event defaults
    split
    · exact hseeded
    · intro path hpath
      rw [tree_insertCallable]
      exact hseeded path hpath

theorem retains_helpers (p : Pass) (d : Descriptor) (events : List String) (w : World) :
    Retains p.owner w (events.foldl (bindHelper p d) w) := by
  induction events generalizing w with
  | nil => exact fun _ h => h
  | cons event rest ih =>
    exact fun path hpath => ih _ path (retains_bindHelper p d w event path hpath)

/-- The helper of an event leaves every other name alone. -/
theorem callable?_bindHelper_of_ne (hname : name ≠ helperName event) (w : World) :
    (bindHelper p d w event).callable? p.owner name = w.callable? p.owner name := by
  cases hdefaults : d.eventDefaults event with
  | none => simp only [bindHelper, hdefaults]
  | some defaults =>
    have hseeded := (sameCallables_seed w p.owner event defaults).callable?_eq p.owner name
    rw [bindHelper_eq hdefaults]
    split
    · exact hseeded
    · rw [callable?_insertCallable, if_neg hname, hseeded]

/-- Neither the data nor a handler of the component has that name. -/
structure Unnamed (w : World) (owner : ComponentId) (name : String) : Prop where
  data : (w.tree (.component owner)).contains name = false
  handler : w.handler? owner name = none

theorem Unnamed.hasMember {owner : ComponentId} (h : w.Unnamed owner name) :
    w.hasMember owner name = (w.callable? owner name).isSome := by
  have hdata : (w.component owner).data.contains name = false := h.data
  have hhandler : Fields.get? name (w.component owner).handlers = none :=
    Option.map_eq_none_iff.1 h.handler
  simp only [World.hasMember, hdata, Fields.contains, hhandler, Option.isSome_none, Bool.or_self,
    Bool.false_or, callable?]

theorem Unnamed.of_insertCallable {owner : ComponentId} {c : Callable}
    (h : (w.insertCallable owner event c).Unnamed owner name) : w.Unnamed owner name := by
  obtain ⟨hdata, hhandler⟩ := h
  rw [tree_insertCallable] at hdata
  refine ⟨hdata, ?_⟩
  rwa [handler?, insertCallable, component_setComponent, if_pos rfl] at hhandler

theorem Unnamed.of_components {owner : ComponentId} (h : w.Unnamed owner name)
    (hcomponents : w'.components = w.components) : w'.Unnamed owner name :=
  ⟨by simpa only [tree, component, hcomponents] using h.data,
    by simpa only [handler?, component, hcomponents] using h.handler⟩

/-- Under its own name stands what stood there, or else the helper. -/
theorem callable?_bindHelper_self (hdefaults : (d.eventDefaults event).isSome = true)
    (hunnamed : (bindHelper p d w event).Unnamed p.owner (helperName event)) :
    (bindHelper p d w event).callable? p.owner (helperName event) =
      some ((w.callable? p.owner (helperName event)).getD (.helper p.channel event)) := by
  obtain ⟨defaults, hdefaults⟩ := Option.isSome_iff_exists.1 hdefaults
  have hseeded :=
    (sameCallables_seed w p.owner event defaults).callable?_eq p.owner (helperName event)
  rw [bindHelper_eq hdefaults] at hunnamed ⊢
  rw [← hseeded]
  generalize w.seed p.owner event defaults = seeded at hunnamed ⊢
  have hmember : seeded.hasMember p.owner (helperName event) =
      (seeded.callable? p.owner (helperName event)).isSome := by
    split at hunnamed
    · exact hunnamed.hasMember
    · exact hunnamed.of_insertCallable.hasMember
  rw [hmember]
  cases hthere : seeded.callable? p.owner (helperName event) with
  | some callable => exact hthere
  | none => simp only [Option.isSome_none, Bool.false_eq_true, if_false, callable?_insertCallable,
      if_true, Option.getD_none]

theorem Unnamed.of_helpers {events : List String}
    (h : (events.foldl (bindHelper p d) w).Unnamed p.owner name) : w.Unnamed p.owner name := by
  have hquiet := Makes.foldl (bindHelper_quiet p d) events w
  refine ⟨?_, (congrFun (hquiet.handler?_eq p.owner) name).symm.trans h.handler⟩
  exact Bool.eq_false_iff.2 fun hthere =>
    Bool.eq_false_iff.1 h.data (retains_helpers p d events w name hthere)

/-- Once or several times, the first helper of the event stays. -/
theorem callable?_helpers (hdefaults : (d.eventDefaults event).isSome = true) (events : List String)
    (hunnamed : (events.foldl (bindHelper p d) w).Unnamed p.owner (helperName event)) :
    (events.foldl (bindHelper p d) w).callable? p.owner (helperName event) =
      if event ∈ events then
        some ((w.callable? p.owner (helperName event)).getD (.helper p.channel event))
      else w.callable? p.owner (helperName event) := by
  induction events generalizing w with
  | nil => rfl
  | cons first rest ih =>
    rw [List.foldl_cons] at hunnamed ⊢
    rw [ih hunnamed]
    by_cases hsame : event = first
    · subst hsame
      rw [callable?_bindHelper_self hdefaults hunnamed.of_helpers, if_pos List.mem_cons_self]
      exact ite_self _
    · rw [callable?_bindHelper_of_ne fun h => hsame (helperName_inj h)]
      simp only [List.mem_cons, hsame, false_or]

theorem mem_keys_of_eventDefaults (h : (d.eventDefaults event).isSome = true) :
    event ∈ d.events.keys := by
  obtain ⟨shape, hshape⟩ : ∃ shape, d.events.get? event = some shape := by
    cases hshape : d.events.get? event with
    | none => simp [Descriptor.eventDefaults, hshape] at h
    | some shape => exact ⟨shape, rfl⟩
  exact List.mem_map_of_mem (f := (·.1)) (Fields.mem_of_get? hshape)

theorem isEmpty_of_mem_keys (h : event ∈ d.events.keys) : d.isEmpty = false := by
  have hentries : d.events.entries ≠ [] := fun hnone => by
    simp only [Dict.keys, Fields.keys, hnone, List.map_nil] at h
    cases h
  simp only [Descriptor.isEmpty, Dict.isEmpty, Bool.and_eq_false_imp, List.isEmpty_iff]
  exact fun hnone => absurd hnone hentries

/-- The own API brings the helper of each of its events, where the component has nothing of that
name. A callable that it has already is left as it is. -/
theorem callable?_bindClientApi (hdefaults : (d.eventDefaults event).isSome = true)
    (published : String) (wired : Wired)
    (hunnamed : (w.bindClientApi p d published wired).1.Unnamed p.owner (helperName event)) :
    (w.bindClientApi p d published wired).1.callable? p.owner (helperName event) =
      some ((w.callable? p.owner (helperName event)).getD (.helper p.channel event)) := by
  have hevent := mem_keys_of_eventDefaults hdefaults
  let bound := d.methods.keys.foldl (bindMethod p) (w, wired)
  let helped := d.events.keys.foldl (bindHelper p d) bound.1
  have hbound : SameCallables w bound.1 := .of_components (components_bindMethods p _ (w, wired))
  have hcomponents : (w.bindClientApi p d published wired).1.components = helped.components := by
    rw [bindClientApi_eq (isEmpty_of_mem_keys hevent)]
    exact components_publish helped p d published bound.2
  rw [(SameCallables.of_components hcomponents).callable?_eq, ← hbound.callable?_eq]
  exact (callable?_helpers hdefaults d.events.keys (hunnamed.of_components hcomponents.symm)).trans
    (if_pos hevent)

end World

end Patchbay
