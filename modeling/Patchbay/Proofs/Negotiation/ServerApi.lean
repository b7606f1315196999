import Patchbay.Proofs.State.Presence
import Patchbay.Proofs.Wiring.Exact

/-!
What the negotiation of a peer's API comes to. Each declared event that is neither ignored nor
claimed already gets one registration, one listener and its slots; methods get their slots; all that
was there stays. So a second negotiation finds everything done and leaves all as it is.
-/

namespace Patchbay

namespace World

variable {p : Pass} {w w' w'' : World} {ignored : List String} {d : Descriptor}

/-! ### Defaults -/

theorem tree_writeTree (w : World) (place other : Place) (t : Tree) :
    (w.writeTree place t).tree other = if other = place then t else w.tree other :=
  ((writeTree_woken w place t).tree other).trans (tree_setTree w place other t)

theorem tree_setDefault (w : World) (place other : Place) (path : String) (v : Json) :
    (w.setDefault place path v).tree other =
      if other = place then (w.tree place).setDefault path v else w.tree other :=
  tree_writeTree w place other _

theorem tree_warnIf (w : World) (on : Bool) (warning : Warning) (place : Place) :
    (w.warnIf on warning).tree place = w.tree place := by
  obtain ⟨trace, htrace⟩ := warnIf_trace w on warning
  rw [htrace]
  cases place <;> rfl

/-- A default for what is there changes no tree. -/
theorem tree_setDefault_of_contains {place : Place} {path : String}
    (h : (w.tree place).contains path = true) (v : Json) (other : Place) :
    (w.setDefault place path v).tree other = w.tree other := by
  rw [tree_setDefault, Tree.setDefault_of_contains h]
  split
  · rename_i heq
    rw [heq]
  · rfl

/-- Everything that held something in the component's data still does. -/
def Retains (owner : ComponentId) (w w' : World) : Prop :=
  ∀ path, (w.tree (.component owner)).contains path = true →
    (w'.tree (.component owner)).contains path = true

theorem retains_setDefault (w : World) (owner : ComponentId) (path : String) (v : Json) :
    Retains owner w (w.setDefault (.component owner) path v) := by
  intro place hplace
  rw [tree_setDefault, if_pos rfl]
  exact Tree.contains_setDefault hplace path v

theorem contains_setDefault (w : World) (owner : ComponentId) (path : String) (v : Json) :
    ((w.setDefault (.component owner) path v).tree (.component owner)).contains path = true := by
  rw [tree_setDefault, if_pos rfl]
  exact Tree.contains_setDefault_self _ path v

theorem retains_setDefaults (w : World) (owner : ComponentId) (v : Json) (paths : List String) :
    Retains owner w (paths.foldl (fun w path => w.setDefault (.component owner) path v) w) := by
  induction paths generalizing w with
  | nil => exact fun _ h => h
  | cons path rest ih => exact fun place h => ih _ place (retains_setDefault w owner path v place h)

theorem contains_setDefaults (w : World) (owner : ComponentId) (v : Json) {paths : List String}
    {path : String} (hpath : path ∈ paths) :
    ((paths.foldl (fun w path => w.setDefault (.component owner) path v) w).tree
      (.component owner)).contains path = true := by
  induction paths generalizing w with
  | nil => cases hpath
  | cons first rest ih =>
    rcases List.mem_cons.1 hpath with rfl | hrest
    · exact retains_setDefaults _ owner v rest path (contains_setDefault w owner path v)
    · exact ih _ hrest

/-! ### Events -/

/-- The events that a negotiation binds: it is not told to ignore them, and nobody claims them for
the component on that connection. -/
def unbound (w : World) (p : Pass) (ignored : List String) (events : Fields EventShape) :
    Fields EventShape :=
  events.filter fun event =>
    !ignored.contains event.1 && !w.registry.contains p.componentScope .listener event.1

/-- These events were bound, and nothing else. -/
structure Gathers (p : Pass) (bound : Fields EventShape) (w w' : World) : Prop where
  registry : w'.registry.log = w.registry.log ++
    bound.map fun event => ⟨p.componentScope, .bareListener event.1, p.id⟩
  heard : ∃ new : List (Listener Reaction),
    w'.listenersOn p.channel.connection = w.listenersOn p.channel.connection ++ new ∧
      new.map (fun l => (l.event, l.action, l.once)) = bound.map fun event =>
        (event.1, .apiEvent p.owner (eventSlots event.1 event.2) p.token, false)
  unheard : ∀ n ≠ p.channel.connection, w'.listenersOn n = w.listenersOn n
  retains : Retains p.owner w w'
  slots : ∀ event ∈ bound, ∀ path ∈ eventSlots event.1 event.2,
    (w'.tree (.component p.owner)).contains path = true

namespace Gathers

variable {bound more : Fields EventShape}

theorem nothing (hregistry : w'.registry = w.registry)
    (hheard : ∀ n, w'.listenersOn n = w.listenersOn n)
    (hretains : Retains p.owner w w') : Gathers p [] w w' where
  registry := by simp [hregistry]
  heard := ⟨[], by simp [hheard], rfl⟩
  unheard n _ := hheard n
  retains := hretains
  slots := by simp

/-- Nobody listens where only slots were filled. -/
theorem of_quiet (h : Makes Change.Quiet w w') (hretains : Retains p.owner w w') :
    Gathers p [] w w' :=
  .nothing h.registry_of_quiet (h.listenersOn fun _ hch => hch.not_tunes) hretains

theorem trans (h : Gathers p bound w w') (h' : Gathers p more w' w'') :
    Gathers p (bound ++ more) w w'' where
  registry := by simp [h'.registry, h.registry]
  heard := by
    obtain ⟨new, hnew, hevents⟩ := h.heard
    obtain ⟨new', hnew', hevents'⟩ := h'.heard
    exact ⟨new ++ new', by rw [hnew', hnew, List.append_assoc], by simp [hevents, hevents']⟩
  unheard n hn := (h'.unheard n hn).trans (h.unheard n hn)
  retains path hpath := h'.retains path (h.retains path hpath)
  slots event hevent path hpath :=
    (List.mem_append.1 hevent).elim
      (fun hbound => h'.retains path (h.slots event hbound path hpath))
      fun hmore => h'.slots event hmore path hpath

/-- A listener for one event, whose slots are there. -/
theorem hear {name : String} {shape : EventShape} (hopened : w.Opened p.channel.connection)
    (hslots : ∀ path ∈ eventSlots name shape, (w.tree (.component p.owner)).contains path = true)
    {start : World} (hregistry : w.registry.log =
      start.registry.log ++ [⟨p.componentScope, .bareListener name, p.id⟩])
    (hheard : ∀ n, w.listenersOn n = start.listenersOn n) (hretains : Retains p.owner start w) :
    Gathers p [(name, shape)] start (w.listen p.channel.connection name
      (.apiEvent p.owner (eventSlots name shape) p.token)).1 := by
  obtain ⟨c, hc⟩ := hopened
  rw [listen_eq]
  have hlisten :=
    listenersOn_listen hc name (.apiEvent p.owner (eventSlots name shape) p.token) false
  exact {
    registry := hregistry
    heard := by
      rw [hlisten, if_pos rfl, hheard]
      exact ⟨_, rfl, rfl⟩
    unheard := fun n hn => by rw [hlisten, if_neg hn, List.append_nil, hheard]
    retains := hretains
    slots := by
      rintro event hevent path hpath
      obtain rfl := List.mem_singleton.1 hevent
      exact hslots path hpath }

end Gathers

theorem attachEvent_gathers {name : String} (hopened : w.Opened p.channel.connection)
    (hclaim : w.claim p p.componentScope (.bareListener name) = (w', true)) (shape : EventShape) :
    Gathers p [(name, shape)] w (w'.attachEvent p name shape).1 := by
  have hclaimed : w'.Opened p.channel.connection := claim_eq hclaim ▸ hopened.apply _
  let initial := shape.data.getD .emptyObject
  let filled := (eventSlots name shape).foldl
    (fun w path => w.setDefault (.component p.owner) path initial) w'
  let warned := filled.warnIf (p.warnings && filled.hears p.channel.connection name)
    (.apiListenerAttached name)
  have hfilled : Makes Change.Quiet w' filled :=
    Makes.foldl (fun w path => setDefault_quiet w _ path _) _ w'
  have hquiet : Makes Change.Quiet w' warned := hfilled.trans (warnIf_quiet ..)
  have htree : warned.tree (.component p.owner) = filled.tree (.component p.owner) := tree_warnIf ..
  have hgathers := Gathers.of_quiet hquiet fun path hpath =>
    htree ▸ retains_setDefaults w' p.owner initial _ path hpath
  have hheard (n : Nat) : warned.listenersOn n = w.listenersOn n := by
    rw [hquiet.listenersOn (fun _ hch => hch.not_tunes), claim_eq hclaim]
    exact listenersOn_apply id n
  refine Gathers.hear (hclaimed.makes hquiet) ?_ ?_ hheard ?_
  · intro path hpath
    rw [htree]
    exact contains_setDefaults w' p.owner initial hpath
  · rw [← (claim_granted hclaim).2]
    simpa using hgathers.registry
  · intro path hpath
    refine hgathers.retains path ?_
    rw [claim_eq hclaim]
    exact hpath

/-- An event that is ignored or claimed already is passed over. -/
theorem bindEvent_of_bound {acc : World × Wired} {event : String × EventShape}
    (h : ignored.contains event.1 = true ∨
      acc.1.registry.contains p.componentScope .listener event.1 = true) :
    bindEvent p ignored acc event = acc := by
  by_cases hignored : ignored.contains event.1 = true
  · simp only [bindEvent, hignored, ↓reduceIte]
  · have hclaimed : acc.1.claim p p.componentScope (.bareListener event.1) = (acc.1, false) :=
      claim_of_contains (h.resolve_left hignored)
    simp only [bindEvent, hignored, hclaimed]
    rfl

/-- An event is passed over, or claimed and listened to. -/
theorem bindEvent_cases (p : Pass) (ignored : List String) (acc : World × Wired)
    (event : String × EventShape) :
    (acc.1.unbound p ignored [event] = [] ∧ bindEvent p ignored acc event = acc) ∨
      (acc.1.unbound p ignored [event] = [event] ∧
        ∃ claimed, acc.1.claim p p.componentScope (.bareListener event.1) = (claimed, true) ∧
          bindEvent p ignored acc event = ((claimed.attachEvent p event.1 event.2).1,
            (addSubscription acc.2 p (claimed.attachEvent p event.1 event.2).2).append
              { bindings := [.bareListener event.1] })) := by
  by_cases hbound : ignored.contains event.1 = true ∨
      acc.1.registry.contains p.componentScope .listener event.1 = true
  · refine .inl ⟨?_, bindEvent_of_bound hbound⟩
    rcases hbound with h | h <;> simp only [unbound, List.filter_cons, h] <;> simp
  · obtain ⟨hheeded, hfree⟩ := not_or.1 hbound
    rcases hclaim : acc.1.claim p p.componentScope (.bareListener event.1) with ⟨claimed, _ | _⟩
    · exact absurd (claim_refused hclaim).2 hfree
    · refine .inr ⟨?_, claimed, rfl, ?_⟩
      · simp only [unbound, List.filter_cons, hheeded, hfree]
        rfl
      · simp only [bindEvent, hheeded, hclaim]
        rfl

/-- One event is bound if it is to be. -/
theorem bindEvent_gathers (ignored : List String) (acc : World × Wired)
    (hopened : acc.1.Opened p.channel.connection)
    (event : String × EventShape) :
    Gathers p (acc.1.unbound p ignored [event]) acc.1 (bindEvent p ignored acc event).1 ∧
      (bindEvent p ignored acc event).2.bindings =
        acc.2.bindings ++ (acc.1.unbound p ignored [event]).map fun event =>
          .bareListener event.1 := by
  obtain ⟨hnone, heq⟩ | ⟨hone, claimed, hclaim, heq⟩ := bindEvent_cases p ignored acc event
  · rw [hnone, heq]
    exact ⟨.nothing rfl (fun _ => rfl) fun _ h => h, (List.append_nil _).symm⟩
  · rw [hone, heq]
    exact ⟨attachEvent_gathers hopened hclaim event.2, by simp [addSubscription, Wired.append]⟩

theorem unbound_cons (w : World) (p : Pass) (ignored : List String) (event : String × EventShape)
    (rest : Fields EventShape) :
    w.unbound p ignored (event :: rest) =
      w.unbound p ignored [event] ++ w.unbound p ignored rest := by
  rw [← List.singleton_append, unbound, List.filter_append]
  rfl

/-- To bind one event takes no other. -/
theorem Gathers.unbound_eq {bound rest : Fields EventShape} (h : Gathers p bound w w')
    (hother : ∀ event ∈ bound, ∀ other ∈ rest, other.1 ≠ event.1) :
    w'.unbound p ignored rest = w.unbound p ignored rest := by
  refine List.filter_congr fun other hmem => ?_
  have hnone :
      (bound.map fun event => (⟨p.componentScope, .bareListener event.1, p.id⟩ : Registration)).any
      (fun r => decide (Registry.Holds p.componentScope .listener other.1 r)) = false := by
    simp only [List.any_map, List.any_eq_false]
    intro event hevent hholds
    exact hother event hevent other hmem (of_decide_eq_true hholds).2.2.symm
  simp only [Registry.contains_eq_any, h.registry, List.any_append, hnone, Bool.or_false]

/-- Afterwards every event is ignored or claimed. -/
theorem Gathers.claimed {events : Fields EventShape}
    (h : Gathers p (w.unbound p ignored events) w w')
    {event : String × EventShape} (hevent : event ∈ events) :
    ignored.contains event.1 = true ∨
      w'.registry.contains p.componentScope .listener event.1 = true := by
  by_cases hbound : event ∈ w.unbound p ignored events
  · refine .inr ?_
    simp only [Registry.contains_eq_any, h.registry, List.any_append, List.any_map, Bool.or_eq_true]
    exact .inr (List.any_eq_true.2 ⟨event, hbound, decide_eq_true ⟨rfl, rfl, rfl⟩⟩)
  · have hpassed : ignored.contains event.1 = true ∨
        w.registry.contains p.componentScope .listener event.1 = true := by
      simpa [unbound, hevent, Decidable.or_iff_not_imp_left] using hbound
    refine hpassed.imp_right fun hbefore => ?_
    simp only [Registry.contains_eq_any] at hbefore
    simp only [Registry.contains_eq_any, h.registry, List.any_append, hbefore, Bool.true_or]

/-- The events of a descriptor have different names, so none is bound twice. -/
theorem bindEvents_gathers (ignored : List String) {events : Fields EventShape}
    (hnames : (events.map (·.1)).Nodup) (acc : World × Wired)
    (hopened : acc.1.Opened p.channel.connection) :
    Gathers p (acc.1.unbound p ignored events) acc.1 (events.foldl (bindEvent p ignored) acc).1 ∧
      (events.foldl (bindEvent p ignored) acc).2.bindings =
        acc.2.bindings ++ (acc.1.unbound p ignored events).map fun event =>
          .bareListener event.1 := by
  induction events generalizing acc with
  | nil => exact ⟨.nothing rfl (fun _ => rfl) fun _ h => h, (List.append_nil _).symm⟩
  | cons event rest ih =>
    obtain ⟨hfirst, hrest⟩ := List.nodup_cons.1 hnames
    obtain ⟨hgathers, hbindings⟩ := bindEvent_gathers ignored acc hopened event
    have hleft : (bindEvent p ignored acc event).1.unbound p ignored rest =
        acc.1.unbound p ignored rest := by
      refine hgathers.unbound_eq fun bound hbound other hother heq => hfirst ?_
      obtain rfl := List.mem_singleton.1 (List.mem_filter.1 hbound).1
      exact List.mem_map.2 ⟨other, hother, heq⟩
    obtain ⟨hmore, hbindings'⟩ := ih hrest _ (hopened.makes (bindEvent_makes p ignored acc event))
    rw [hleft] at hmore hbindings'
    rw [unbound_cons, List.foldl_cons]
    exact ⟨hgathers.trans hmore, by rw [hbindings', hbindings, List.map_append, List.append_assoc]⟩

/-! ### Methods -/

theorem retains_initMethod (w : World) (p : Pass) (name : String) (shape : MethodShape) :
    Retains p.owner w (w.initMethod p name shape) := by
  intro path hpath
  exact retains_setDefault _ p.owner _ _ path (retains_setDefault w p.owner _ _ path hpath)

/-- A method has its two slots. -/
def HasSlots (w : World) (owner : ComponentId) (method : String) : Prop :=
  (w.tree (.component owner)).contains (ServerApi.slot [method, "msg"]) = true ∧
    (w.tree (.component owner)).contains (ServerApi.slot [method, "resp"]) = true

theorem Retains.hasSlots {owner : ComponentId} {method : String} (h : Retains owner w w')
    (hslots : w.HasSlots owner method) : w'.HasSlots owner method :=
  ⟨h _ hslots.1, h _ hslots.2⟩

theorem hasSlots_initMethod (w : World) (p : Pass) (name : String) (shape : MethodShape) :
    (w.initMethod p name shape).HasSlots p.owner name :=
  ⟨retains_setDefault _ p.owner _ _ _ (contains_setDefault w p.owner _ _),
    contains_setDefault _ p.owner _ _⟩

theorem tree_initMethod_of_hasSlots {name : String} (h : w.HasSlots p.owner name)
    (shape : MethodShape)
    (place : Place) : (w.initMethod p name shape).tree place = w.tree place := by
  have hmsg := tree_setDefault_of_contains h.1 (shape.msg.getD .emptyObject)
  refine (tree_setDefault_of_contains ?_ shape.emptyResponse place).trans (hmsg place)
  rw [hmsg]
  exact h.2

/-- All methods get their slots, and lose none. -/
theorem initMethods_slots (w : World) (p : Pass) (methods : Fields MethodShape) :
    let filled := methods.foldl (fun w entry => w.initMethod p entry.1 entry.2) w
    Retains p.owner w filled ∧ ∀ entry ∈ methods, filled.HasSlots p.owner entry.1 := by
  induction methods generalizing w with
  | nil => exact ⟨fun _ h => h, by simp⟩
  | cons first rest ih =>
    obtain ⟨hretains, hslots⟩ := ih (w.initMethod p first.1 first.2)
    refine ⟨fun path h => hretains path (retains_initMethod w p _ _ path h), ?_⟩
    intro entry hentry
    rcases List.mem_cons.1 hentry with rfl | hrest
    · exact hretains.hasSlots (hasSlots_initMethod w p _ _)
    · exact hslots entry hrest

theorem tree_initMethods_of_hasSlots {methods : Fields MethodShape}
    (h : ∀ entry ∈ methods, w.HasSlots p.owner entry.1) (place : Place) :
    (methods.foldl (fun w entry => w.initMethod p entry.1 entry.2) w).tree place =
      w.tree place := by
  induction methods generalizing w with
  | nil => rfl
  | cons first rest ih =>
    obtain ⟨hfirst, hrest⟩ := List.forall_mem_cons.1 h
    have hsame := tree_initMethod_of_hasSlots hfirst first.2
    refine (ih fun entry hentry => ?_).trans (hsame place)
    unfold HasSlots
    rw [hsame]
    exact hrest entry hentry

/-! ### Negotiations -/

theorem nodup_names {α : Type} (dict : Dict α) : (dict.entries.map (·.1)).Nodup :=
  dict.sorted.nodup_keys

theorem contains_keys {α : Type} (fields : Fields α) (key : String) :
    (Fields.keys fields).contains key = Fields.contains key fields := by
  induction fields with
  | nil => rfl
  | cons head rest ih =>
    by_cases hkey : head.1 = key
    · simp [Fields.keys, Fields.contains, Fields.get?, hkey]
    · have hne : (key == head.1) = false := by simpa using Ne.symm hkey
      simp only [Fields.keys, Fields.contains] at ih
      simp only [Fields.keys, Fields.contains, Fields.get?, List.map_cons, List.contains_cons, hne,
        Bool.false_or, if_neg hkey, ih]

/-- What the negotiation of an API came to: exactly the events that were to be bound are, every
method has its slots and can be called, and to negotiate again would change nothing as long as
nothing of that is taken away. -/
structure Negotiates (p : Pass) (ignored : List String) (d : Descriptor) (w w' : World)
    (wired wired' : Wired) (api : ServerApi) : Prop extends
    Gathers p (w.unbound p ignored d.events.entries) w w' where
  once : ((w.unbound p ignored d.events.entries).map (·.1)).Nodup
  bindings : wired'.bindings = wired.bindings ++
    (w.unbound p ignored d.events.entries).map fun event => .bareListener event.1
  methods : ∀ method ∈ d.methods.keys, w'.HasSlots p.owner method
  callables : ∀ (v : World) (ticket : Nat) (name : String) (handle : Handle) (method : String)
    (argument : Option Json), v.handle? name = some handle → handle.api = some api →
      v.perform ticket (.apiCall name method argument) =
        if d.methods.contains method then
          (v.spawn (.call ticket p.owner (.method p.channel method) argument), .later)
        else (v, .failed (.unknownCallable method))
  again : ∀ (v : World) (q : Pass) (later : Wired), q.channel.connection = p.channel.connection →
    q.owner = p.owner → w'.registry.log ⊆ v.registry.log → Retains p.owner w' v →
      let negotiated := v.bindServerApi q ignored d later
      negotiated.1.registry = v.registry ∧ negotiated.2.1 = later ∧
        (∀ n, negotiated.1.listenersOn n = v.listenersOn n) ∧
          ∀ place, negotiated.1.tree place = v.tree place

theorem bindEvents_of_bound {events : Fields EventShape} {acc : World × Wired}
    (h : ∀ event ∈ events, ignored.contains event.1 = true ∨
      acc.1.registry.contains p.componentScope .listener event.1 = true) :
    events.foldl (bindEvent p ignored) acc = acc := by
  induction events with
  | nil => rfl
  | cons event rest ih =>
    obtain ⟨hfirst, hrest⟩ := List.forall_mem_cons.1 h
    rw [List.foldl_cons, bindEvent_of_bound hfirst]
    exact ih hrest

/-- Where every event is bound or ignored, and every method has its slots, nothing is left to do. -/
theorem bindServerApi_of_bound
    (hevents : ∀ event ∈ d.events.entries, ignored.contains event.1 = true ∨
      w.registry.contains p.componentScope .listener event.1 = true)
    (hmethods : ∀ method ∈ d.methods.entries, w.HasSlots p.owner method.1) (wired : Wired) :
    let negotiated := w.bindServerApi p ignored d wired
    negotiated.1.registry = w.registry ∧ negotiated.2.1 = wired ∧
      (∀ n, negotiated.1.listenersOn n = w.listenersOn n) ∧
        ∀ place, negotiated.1.tree place = w.tree place := by
  let filled := d.methods.entries.foldl (fun w entry => w.initMethod p entry.1 entry.2) w
  have hquiet : Makes Change.Quiet w filled := initMethods_quiet w p d
  have hregistry : filled.registry = w.registry := hquiet.registry_of_quiet
  have hbound : d.events.entries.foldl (bindEvent p ignored) (filled, wired) = (filled, wired) :=
    bindEvents_of_bound fun event hevent => by
      rw [hregistry]
      exact hevents event hevent
  have heq : w.bindServerApi p ignored d wired =
      (filled.apply (.setServerApi p.channel.scope (ServerApi.summary ⟨p.channel, p.owner, d⟩)),
        wired, ⟨p.channel, p.owner, d⟩) := by
    simp only [bindServerApi]
    rw [hbound]
    rfl
  rw [heq]
  refine ⟨hregistry, rfl, ?_, ?_⟩
  · intro n
    exact (listenersOn_apply id n).trans (hquiet.listenersOn (fun _ hch => hch.not_tunes) n)
  · intro place
    refine Eq.trans ?_ (tree_initMethods_of_hasSlots hmethods place)
    cases place <;> rfl

theorem bindServerApi_negotiates (hopened : w.Opened p.channel.connection) (ignored : List String)
    (d : Descriptor) (wired : Wired) :
    Negotiates p ignored d w (w.bindServerApi p ignored d wired).1 wired
      (w.bindServerApi p ignored d wired).2.1 (w.bindServerApi p ignored d wired).2.2 := by
  let filled := d.methods.entries.foldl (fun w entry => w.initMethod p entry.1 entry.2) w
  have hquiet : Makes Change.Quiet w filled := initMethods_quiet w p d
  obtain ⟨hretains, hslots⟩ := initMethods_slots w p d.methods.entries
  have hfilled : Gathers p [] w filled := .of_quiet hquiet hretains
  obtain ⟨hevents, hbindings⟩ := bindEvents_gathers ignored (nodup_names d.events)
    (filled, wired) (hopened.makes hquiet)
  rw [hfilled.unbound_eq (by simp)] at hevents hbindings
  have hgathers : Gathers p (w.unbound p ignored d.events.entries) w
      (w.bindServerApi p ignored d wired).1 := by
    have hreported : Gathers p [] (d.events.entries.foldl (bindEvent p ignored) (filled, wired)).1
        (w.bindServerApi p ignored d wired).1 :=
      .nothing rfl (fun n => @listenersOn_apply _
        (.setServerApi p.channel.scope (ServerApi.summary ⟨p.channel, p.owner, d⟩)) id n)
          fun _ h => h
    simpa using (hfilled.trans hevents).trans hreported
  have hmethods : ∀ method ∈ d.methods.entries,
      (w.bindServerApi p ignored d wired).1.HasSlots p.owner method.1 :=
    fun method hmethod => Retains.hasSlots hevents.retains (hslots method hmethod)
  refine ⟨hgathers, (nodup_names d.events).sublist (List.filter_sublist.map _), hbindings,
    ?_, ?_, ?_⟩
  · intro method hmethod
    obtain ⟨entry, hentry, rfl⟩ := List.mem_map.1 hmethod
    exact hmethods entry hentry
  · intro v ticket name handle method argument hhandle hapi
    have hkeys : (ServerApi.methods ⟨p.channel, p.owner, d⟩).contains method =
        d.methods.contains method := contains_keys d.methods.entries method
    have hbound : handle.api = some ⟨p.channel, p.owner, d⟩ := hapi
    simp only [perform, withHandle, hhandle, hbound, hkeys]
  · intro v q later hconnection howner hlog hkept
    have hscope : q.componentScope = p.componentScope := by
      simp only [Pass.componentScope, Pass.id, hconnection, howner]
    refine bindServerApi_of_bound ?_ ?_ later
    · intro event hevent
      rw [hscope]
      exact (hgathers.claimed hevent).imp_right (Registry.contains_of_subset hlog)
    · intro method hmethod
      rw [howner]
      exact hkept.hasSlots (hmethods method hmethod)

/-- The peer's API is bound exactly, and once. When the peer has answered discovery with a
descriptor, the request goes on with an API for which of the declared events those have got a
listener, a registration and their slots that were neither ignored nor claimed for the component on
that connection, and no others. Its callables are the declared methods, whose slots are there; and
to negotiate again changes neither the registry nor any listener nor any tree. -/
theorem server_api_bound_exactly {c : Connecting} {answer : Json}
    (hopened : w.Opened c.pass.channel.connection) (hread : read? answer = some d) :
    ∃ w' wired api, w.discovered c answer = w'.finishConnect { c with wired } (some api) ∧
      Negotiates c.pass c.resolved.ignoredEvents d w w' c.wired wired api := by
  refine ⟨_, _, _, ?_, bindServerApi_negotiates hopened c.resolved.ignoredEvents d c.wired⟩
  simp only [discovered, hread]

/-- A component on a connection. It claims one event already, and its data has a list of old. -/
def kiosk : World :=
  { settings := {}
    connections := [{ url := "http://home", namespaceName := "/" }]
    components := [("a", { data := .ofJson (.obj [("ioData", .obj [("list", .str "old")])]) })]
    registry := (Registry.register {} (.component (.opened 1) ⟨"a"⟩) (.bareListener "known")
      (.opened 1)).1 }

/-- It asks for the peer's API, and is to ignore the noise. -/
def kioskRequest : Connecting where
  ticket := 1
  name := "h"
  resolved :=
    { label := "home", url := "http://home", namespaceName := "/", scope := "home/"
      persistKey := none, teardown := true, emitTimeout := none, namespaceConfig := {}, store := {}
      serverApi := some {}, clientApi := none, ignoredEvents := ["noise"], warnings := true
      statusKey := "socketStatus", extra := [] }
  pass := ⟨⟨1, "home/", none⟩, ⟨"a"⟩, 0, true⟩
  reused := false
  wired := {}

/-- One event is named like the slot of a method, and another is tied to that method. -/
def kioskAnswer : Json := .obj
  [("evts", .obj [("known", .emptyObject), ("list.msg", .emptyObject),
      ("news", .obj [("methods", .arr [.str "list"])]), ("noise", .emptyObject)]),
    ("methods", .obj [("list", .obj [("resp", .arr [])])])]

def kioskApi : Descriptor := (read? kioskAnswer).getD default

theorem kiosk_api_bound : kiosk.Opened 1 ∧ read? kioskAnswer = some kioskApi ∧
    ∃ (w' : World) (wired : Wired) (api : ServerApi),
      kiosk.discovered kioskRequest kioskAnswer =
        w'.finishConnect { kioskRequest with wired } (some api) ∧
      wired.bindings = [.bareListener "list.msg", .bareListener "news"] ∧
      (w'.listenersOn 1).map (fun l => (l.event, l.action, l.once)) =
        [("list.msg", .apiEvent ⟨"a"⟩ ["ioData.list.msg"] 0, false),
          ("news", .apiEvent ⟨"a"⟩ ["ioData.list.news"] 0, false)] ∧
      w'.HasSlots ⟨"a"⟩ "list" := by
  have hopened : kiosk.Opened 1 := ⟨_, rfl⟩
  have hread : read? kioskAnswer = some kioskApi := rfl
  obtain ⟨w', wired, api, hdiscovered, hnegotiated⟩ :=
    server_api_bound_exactly (c := kioskRequest) hopened hread
  obtain ⟨new, hnew, hevents⟩ := hnegotiated.heard
  have hheard : w'.listenersOn 1 = new := hnew
  refine ⟨hopened, hread, w', wired, api, hdiscovered, hnegotiated.bindings, ?_,
    hnegotiated.methods "list" List.mem_cons_self⟩
  rw [hheard, hevents]
  rfl

end World

end Patchbay
