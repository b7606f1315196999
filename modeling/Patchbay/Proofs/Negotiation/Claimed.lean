import Patchbay.Proofs.Negotiation.ServerApi

/-!
Claims that are taken. A request leaves a registry in which everything is claimed that a request of
its kind would claim; and where all of that is claimed, its passes attach nothing and its APIs fill
slots at most.
-/

namespace Patchbay

namespace Lane

/-- Every action of the lane is taken in its scope. -/
def Claimed (l : Lane) (reg : Registry) : Prop :=
  ∀ b ∈ l.compiled, reg.contains l.scope l.role b.action = true

variable {l : Lane} {reg reg' : Registry}

theorem Claimed.mono (h : l.Claimed reg) (hlog : reg.log ⊆ reg'.log) : l.Claimed reg' :=
  fun b hb => Registry.contains_of_subset hlog (h b hb)

/-- Of each action that is free one binding is attached. -/
theorem exists_attached {b : Binding} (hb : b ∈ l.compiled)
    (hfree : reg.contains l.scope l.role b.action = false) :
    ∃ first ∈ l.attached reg, first.action = b.action := by
  have hleft : b ∈ l.compiled.filter fun b => !reg.contains l.scope l.role b.action :=
    List.mem_filter.2 ⟨hb, by rw [hfree]; rfl⟩
  unfold attached
  generalize (l.compiled.filter fun b => !reg.contains l.scope l.role b.action) = free at hleft ⊢
  cases hfind : free.find? (·.action == b.action) with
  | none =>
    have hother := List.find?_eq_none.1 hfind b hleft
    simp at hother
  | some first =>
    obtain ⟨hsame, front, back, rfl, hfront⟩ := List.find?_eq_some_iff_append.1 hfind
    have hsame : first.action = b.action := by simpa using hsame
    refine ⟨first, mem_firsts fun x hx => ?_, hsame⟩
    rw [hsame]
    simpa using hfront x hx

end Lane

namespace World

variable {p : Pass} {place : Place} {w w' : World} {d : Descriptor} {event : String}
  {acc : World × Wired} {names : List String}

/-! ### Passes -/

/-- A pass leaves no action of its lanes free. -/
theorem Exactly.claimed {lanes : List Lane} {wired : Wired} (h : Exactly p place lanes w w' wired) :
    ∀ l ∈ lanes, l.Claimed w'.registry := by
  intro l hl b hb
  by_cases htaken : w.registry.contains l.scope l.role b.action = true
  · refine Registry.contains_of_subset ?_ htaken
    rw [h.registry]
    exact List.subset_append_left _ _
  · obtain ⟨first, hfirst, hsame⟩ := Lane.exists_attached hb (Bool.eq_false_iff.2 htaken)
    have hmade : (⟨l.scope, first, p.id⟩ : Registration) ∈ l.registrations w.registry p.id :=
      List.mem_map_of_mem hfirst
    refine Registry.contains_iff.2 ⟨_, ?_, rfl, (l.mem_registrations hmade).2, hsame⟩
    rw [h.registry]
    exact List.mem_append_right _ (List.mem_flatMap.2 ⟨l, hl, hmade⟩)

theorem attachAll_of_claimed {l : Lane} (h : l.Claimed w.registry)
    (attach : World → Binding → World × List (Subscription Detach)) :
    w.attachAll p l.scope attach l.compiled = (w, {}) := by
  have hall : ∀ b ∈ l.compiled, w.registry.contains l.scope b.role b.action = true := by
    intro b hb
    rw [l.role_of_mem_compiled hb]
    exact h b hb
  generalize l.compiled = bindings at hall
  induction bindings with
  | nil => rfl
  | cons b rest ih =>
    obtain ⟨hb, hrest⟩ := List.forall_mem_cons.1 hall
    simp only [attachAll, claim_of_contains hb]
    exact ih hrest

theorem wireNamespace_of_claimed {c : NamespaceConfig} {wired : Wired}
    (h : ∀ l ∈ namespaceLanes p c, l.Claimed w.registry)
    (hwire : w.wireNamespace p c = (w', .ok wired)) : w' = w := by
  simp only [namespaceLanes, List.mem_cons, List.not_mem_nil, or_false, forall_eq_or_imp,
    forall_eq] at h
  obtain ⟨hemitters, hlisteners, hbacks⟩ := h
  have hfirst := attachAll_of_claimed (p := p) hemitters
  have hsecond := attachAll_of_claimed (p := p) hlisteners
  have hthird := attachAll_of_claimed (p := p) hbacks
  simp only [wireNamespace, Lane.compileAll_eq ⟨p.componentScope, .emitter, c.emitters⟩,
    Lane.compileAll_eq ⟨p.componentScope, .listener, c.listeners⟩,
    Lane.compileAll_eq ⟨p.componentScope, .emitBack, c.emitBacks⟩] at hwire
  split at hwire
  · cases hwire
  · simp only [hfirst, hsecond, hthird] at hwire
    exact (congrArg Prod.fst hwire).symm

theorem wireStore_of_claimed {c : StoreWiring} {wired : Wired}
    (h : ∀ l ∈ storeLanes p c, l.Claimed w.registry) (hwire : w.wireStore p c = (w', .ok wired)) :
    w' = w := by
  simp only [storeLanes, List.mem_cons, List.not_mem_nil, or_false, forall_eq_or_imp,
    forall_eq] at h
  obtain ⟨hactions, hmutations, hbacks⟩ := h
  have hfirst := attachAll_of_claimed (p := p) hactions
  have hsecond := attachAll_of_claimed (p := p) hmutations
  have hthird := attachAll_of_claimed (p := p) hbacks
  simp only [wireStore, Lane.compileAll_eq ⟨p.storeScope .actions, .listener, c.actions⟩,
    Lane.compileAll_eq ⟨p.storeScope .mutations, .listener, c.mutations⟩,
    Lane.compileAll_eq ⟨p.storeScope .emitBacks, .emitBack, c.emitBacks⟩] at hwire
  split at hwire
  · cases hwire
  · simp only [hfirst, hsecond, hthird] at hwire
    exact (congrArg Prod.fst hwire).symm

/-! ### Handlers -/

theorem Woken.component (h : Woken w w') (id : ComponentId) : w'.component id = w.component id := by
  obtain ⟨ready, parked, rfl, -, -⟩ := h
  rfl

theorem handler?_congr {id : ComponentId}
    (h : (w'.component id).handlers = (w.component id).handlers) :
    w'.handler? id = w.handler? id := by
  funext name
  simp only [handler?, h]

/-- A component has the handlers that it had from the start; what changes is how often they were
called. -/
theorem handler?_apply (w : World) (ch : Change) (id : ComponentId) :
    (w.apply ch).handler? id = w.handler? id := by
  have hwoken : (w.apply ch).handler? id = (w.effect ch).handler? id :=
    handler?_congr (congrArg Component.handlers ((apply_woken w ch).component id))
  rw [hwoken]
  cases ch with
  | set q path v => exact handler?_congr (component_setTree w q _ id).2
  | touch q => exact handler?_congr (component_setTree w q _ id).2
  | attachBack back path => exact handler?_congr (component_setTree w back.place _ id).2
  | poll q n => exact handler?_congr (component_setTree w q _ id).2
  | unwatch q n => exact handler?_congr (component_setTree w q _ id).2
  | countCall hook =>
    funext name
    simp only [effect, apply, handler?, component_setComponent]
    split
    · rename_i hid
      subst hid
      cases hfound : Fields.get? hook.handler (w.component hook.owner).handlers with
      | none => rfl
      | some handler =>
        by_cases hname : name = hook.handler
        · simp [hname, hfound, Fields.get?_insert_self]
        · simp [Fields.get?_insert_of_ne hname]
    · rfl
  | insertCallable owner name c =>
    refine handler?_congr ?_
    simp only [effect, apply, insertCallable, component_setComponent]
    split
    · rename_i hid
      rw [hid]
    · rfl
  | track s =>
    simp only [effect, apply, track]
    split <;> rfl
  | _ => rfl

theorem Makes.handler?_eq {P : Change → Prop} (h : Makes P w w') (id : ComponentId) :
    w'.handler? id = w.handler? id :=
  h.keeps (I := fun w' => w'.handler? id = w.handler? id)
    (fun w' ch _ hw => (handler?_apply w' ch id).trans hw) rfl

theorem Run.handler?_eq {log : List Moment} (h : Run w log w') (id : ComponentId) :
    w'.handler? id = w.handler? id :=
  h.keeps (I := fun w' => w'.handler? id = w.handler? id)
    (fun w' ch hw => (handler?_apply w' ch id).trans hw) (fun _ _ _ _ _ hw => hw) rfl

/-! ### The peer's API -/

theorem bindServerApi_of_claimed {ignored : List String}
    (h : ∀ event ∈ d.events.entries, ignored.contains event.1 = true ∨
      w.registry.contains p.componentScope .listener event.1 = true) (wired : Wired) :
    Makes Change.Quiet w (w.bindServerApi p ignored d wired).1 := by
  have hquiet := initMethods_quiet w p d
  simp only [bindServerApi]
  rw [bindEvents_of_bound]
  · exact .more (.setServerApi _ _) hquiet trivial
  · rw [hquiet.registry_of_quiet]
    exact h

/-! ### The component's own API -/

/-- What it takes to publish an API is claimed: the methods that have a handler, and the event on
which the peer asks for it. -/
structure Answers (w : World) (p : Pass) (d : Descriptor) (event : String) : Prop where
  methods : ∀ method ∈ d.methods.keys, w.handler? p.owner method = none ∨
    w.registry.contains p.componentScope .listener method = true
  event : w.registry.contains p.componentScope .listener event = true

theorem Answers.later (h : w.Answers p d event) (hlog : w.registry.log ⊆ w'.registry.log)
    (hhandlers : w'.handler? p.owner = w.handler? p.owner) : w'.Answers p d event where
  methods method hmethod := by
    rw [hhandlers]
    exact (h.methods method hmethod).imp_right (Registry.contains_of_subset hlog)
  event := Registry.contains_of_subset hlog h.event

theorem bindMethod_of_claimed {name : String} (h : acc.1.handler? p.owner name = none ∨
    acc.1.registry.contains p.componentScope .listener name = true) :
    Makes Change.Quiet acc.1 (bindMethod p acc name).1 := by
  cases hhandler : acc.1.handler? p.owner name with
  | none =>
    simp only [bindMethod, hhandler]
    exact warnIf_quiet ..
  | some hook =>
    have hclaim : acc.1.claim p p.componentScope (.bareListener name) = (acc.1, false) :=
      claim_of_contains (h.resolve_left (by rw [hhandler]; simp))
    simp only [bindMethod, hhandler, hclaim]
    exact .nothing

theorem bindMethods_of_claimed (acc : World × Wired)
    (h : ∀ name ∈ names, acc.1.handler? p.owner name = none ∨
      acc.1.registry.contains p.componentScope .listener name = true) :
    Makes Change.Quiet acc.1 (names.foldl (bindMethod p) acc).1 := by
  induction names generalizing acc with
  | nil => exact .nothing
  | cons name rest ih =>
    obtain ⟨hfirst, hrest⟩ := List.forall_mem_cons.1 h
    have hmethod := bindMethod_of_claimed hfirst
    refine hmethod.trans (ih _ fun name hname => ?_)
    rw [hmethod.handler?_eq, hmethod.registry_of_quiet]
    exact hrest name hname

theorem bindClientApi_of_answers (h : d.isEmpty = false → w.Answers p d event) (wired : Wired) :
    Makes Change.Quiet w (w.bindClientApi p d event wired).1 := by
  cases hempty : d.isEmpty with
  | true =>
    rw [bindClientApi_of_isEmpty hempty]
    exact .nothing
  | false =>
    rw [bindClientApi_eq hempty]
    obtain ⟨hmethods, hevent⟩ := h hempty
    have hbound := bindMethods_of_claimed (w, wired) hmethods
    have hfilled := hbound.trans (Makes.foldl (bindHelper_quiet p d) d.events.keys _)
    rw [← hfilled.registry_of_quiet] at hevent
    have hclaim := claim_of_contains (p := p) (b := .bareListener event) hevent
    simp only [publish, hclaim]
    exact .more (.setClientApi _ _) hfilled trivial

/-- Only a closed connection gives registrations back. -/
theorem Makes.registered {P : Change → Prop} (h : Makes P w w')
    (hP : ∀ serial, ¬ P (.releaseBindings serial)) : w.registry.log ⊆ w'.registry.log := by
  refine h.keeps (I := fun w' => w.registry.log ⊆ w'.registry.log) ?_ (List.Subset.refl _)
  intro w' ch hch hw
  refine List.Subset.trans hw ?_
  by_cases hregister : ∃ scope b via, ch = .register scope b via
  · obtain ⟨scope, b, via, rfl⟩ := hregister
    exact fun r hr => (register_gains (S := fun _ => True) w' b trivial).mem hr
  · have hsame : (w'.apply ch).registry = w'.registry := by
      refine apply_registry w' (fun scope b via heq => hregister ⟨scope, b, via, heq⟩) ?_
      rintro serial rfl
      exact hP serial hch
    rw [hsame]
    exact List.Subset.refl _

theorem Makes.registered_of_binds (h : Makes Change.Binds w w') :
    w.registry.log ⊆ w'.registry.log :=
  h.registered fun _ hc => hc

/-- A method that was bound stays bound, and who has no handler gets none. -/
theorem Makes.answered_of_binds (h : Makes Change.Binds w w') {method : String}
    (hbound : w.handler? p.owner method = none ∨
      w.registry.contains p.componentScope .listener method = true) :
    w'.handler? p.owner method = none ∨
      w'.registry.contains p.componentScope .listener method = true := by
  rw [h.handler?_eq]
  exact hbound.imp_right (Registry.contains_of_subset h.registered_of_binds)

theorem contains_of_claim {scope : Scope} {b : Binding} (h : w.claim p scope b = (w', true)) :
    w'.registry.contains scope b.role b.action = true := by
  refine Registry.contains_iff.2 ⟨⟨scope, b, p.id⟩, ?_, rfl, rfl, rfl⟩
  rw [(claim_granted h).2]
  exact List.mem_append_right _ List.mem_cons_self

theorem bindMethod_claims (p : Pass) (acc : World × Wired) (name : String) :
    (bindMethod p acc name).1.handler? p.owner name = none ∨
      (bindMethod p acc name).1.registry.contains p.componentScope .listener name = true := by
  cases hhandler : acc.1.handler? p.owner name with
  | none => exact .inl (by rw [(bindMethod_makes p acc name).handler?_eq, hhandler])
  | some hook =>
    refine .inr ?_
    rcases hclaim : acc.1.claim p p.componentScope (.bareListener name) with ⟨claimed, _ | _⟩
    · simp only [bindMethod, hhandler, hclaim]
      obtain ⟨rfl, htaken⟩ := claim_refused hclaim
      exact htaken
    · simp only [bindMethod, hhandler, hclaim, listen_eq]
      rw [apply_registry _ (by simp) (by simp)]
      exact contains_of_claim hclaim

theorem bindMethods_claim (p : Pass) (acc : World × Wired) (names : List String) :
    ∀ name ∈ names, (names.foldl (bindMethod p) acc).1.handler? p.owner name = none ∨
      (names.foldl (bindMethod p) acc).1.registry.contains p.componentScope .listener name =
        true := by
  induction names generalizing acc with
  | nil => exact List.forall_mem_nil _
  | cons first rest ih =>
    refine List.forall_mem_cons.2 ⟨?_, ih (bindMethod p acc first)⟩
    exact (foldl_fst_makes (bindMethod_makes p) rest (bindMethod p acc first)).answered_of_binds
      (bindMethod_claims p acc first)

theorem publish_claims (w : World) (p : Pass) (d : Descriptor) (event : String) (wired : Wired) :
    (w.publish p d event wired).1.registry.contains p.componentScope .listener event = true := by
  rcases hclaim : w.claim p p.componentScope (.bareListener event) with ⟨claimed, _ | _⟩
  · simp only [publish, hclaim]
    obtain ⟨rfl, htaken⟩ := claim_refused hclaim
    exact htaken
  · simp only [publish, hclaim, listen_eq]
    rw [apply_registry _ (by simp) (by simp)]
    exact contains_of_claim hclaim

/-- To publish an API claims all that it takes. -/
theorem bindClientApi_answers (w : World) (p : Pass) {d : Descriptor} (hd : d.isEmpty = false)
    (event : String) (wired : Wired) : (w.bindClientApi p d event wired).1.Answers p d event := by
  let bound := d.methods.keys.foldl (bindMethod p) (w, wired)
  let filled := d.events.keys.foldl (bindHelper p d) bound.1
  have hfilled : Makes Change.Binds bound.1 filled :=
    (Makes.foldl (bindHelper_quiet p d) d.events.keys bound.1).mono fun _ hc => hc.basic.binds
  have hpublished := hfilled.trans (publish_makes filled p d event bound.2)
  rw [bindClientApi_eq hd]
  constructor
  · intro method hmethod
    exact (hpublished.more (.setClientApi _ _) trivial).answered_of_binds
      (bindMethods_claim p (w, wired) d.methods.keys method hmethod)
  · exact publish_claims filled p d event bound.2

/-! ### Requests -/

/-- All that a request would claim is claimed: the actions of its lanes, the events of the peer's
API that it heeds, and what its own API takes. -/
structure Claimed (w : World) (p : Pass) (r : Resolved) (api : Option Descriptor) : Prop where
  lanes : ∀ l ∈ namespaceLanes p r.namespaceConfig ++ storeLanes p r.store, l.Claimed w.registry
  events : ∀ d ∈ api, ∀ event ∈ d.events.entries, r.ignoredEvents.contains event.1 = true ∨
    w.registry.contains p.componentScope .listener event.1 = true
  own : ∀ d ∈ r.clientApi, d.isEmpty = false →
    w.Answers p d ((r.serverApi.bind (·.event)).getD ServerApi.defaultEvent)

/-- It stays claimed as long as nothing is given up, for every request of the component on that
channel. -/
theorem Claimed.later {q : Pass} {r : Resolved} {api : Option Descriptor} (h : w.Claimed p r api)
    (hchannel : q.channel = p.channel) (howner : q.owner = p.owner)
    (hlog : w.registry.log ⊆ w'.registry.log)
    (hhandlers : w'.handler? p.owner = w.handler? p.owner) :
    w'.Claimed q r api := by
  obtain ⟨channel, owner, token, warnings⟩ := p
  obtain ⟨channel', owner', token', warnings'⟩ := q
  dsimp only at hchannel howner hhandlers
  subst hchannel howner
  exact {
    lanes := fun l hl => (h.lanes l hl).mono hlog
    events := fun d hd event hevent =>
      (h.events d hd event hevent).imp_right (Registry.contains_of_subset hlog)
    own := fun d hd hempty => by
      obtain ⟨hmethods, hevent⟩ := (h.own d hd hempty).later hlog hhandlers
      exact ⟨hmethods, hevent⟩ }

variable {c : Connecting} {answered : Option Descriptor}

/-- A request that ends as a session has claimed its own API with that. -/
theorem finishConnect_claims
    (hlanes : ∀ l ∈ namespaceLanes c.pass c.resolved.namespaceConfig ++
      storeLanes c.pass c.resolved.store, l.Claimed w.registry)
    (hevents : ∀ d ∈ answered, ∀ event ∈ d.events.entries,
      c.resolved.ignoredEvents.contains event.1 = true ∨
        w.registry.contains c.pass.componentScope .listener event.1 = true)
    (api : Option ServerApi) :
    (w.finishConnect c api).Claimed c.pass c.resolved answered := by
  have hlog : w.registry.log ⊆ (w.finishConnect c api).registry.log :=
    (finishConnect_makes w c api).registered fun _ hc => hc
  obtain ⟨handle, heq⟩ := finishConnect_eq w c api
  have hover : Makes Change.Concludes (w.bindOwnApi c).1 (w.finishConnect c api) := by
    rw [heq]
    exact .more _ (.more _ (.one (.track _) trivial) trivial) trivial
  exact {
    lanes := fun l hl => (hlanes l hl).mono hlog
    events := fun d hd event hevent =>
      (hevents d hd event hevent).imp_right (Registry.contains_of_subset hlog)
    own := fun d hd hempty => by
      have hown : c.resolved.clientApi = some d := hd
      refine Answers.later (w := (w.bindOwnApi c).1) ?_ (hover.registered fun _ hc => hc)
        (hover.handler?_eq _)
      simp only [bindOwnApi, hown]
      exact bindClientApi_answers w c.pass hempty _ c.wired }

theorem bindOwnApi_of_claimed (h : w.Claimed c.pass c.resolved answered) :
    Makes Change.Quiet w (w.bindOwnApi c).1 := by
  unfold bindOwnApi
  split
  · exact .nothing
  · rename_i d hd
    exact bindClientApi_of_answers (h.own d hd) c.wired

end World

end Patchbay
