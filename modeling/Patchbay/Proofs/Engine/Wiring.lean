import Patchbay.Proofs.Engine.Transport
import Patchbay.Proofs.Registry.Log

/-! What a wiring pass and the negotiation of APIs do to a world, as primitive changes. -/

namespace Patchbay

namespace Directive

/-- A directive is compiled for one role. -/
theorem role_of_parse {text : String} {role : Role} {b : Binding} (h : parse text role = .ok b) :
    b.role = role := by
  unfold parse at h
  simp only [bind, Except.bind, pure, Except.pure] at h
  repeat' split at h
  all_goals cases h
  all_goals rfl

theorem role_of_mem_compileAll {role : Role} {raws : List Json} {b : Binding}
    (h : b ∈ (compileAll role raws).1) : b.role = role := by
  induction raws with
  | nil => cases h
  | cons raw rest ih =>
    simp only [compileAll] at h
    split at h
    · rename_i binding hcompile
      rcases List.mem_cons.1 h with rfl | h
      · unfold compile at hcompile
        split at hcompile
        · exact role_of_parse hcompile
        · cases hcompile
      · exact ih h
    · exact ih h

end Directive

/-- What a wiring pass can undo. -/
def Wired.items (wired : Wired) : List Detach := wired.subscriptions.filterMap (·.undo)

@[simp] theorem Wired.items_append (a b : Wired) : (a.append b).items = a.items ++ b.items := by
  simp [items, append]

/-- The bindings of one area that compile, in their order. -/
def StoreWiring.compiled (c : StoreWiring) : StoreArea → List Binding
  | .actions => (Directive.compileAll .listener c.actions).1
  | .mutations => (Directive.compileAll .listener c.mutations).1
  | .emitBacks => (Directive.compileAll .emitBack c.emitBacks).1

/-- What the bindings of an area do. -/
def StoreArea.role : StoreArea → Role
  | .emitBacks => .emitBack
  | _ => .listener

theorem StoreWiring.role_of_mem_compiled {c : StoreWiring} {area : StoreArea} {b : Binding}
    (h : b ∈ c.compiled area) : b.role = area.role := by
  cases area <;> exact Directive.role_of_mem_compileAll h

/-- A worker starts with nothing to do, and something to feed it. -/
def Worker.Starts (worker : Worker) : Prop := worker.queue = [] ∧ worker.fed = true

/-- A wiring pass also starts workers and emitBacks. -/
def Change.Wires : Change → Prop
  | .attachBack .. => True
  | .attachWorker worker _ => worker.Starts
  | c => c.Binds

theorem Change.Binds.wires {c : Change} (h : c.Binds) : c.Wires := by
  cases c <;> first | exact h | exact h.elim

theorem Change.Wires.among {c : Change} (h : c.Wires) :
    c.Among ([.attachBack, .attachWorker, .register] ++ Kind.basic) := by
  cases c <;> first | exact trivial | exact (show Change.Binds _ from h).mono rfl

theorem Change.Basic.wires {c : Change} (h : c.Basic) : c.Wires := h.binds.wires

/-- A listener may come with the worker it feeds. -/
def Change.Employs : Change → Prop
  | .attachWorker worker _ => worker.Starts
  | c => c.Basic

theorem Change.Basic.employs {c : Change} (h : c.Basic) : c.Employs := by
  cases c <;> first | exact h | exact h.elim

theorem Change.Employs.wires {c : Change} (h : c.Employs) : c.Wires := by
  cases c <;> first | exact h | exact Change.Basic.wires h

theorem Change.Employs.among {c : Change} (h : c.Employs) :
    c.Among (.attachWorker :: Kind.basic) := by
  cases c <;> first | exact trivial | exact h.elim | exact (show Change.Basic _ from h).mono rfl

namespace World

variable {P : Change → Prop}

theorem warnIf_quiet (w : World) (on : Bool) (warning : Warning) :
    Makes Change.Quiet w (w.warnIf on warning) := by
  unfold warnIf
  split
  · exact .one (.record _) trivial
  · exact .nothing

theorem warnIf_makes (w : World) (on : Bool) (warning : Warning) :
    Makes Change.Basic w (w.warnIf on warning) :=
  (warnIf_quiet ..).mono fun _ hc => hc.basic

theorem claim_eq {w w' : World} {p : Pass} {scope : Scope} {b : Binding} {granted : Bool}
    (h : w.claim p scope b = (w', granted)) : w' = w.apply (.register scope b p.id) :=
  congrArg Prod.fst h.symm

/-- A claim is granted where its scope has none like it, and is then the newest registration. -/
theorem claim_granted {w w' : World} {p : Pass} {scope : Scope} {b : Binding}
    (h : w.claim p scope b = (w', true)) : w.registry.contains scope b.role b.action = false ∧
      w'.registry.log = w.registry.log ++ [⟨scope, b, p.id⟩] := by
  cases hcontains : w.registry.contains scope b.role b.action with
  | true =>
    rw [claim, Registry.register_of_contains hcontains] at h
    cases h
  | false =>
    obtain ⟨reg, hmade, hlog⟩ := Registry.register_of_free hcontains p.id
    rw [claim, hmade] at h
    cases h
    exact ⟨rfl, hlog⟩

theorem claim_of_contains {w : World} {p : Pass} {scope : Scope} {b : Binding}
    (h : w.registry.contains scope b.role b.action = true) : w.claim p scope b = (w, false) := by
  rw [claim, Registry.register_of_contains h]
  rfl

/-- A claim that is refused changes nothing. -/
theorem claim_refused {w w' : World} {p : Pass} {scope : Scope} {b : Binding}
    (h : w.claim p scope b = (w', false)) :
    w' = w ∧ w.registry.contains scope b.role b.action = true := by
  cases hcontains : w.registry.contains scope b.role b.action with
  | true => exact ⟨(congrArg Prod.fst ((claim_of_contains hcontains).symm.trans h)).symm, rfl⟩
  | false =>
    obtain ⟨reg, hmade, -⟩ := Registry.register_of_free hcontains p.id
    rw [claim, hmade] at h
    cases h

theorem resolveHook_quiet (w : World) (p : Pass) (name : Option String) :
    Makes Change.Quiet w (w.resolveHook p name).1 := by
  unfold resolveHook
  split
  · exact .nothing
  · split
    · exact .nothing
    · exact warnIf_quiet ..

theorem resolveHooks_quiet (w : World) (p : Pass) (b : Binding) :
    Makes Change.Quiet w (w.resolveHooks p b).1 :=
  (resolveHook_quiet w p b.pre).trans (resolveHook_quiet _ p b.post)

theorem resolveHooks_makes (w : World) (p : Pass) (b : Binding) :
    Makes Change.Basic w (w.resolveHooks p b).1 :=
  (resolveHooks_quiet w p b).mono fun _ hc => hc.basic

theorem setDefault_quiet (w : World) (place : Place) (path : String) (v : Json) :
    Makes Change.Quiet w (w.setDefault place path v) := by
  unfold setDefault Tree.setDefault
  split
  · exact .one (.touch place) trivial
  · exact .one (.set place path v) trivial

theorem wireStatus_makes (w : World) (p : Pass) (key url : String) :
    Makes Change.Basic w (w.wireStatus p key url).1 := by
  unfold wireStatus
  split
  · exact .nothing
  · have hmerge : Makes Change.Basic w (w.merge (.component p.owner) key (statusFields url)) :=
      .one (.set _ key _) trivial
    refine hmerge.trans ?_
    generalize w.merge (.component p.owner) key (statusFields url) = start
    generalize ({} : Wired) = wired
    generalize statusEvents = events
    induction events generalizing start wired with
    | nil => exact .nothing
    | cons entry rest ih => exact (listen_makes start _ _ (by trivial) false).trans (ih _ _)

theorem attachEmitter_quiet (w : World) (p : Pass) (b : Binding) :
    Makes Change.Quiet w (w.attachEmitter p b) :=
  .more (.insertCallable _ _ _) (resolveHooks_quiet w p b) trivial

theorem attachEmitter_makes (w : World) (p : Pass) (b : Binding) :
    Makes Change.Basic w (w.attachEmitter p b) :=
  (attachEmitter_quiet w p b).mono fun _ hc => hc.basic

/-- The worker of a binding's listener. -/
def workerOf (w : World) (p : Pass) (b : Binding) (sink : Sink) : Worker :=
  { event := b.action, target := b.targetOrAction, sink
    hooks := ((w.warnIf (p.warnings && w.hears p.channel.connection b.action)
      (.listenerAttached b.action)).resolveHooks p b).2
    token := p.token }

/-- A listener starts with its worker, and is known by the next number of its connection. -/
theorem attachListener_eq (w : World) (p : Pass) (b : Binding) (sink : Sink) :
    ∃ mid, Makes Change.Quiet w mid ∧ (w.attachListener p b sink).1 =
        mid.apply (.attachWorker (w.workerOf p b sink) p.channel.connection) ∧
      ∀ c, mid.connection? p.channel.connection = some c →
        (w.attachListener p b sink).2 = .new (.listener p.channel.connection c.listeners.next) := by
  have hwarned := warnIf_quiet w (p.warnings && w.hears p.channel.connection b.action)
    (.listenerAttached b.action)
  refine ⟨_, hwarned.trans (resolveHooks_quiet _ p b), ?_, ?_⟩
  · simp only [attachListener, listen_eq]
    rfl
  · intro c hc
    simp only [attachListener, World.listen]
    split
    · rename_i hnone
      exact absurd (hnone.symm.trans hc) nofun
    · rename_i c' hc'
      obtain rfl : c' = c := Option.some.inj (hc'.symm.trans hc)
      rfl

theorem attachListener_makes (w : World) (p : Pass) (b : Binding) (sink : Sink) :
    Makes Change.Employs w (w.attachListener p b sink).1 := by
  obtain ⟨mid, hmid, heq, -⟩ := attachListener_eq w p b sink
  rw [heq]
  exact .more _ (hmid.mono fun _ hc => hc.basic.employs) ⟨rfl, rfl⟩

/-- The emitBack of a binding. Its watch and its own token come with its start. -/
def emitBackOf (w : World) (p : Pass) (b : Binding) (place : Place) : EmitBack :=
  { channel := p.channel, event := b.action, place, watch := 0
    validator := (w.resolveHooks p b).2.pre, post := (w.resolveHooks p b).2.post
    token := p.token, own := 0 }

theorem attachEmitBack_eq (w : World) (p : Pass) (b : Binding) (place : Place) :
    (w.attachEmitBack p b place).1 = (w.resolveHooks p b).1.apply
      (.attachBack (w.emitBackOf p b place) b.sourceOrAction) := rfl

/-- It is known by its own token. -/
theorem attachEmitBack_token (w : World) (p : Pass) (b : Binding) (place : Place) :
    (w.attachEmitBack p b place).2 = .new (.token (w.resolveHooks p b).1.tokens) := by
  have htokens (w : World) (path : String) : (w.watch place path).1.tokens = w.tokens := by
    cases place <;> rfl
  exact congrArg (fun t => Subscription.new (Detach.token t)) (htokens _ _)

theorem attachEmitBack_makes (w : World) (p : Pass) (b : Binding) (place : Place) :
    Makes Change.Wires w (w.attachEmitBack p b place).1 := by
  rw [attachEmitBack_eq]
  exact .more _ ((resolveHooks_makes w p b).mono fun _ hc => hc.wires) trivial

theorem attachAll_makes {p : Pass} {scope : Scope}
    {attach : World → Binding → World × List (Subscription Detach)}
    (hattach : ∀ w b, Makes Change.Wires w (attach w b).1) (w : World) (bindings : List Binding) :
    Makes Change.Wires w (w.attachAll p scope attach bindings).1 := by
  induction bindings generalizing w with
  | nil => exact .nothing
  | cons b rest ih =>
    unfold attachAll
    split
    · rename_i refused hclaim
      obtain ⟨rfl, -⟩ := claim_refused hclaim
      exact ih refused
    · rename_i claimed hclaim
      rw [claim_eq hclaim]
      exact ((Makes.one _ trivial).trans (hattach _ b)).trans (ih _)

/-- What every granted claim with its attachment keeps, the whole pass keeps. -/
theorem attachAll_keeps {p : Pass} {scope : Scope}
    {attach : World → Binding → World × List (Subscription Detach)} {I : World → Prop}
    {bindings : List Binding}
    (hattach : ∀ w w' b, b ∈ bindings → I w → w.claim p scope b = (w', true) → I (attach w' b).1)
    {w : World} (h : I w) : I (w.attachAll p scope attach bindings).1 := by
  induction bindings generalizing w with
  | nil => exact h
  | cons b rest ih =>
    have hrest {w : World} (hw : I w) : I (w.attachAll p scope attach rest).1 :=
      ih (fun w w' b hb => hattach w w' b (List.mem_cons_of_mem _ hb)) hw
    unfold attachAll
    split
    · rename_i refused hclaim
      obtain ⟨rfl, -⟩ := claim_refused hclaim
      exact hrest h
    · rename_i claimed hclaim
      exact hrest (hattach w claimed b List.mem_cons_self h hclaim)

/-- The namespace is wired list by list. -/
theorem wireNamespace_lists {w w' : World} {p : Pass} {c : NamespaceConfig} {wired : Wired}
    (h : w.wireNamespace p c = (w', .ok wired)) :
    let first := w.attachAll p p.componentScope (fun w b => (w.attachEmitter p b, []))
      (Directive.compileAll .emitter c.emitters).1
    let second := first.1.attachAll p p.componentScope
      (fun w b => (w.attachListener p b (.data p.owner)).map id ([·]))
      (Directive.compileAll .listener c.listeners).1
    let third := second.1.attachAll p p.componentScope
      (fun w b => (w.attachEmitBack p b (.component p.owner)).map id ([·]))
      (Directive.compileAll .emitBack c.emitBacks).1
    w' = third.1 ∧ wired.items = first.2.items ++ (second.2.items ++ third.2.items) := by
  simp only [wireNamespace] at h
  split at h
  · cases h
  · obtain ⟨rfl, hwired⟩ := Prod.mk.inj h
    obtain rfl := Except.ok.inj hwired
    refine ⟨rfl, ?_⟩
    simp only [Wired.items_append]
    rfl

/-- A pass that fails changes nothing: it looks for its sources before it attaches anything. -/
theorem wireNamespace_of_error {w w' : World} {p : Pass} {c : NamespaceConfig} {e : BindingError}
    (h : w.wireNamespace p c = (w', .error e)) : w' = w := by
  simp only [wireNamespace] at h
  split at h
  · exact (congrArg Prod.fst h).symm
  · cases congrArg Prod.snd h

theorem wireNamespace_makes {w w' : World} {p : Pass} {c : NamespaceConfig} {wired : Wired}
    (h : w.wireNamespace p c = (w', .ok wired)) : Makes Change.Wires w w' := by
  obtain ⟨rfl, -⟩ := wireNamespace_lists h
  refine ((attachAll_makes ?_ w _).trans (attachAll_makes ?_ _ _)).trans (attachAll_makes ?_ _ _)
  · intro w b
    exact (attachEmitter_makes w p b).mono fun _ hc => hc.wires
  · intro w b
    exact (attachListener_makes w p b _).mono fun _ hc => hc.wires
  · intro w b
    exact attachEmitBack_makes w p b _

/-- How a binding of the store is attached. -/
def attachStore (p : Pass) : StoreArea → World → Binding → World × List (Subscription Detach)
  | .actions, w, b => ((w.warnIf (p.warnings && !Fields.contains b.targetOrAction w.store.actions)
      (.actionNotFound b.targetOrAction)).attachListener p b .dispatch).map id ([·])
  | .mutations, w, b =>
    ((w.warnIf (p.warnings && !Fields.contains b.targetOrAction w.store.mutations)
      (.mutationNotFound b.targetOrAction)).attachListener p b .commit).map id ([·])
  | .emitBacks, w, b => (w.attachEmitBack p b .store).map id ([·])

/-- The wiring of one area of the store. -/
def wireArea (w : World) (p : Pass) (c : StoreWiring) (area : StoreArea) : World × Wired :=
  w.attachAll p (p.storeScope area) (attachStore p area) (c.compiled area)

/-- The store is wired area by area. -/
theorem wireStore_areas {w w' : World} {p : Pass} {c : StoreWiring} {wired : Wired}
    (h : w.wireStore p c = (w', .ok wired)) :
    let first := w.wireArea p c .actions
    let second := first.1.wireArea p c .mutations
    let third := second.1.wireArea p c .emitBacks
    w' = third.1 ∧ wired.items = first.2.items ++ (second.2.items ++ third.2.items) := by
  simp only [wireStore] at h
  split at h
  · cases h
  · obtain ⟨rfl, hwired⟩ := Prod.mk.inj h
    obtain rfl := Except.ok.inj hwired
    refine ⟨rfl, ?_⟩
    simp only [Wired.items_append]
    rfl

theorem wireStore_of_error {w w' : World} {p : Pass} {c : StoreWiring} {e : BindingError}
    (h : w.wireStore p c = (w', .error e)) : w' = w := by
  simp only [wireStore] at h
  split at h
  · exact (congrArg Prod.fst h).symm
  · cases congrArg Prod.snd h

theorem attachStore_makes (w : World) (p : Pass) (area : StoreArea) (b : Binding) :
    Makes Change.Wires w (attachStore p area w b).1 := by
  cases area with
  | actions =>
    exact ((warnIf_makes ..).mono fun _ hc => hc.wires).trans
      ((attachListener_makes _ p b _).mono fun _ hc => hc.wires)
  | mutations =>
    exact ((warnIf_makes ..).mono fun _ hc => hc.wires).trans
      ((attachListener_makes _ p b _).mono fun _ hc => hc.wires)
  | emitBacks => exact attachEmitBack_makes w p b _

theorem wireArea_makes (w : World) (p : Pass) (c : StoreWiring) (area : StoreArea) :
    Makes Change.Wires w (w.wireArea p c area).1 :=
  attachAll_makes (fun w b => attachStore_makes w p area b) w _

theorem wireStore_makes {w w' : World} {p : Pass} {c : StoreWiring} {wired : Wired}
    (h : w.wireStore p c = (w', .ok wired)) : Makes Change.Wires w w' := by
  obtain ⟨rfl, -⟩ := wireStore_areas h
  exact ((wireArea_makes w p c _).trans (wireArea_makes _ p c _)).trans (wireArea_makes _ p c _)

theorem detach_makes (w : World) (s : Subscription Detach) :
    Makes Change.Unties w (w.detach s) := by
  unfold detach
  split
  · exact .nothing
  · rename_i serial id _
    exact (Makes.one (P := Change.Unties) (.hush serial _) trivial).trans
      ((removeListeners_eq w serial _).mono fun _ hc => hc.unties)
  · exact .one (.cancel _) trivial

theorem detachAll_makes (w : World) (subscriptions : List (Subscription Detach)) :
    Makes Change.Unties w (w.detachAll subscriptions) :=
  Makes.foldl detach_makes subscriptions w

/-! Negotiated APIs -/

/-- An event of the peer has its slots filled before it is listened to. -/
theorem attachEvent_eq (w : World) (p : Pass) (name : String) (shape : EventShape) :
    ∃ mid, Makes Change.Quiet w mid ∧ w.attachEvent p name shape =
      mid.listen p.channel.connection name (.apiEvent p.owner (eventSlots name shape) p.token) :=
  ⟨_, (Makes.foldl (fun w path => setDefault_quiet w _ path _) _ w).trans (warnIf_quiet ..), rfl⟩

theorem attachEvent_makes (w : World) (p : Pass) (name : String) (shape : EventShape) :
    Makes Change.Basic w (w.attachEvent p name shape).1 := by
  obtain ⟨mid, hmid, heq⟩ := attachEvent_eq w p name shape
  rw [heq]
  exact (hmid.mono fun _ hc => hc.basic).trans (listen_makes _ _ _ (by trivial) _)

theorem bindEvent_makes (p : Pass) (ignored : List String) (acc : World × Wired)
    (entry : String × EventShape) : Makes Change.Binds acc.1 (bindEvent p ignored acc entry).1 := by
  simp only [bindEvent]
  split
  · exact .nothing
  · split
    · rename_i refused hclaim
      obtain ⟨rfl, -⟩ := claim_refused hclaim
      exact .nothing
    · rename_i claimed hclaim
      rw [claim_eq hclaim]
      exact (Makes.one _ trivial).trans ((attachEvent_makes ..).mono fun _ hc => hc.binds)

/-- A fold that carries what was wired along with the world. -/
theorem foldl_fst_makes {α β : Type} {f : World × β → α → World × β}
    (hf : ∀ acc a, Makes P acc.1 (f acc a).1) (items : List α) (acc : World × β) :
    Makes P acc.1 (items.foldl f acc).1 := by
  induction items generalizing acc with
  | nil => exact .nothing
  | cons a rest ih => exact (hf acc a).trans (ih (f acc a))

theorem initMethods_quiet (w : World) (p : Pass) (d : Descriptor) : Makes Change.Quiet w
    (d.methods.entries.foldl (fun w entry => w.initMethod p entry.1 entry.2) w) :=
  Makes.foldl (fun w (_ : String × MethodShape) =>
    (setDefault_quiet w _ _ _).trans (setDefault_quiet _ _ _ _)) _ w

theorem bindServerApi_makes (w : World) (p : Pass) (ignored : List String) (d : Descriptor)
    (wired : Wired) : Makes Change.Binds w (w.bindServerApi p ignored d wired).1 :=
  .more (.setServerApi _ _)
    (((initMethods_quiet w p d).mono fun _ hc => hc.basic.binds).trans
      (foldl_fst_makes (bindEvent_makes p ignored) _ (_, wired))) trivial

theorem bindMethod_makes (p : Pass) (acc : World × Wired) (name : String) :
    Makes Change.Binds acc.1 (bindMethod p acc name).1 := by
  simp only [bindMethod]
  split
  · exact (warnIf_makes ..).mono fun _ hc => hc.binds
  · split
    · rename_i refused hclaim
      obtain ⟨rfl, -⟩ := claim_refused hclaim
      exact .nothing
    · rename_i claimed hclaim
      rw [claim_eq hclaim]
      exact (Makes.one _ trivial).trans
        ((listen_makes _ _ _ (by trivial) _).mono fun _ hc => hc.binds)

theorem bindHelper_quiet (p : Pass) (d : Descriptor) (w : World) (event : String) :
    Makes Change.Quiet w (bindHelper p d w event) := by
  simp only [bindHelper]
  split
  · exact .nothing
  · rename_i defaults _
    have hdefaults : Makes Change.Quiet w
        (if (w.tree (.component p.owner)).contains event then
          defaults.foldl (fun w x => w.setDefault (.component p.owner) (event ++ "." ++ x.1) x.2) w
        else w) := by
      split
      · exact Makes.foldl (fun w (entry : String × Json) => setDefault_quiet w _ _ _) _ w
      · exact .nothing
    generalize (if (w.tree (.component p.owner)).contains event then
      defaults.foldl (fun w x => w.setDefault (.component p.owner) (event ++ "." ++ x.1) x.2) w
      else w) = filled at hdefaults ⊢
    split
    · exact hdefaults
    · exact .more (.insertCallable _ _ _) hdefaults trivial

theorem publish_makes (w : World) (p : Pass) (d : Descriptor) (event : String) (wired : Wired) :
    Makes Change.Binds w (w.publish p d event wired).1 := by
  simp only [publish]
  split
  · rename_i refused hclaim
    obtain ⟨rfl, -⟩ := claim_refused hclaim
    exact .nothing
  · rename_i claimed hclaim
    rw [claim_eq hclaim]
    exact (Makes.one _ trivial).trans
      ((listen_makes _ _ _ (by trivial) _).mono fun _ hc => hc.binds)

theorem bindClientApi_of_isEmpty {d : Descriptor} (hd : d.isEmpty = true) (w : World) (p : Pass)
    (event : String) (wired : Wired) : w.bindClientApi p d event wired = (w, wired) :=
  if_pos hd

/-- If there is anything in the descriptor, its methods are served, its events get their helpers,
and then it is published. -/
theorem bindClientApi_eq {d : Descriptor} (hd : d.isEmpty = false) (w : World) (p : Pass)
    (event : String) (wired : Wired) :
    let bound := d.methods.keys.foldl (bindMethod p) (w, wired)
    let published := (d.events.keys.foldl (bindHelper p d) bound.1).publish p d event bound.2
    w.bindClientApi p d event wired =
      (published.1.apply (.setClientApi p.channel.scope d), published.2) := by
  simp only [bindClientApi, hd]
  rfl

theorem bindClientApi_makes (w : World) (p : Pass) (d : Descriptor) (event : String)
    (wired : Wired) : Makes Change.Binds w (w.bindClientApi p d event wired).1 := by
  cases hd : d.isEmpty with
  | true =>
    rw [bindClientApi_of_isEmpty hd]
    exact .nothing
  | false =>
    rw [bindClientApi_eq hd]
    exact .more (.setClientApi _ _)
      (((foldl_fst_makes (bindMethod_makes p) _ (w, wired)).trans
        ((Makes.foldl (bindHelper_quiet p d) _ _).mono fun _ hc => hc.basic.binds)).trans
          (publish_makes ..)) trivial

end World

end Patchbay
