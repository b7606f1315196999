import Patchbay.Proofs.Engine.Connections

/-!
What a wiring pass and the negotiation of APIs attach. All they do is one of a few changes: only a
claim registers anything, and each listener and emitBack that is added is on the list of what can be
undone.
-/

namespace Patchbay

namespace World

/-- What a pass does change by change, and what it can undo at the end when that was `held` before.
Its claims are in scopes that `S` allows. -/
inductive Attaches (p : Pass) (S : Scope → Prop) (held : List Detach) (w : World) :
    List Detach → World → Prop
  | nothing (hopened : w.Opened p.channel.connection) : Attaches p S held w held w
  | quiet {items : List Detach} {w' : World} (ch : Change) (h : Attaches p S held w items w')
      (hch : ch.Quiet) : Attaches p S held w items (w'.apply ch)
  | claim {items : List Detach} {w' : World} {scope : Scope} (b : Binding)
      (h : Attaches p S held w items w') (hscope : S scope) :
      Attaches p S held w items (w'.apply (.register scope b p.id))
  | hear {items : List Detach} {w' : World} {c : Connection} (event : String) {action : Reaction}
      (haction : action.Plain) (h : Attaches p S held w items w')
      (hc : w'.connection? p.channel.connection = some c) :
      Attaches p S held w (items ++ [.listener p.channel.connection c.listeners.next])
        (w'.apply (.listen p.channel.connection event action false))
  | employ {items : List Detach} {w' : World} {c : Connection} {worker : Worker}
      (hworker : worker.Starts) (h : Attaches p S held w items w')
      (hc : w'.connection? p.channel.connection = some c) :
      Attaches p S held w (items ++ [.listener p.channel.connection c.listeners.next])
        (w'.apply (.attachWorker worker p.channel.connection))
  | send {items : List Detach} {w' : World} (back : EmitBack) (path : String)
      (h : Attaches p S held w items w') :
      Attaches p S held w (items ++ [.token w'.tokens]) (w'.apply (.attachBack back path))

/-- A way to attach one binding, with what it takes to undo that. -/
def Attacher (p : Pass) (attach : World → Binding → World × List (Subscription Detach)) : Prop :=
  ∀ {S held w items w'} (b : Binding), Attaches p S held w items w' →
    Attaches p S held w (items ++ (attach w' b).2.filterMap (·.undo)) (attach w' b).1

namespace Attaches

variable {p : Pass} {S : Scope → Prop} {held items items' : List Detach} {w w' w'' : World}
  {scope : Scope} {wired : Wired}

theorem opened (h : Attaches p S held w items w') : w'.Opened p.channel.connection := by
  induction h with
  | nothing hopened => exact hopened
  | quiet ch _ _ ih => exact ih.apply ch
  | claim _ _ _ ih => exact ih.apply _
  | hear _ _ _ _ ih => exact ih.apply _
  | employ _ _ _ ih => exact ih.apply _
  | send _ _ _ ih => exact ih.apply _

theorem congr (h : Attaches p S held w items w') (heq : items = items') :
    Attaches p S held w items' w' :=
  heq ▸ h

theorem quiets (h : Attaches p S held w items w') (hquiet : Makes Change.Quiet w' w'') :
    Attaches p S held w items w'' :=
  hquiet.keeps (fun _ ch hch hw => .quiet ch hw hch) h

theorem claims {b : Binding} (h : Attaches p S held w items w') (hscope : S scope)
    (hclaim : w'.claim p scope b = (w'', true)) : Attaches p S held w items w'' := by
  rw [claim_eq hclaim]
  exact .claim b h hscope

theorem refused {b : Binding} (h : Attaches p S held w items w')
    (hclaim : w'.claim p scope b = (w'', false)) : Attaches p S held w items w'' :=
  (claim_refused hclaim).1 ▸ h

theorem listen (h : Attaches p S held w items w') (event : String) {action : Reaction}
    (haction : action.Plain) :
    Attaches p S held w
      (items ++ [.listener p.channel.connection (w'.listen p.channel.connection event action).2])
      (w'.listen p.channel.connection event action).1 := by
  obtain ⟨c, hc⟩ := h.opened
  have hid : (w'.listen p.channel.connection event action).2 = c.listeners.next := by
    simp only [World.listen, hc, Listeners.add]
  rw [listen_eq, hid]
  exact .hear event haction h hc

theorem makes (h : Attaches p S held w items w') : Makes Change.Wires w w' := by
  induction h with
  | nothing => exact .nothing
  | quiet ch _ hch ih => exact .more ch ih hch.basic.wires
  | claim _ _ _ ih => exact .more _ ih trivial
  | hear _ haction _ _ ih => exact .more _ ih (Change.Basic.wires (Change.basic_listen haction))
  | employ hworker _ _ ih => exact .more _ ih hworker
  | send _ _ _ ih => exact .more _ ih trivial

/-! Bindings -/

theorem attachListener (h : Attaches p S held w items w') (b : Binding) (sink : Sink) :
    Attaches p S held w (items ++ [(w'.attachListener p b sink).2].filterMap (·.undo))
      (w'.attachListener p b sink).1 := by
  obtain ⟨mid, hmid, heq, hid⟩ := attachListener_eq w' p b sink
  obtain ⟨c, hc⟩ := (h.quiets hmid).opened
  rw [heq, hid c hc]
  exact .employ ⟨rfl, rfl⟩ (h.quiets hmid) hc

theorem attachEmitBack (h : Attaches p S held w items w') (b : Binding) (place : Place) :
    Attaches p S held w (items ++ [(w'.attachEmitBack p b place).2].filterMap (·.undo))
      (w'.attachEmitBack p b place).1 := by
  rw [attachEmitBack_eq, attachEmitBack_token]
  exact .send (w'.emitBackOf p b place) b.sourceOrAction (h.quiets (resolveHooks_quiet w' p b))

/-- Attaching one binding after the other. -/
theorem attachAll {attach : World → Binding → World × List (Subscription Detach)}
    (hattach : Attacher p attach) (h : Attaches p S held w items w') (hscope : S scope)
    (bindings : List Binding) :
    Attaches p S held w (items ++ (w'.attachAll p scope attach bindings).2.items)
      (w'.attachAll p scope attach bindings).1 := by
  induction bindings generalizing items w' with
  | nil => exact h.congr (by simp [World.attachAll, Wired.items])
  | cons b rest ih =>
    unfold World.attachAll
    split
    · rename_i hclaim
      exact ih (h.refused hclaim)
    · rename_i claimed hclaim
      refine (ih (hattach b (h.claims hscope hclaim))).congr ?_
      simp [Wired.items, Wired.append]

/-- Attaching one thing after the other. -/
theorem foldl {α : Type} {f : World × Wired → α → World × Wired}
    (hf : ∀ acc a, Attaches p S held w acc.2.items acc.1 →
      Attaches p S held w (f acc a).2.items (f acc a).1)
    (things : List α) (acc : World × Wired) (h : Attaches p S held w acc.2.items acc.1) :
    Attaches p S held w (things.foldl f acc).2.items (things.foldl f acc).1 := by
  induction things generalizing acc with
  | nil => exact h
  | cons a rest ih => exact ih _ (hf acc a h)

/-! Passes -/

theorem wireStatus (hopened : w.Opened p.channel.connection) (key url : String) :
    Attaches p S [] w (w.wireStatus p key url).2.items (w.wireStatus p key url).1 := by
  unfold World.wireStatus
  split
  · exact .nothing hopened
  · have hmerged : Attaches p S [] w [] (w.merge (.component p.owner) key (statusFields url)) :=
      .quiet (.set _ key _) (.nothing hopened) trivial
    refine foldl ?_ statusEvents (_, {}) hmerged
    intro acc entry hacc
    exact (hacc.listen entry.1 (by trivial)).congr
      (by simp [Wired.items, Wired.append, Subscription.new])

theorem wireNamespace {c : NamespaceConfig} {attached : Wired} (h : Attaches p S held w items w')
    (hscope : S p.componentScope) (hwire : w'.wireNamespace p c = (w'', .ok attached)) :
    Attaches p S held w (items ++ attached.items) w'' := by
  obtain ⟨rfl, hitems⟩ := wireNamespace_lists hwire
  have hemitter : Attacher p fun w b => (w.attachEmitter p b, []) := fun b hw =>
    (hw.quiets (attachEmitter_quiet _ p b)).congr (by simp)
  have hlistener : Attacher p fun w b => (w.attachListener p b (.data p.owner)).map id ([·]) :=
    fun b hw => hw.attachListener b _
  have hback : Attacher p fun w b => (w.attachEmitBack p b (.component p.owner)).map id ([·]) :=
    fun b hw => hw.attachEmitBack b _
  have hall := attachAll hback (attachAll hlistener (attachAll hemitter h hscope
    (Directive.compileAll .emitter c.emitters).1) hscope
    (Directive.compileAll .listener c.listeners).1) hscope
    (Directive.compileAll .emitBack c.emitBacks).1
  refine hall.congr ?_
  rw [hitems, List.append_assoc, List.append_assoc]

theorem attachStore (area : StoreArea) : Attacher p (World.attachStore p area) := by
  intro S held w items w' b h
  cases area with
  | actions => exact (h.quiets (warnIf_quiet w' _ _)).attachListener b _
  | mutations => exact (h.quiets (warnIf_quiet w' _ _)).attachListener b _
  | emitBacks => exact h.attachEmitBack b _

theorem wireArea (h : Attaches p S held w items w') (c : StoreWiring) {area : StoreArea}
    (hscope : S (p.storeScope area)) :
    Attaches p S held w (items ++ (w'.wireArea p c area).2.items) (w'.wireArea p c area).1 :=
  attachAll (attachStore area) h hscope _

theorem wireStore {c : StoreWiring} {attached : Wired} (h : Attaches p S held w items w')
    (hscope : ∀ area, S (p.storeScope area)) (hwire : w'.wireStore p c = (w'', .ok attached)) :
    Attaches p S held w (items ++ attached.items) w'' := by
  obtain ⟨rfl, hitems⟩ := wireStore_areas hwire
  refine (((h.wireArea c (hscope .actions)).wireArea c (hscope .mutations)).wireArea c
    (hscope .emitBacks)).congr ?_
  rw [hitems, List.append_assoc, List.append_assoc]

/-! Negotiated APIs -/

theorem bindServerApi (h : Attaches p S held w wired.items w') (hscope : S p.componentScope)
    (ignored : List String) (d : Descriptor) :
    Attaches p S held w (w'.bindServerApi p ignored d wired).2.1.items
      (w'.bindServerApi p ignored d wired).1 := by
  have hevent (acc : World × Wired) (entry : String × EventShape)
      (hacc : Attaches p S held w acc.2.items acc.1) :
      Attaches p S held w (bindEvent p ignored acc entry).2.items
        (bindEvent p ignored acc entry).1 := by
    simp only [bindEvent]
    split
    · exact hacc
    · split
      · rename_i hclaim
        exact hacc.refused hclaim
      · rename_i claimed hclaim
        obtain ⟨mid, hmid, heq⟩ := attachEvent_eq claimed p entry.1 entry.2
        rw [heq]
        exact (((hacc.claims hscope hclaim).quiets hmid).listen entry.1 (by trivial)).congr
          (by simp [addSubscription, Wired.items, Wired.append, Subscription.new])
  have hevents := foldl hevent d.events.entries (_, wired) (h.quiets (initMethods_quiet w' p d))
  exact .quiet (.setServerApi _ _) hevents trivial

theorem publish (h : Attaches p S held w wired.items w') (hscope : S p.componentScope)
    (d : Descriptor) (event : String) :
    Attaches p S held w (w'.publish p d event wired).2.items (w'.publish p d event wired).1 := by
  simp only [World.publish]
  split
  · rename_i hclaim
    exact h.refused hclaim
  · rename_i claimed hclaim
    exact ((h.claims hscope hclaim).listen event (by trivial)).congr
      (by simp [addSubscription, Wired.items, Wired.append, Subscription.new])

theorem bindClientApi (h : Attaches p S held w wired.items w') (hscope : S p.componentScope)
    (d : Descriptor) (event : String) :
    Attaches p S held w (w'.bindClientApi p d event wired).2.items
      (w'.bindClientApi p d event wired).1 := by
  have hmethod (acc : World × Wired) (name : String)
    (hacc : Attaches p S held w acc.2.items acc.1) :
      Attaches p S held w (bindMethod p acc name).2.items (bindMethod p acc name).1 := by
    simp only [bindMethod]
    split
    · exact hacc.quiets (warnIf_quiet ..)
    · split
      · rename_i hclaim
        exact hacc.refused hclaim
      · rename_i claimed hclaim
        exact ((hacc.claims hscope hclaim).listen name (by trivial)).congr
          (by simp [addSubscription, Wired.items, Wired.append, Subscription.new])
  cases hd : d.isEmpty with
  | true =>
    rw [bindClientApi_of_isEmpty hd]
    exact h
  | false =>
    rw [bindClientApi_eq hd]
    have hmethods := foldl hmethod d.methods.keys (w', wired) h
    have hhelpers := hmethods.quiets (Makes.foldl (bindHelper_quiet p d) d.events.keys _)
    exact .quiet (.setClientApi _ _) (hhelpers.publish hscope d event) trivial

/-! Connect requests -/

variable {c : Connecting}

theorem bindOwnApi (h : Attaches c.pass S held w c.wired.items w')
    (hscope : S c.pass.componentScope) :
    Attaches c.pass S held w (w'.bindOwnApi c).2.items (w'.bindOwnApi c).1 := by
  unfold World.bindOwnApi
  split
  · exact h
  · exact h.bindClientApi hscope _ _

/-- A connect request wires the namespace and the store until a source is missing, and goes on when
none is. -/
theorem connectNamespace (h : Attaches c.pass S held w c.wired.items w')
    (hcomponent : S c.pass.componentScope) (hstore : ∀ area, S (c.pass.storeScope area)) :
    ∃ wired w'', Attaches c.pass S held w wired.items w'' ∧
      ((∃ error, w'.connectNamespace c = w''.failConnect { c with wired } error) ∨
        w'.connectNamespace c = w''.askOrFinish { c with wired }) := by
  rcases hnamespace : w'.wireNamespace c.pass c.resolved.namespaceConfig with
    ⟨mid, error | attached⟩
  · exact ⟨c.wired, w', h, .inl ⟨_, connectNamespace_of_error hnamespace⟩⟩
  · have hmid := (h.wireNamespace hcomponent hnamespace).congr (Wired.items_append ..).symm
    rw [connectNamespace_of_ok hnamespace]
    rcases hwire : mid.wireStore c.pass c.resolved.store with ⟨last, error | attached'⟩
    · exact ⟨_, mid, hmid, .inl ⟨_, connectStore_of_error hwire⟩⟩
    · have hwired := (hmid.wireStore hstore hwire).congr (Wired.items_append ..).symm
      exact ⟨_, last, hwired, .inr (connectStore_of_ok hwire)⟩

end Attaches

end World

end Patchbay
