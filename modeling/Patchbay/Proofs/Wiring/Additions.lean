import Patchbay.Proofs.Sessions.FailedConnect

/-!
What attaching bindings adds to a world: a listener for each listener, a watch for each
emitBack, a callable for each emitter, and no more of these anywhere else. The role of a
binding says which of them it is.
-/

namespace Patchbay

namespace World

variable {p : Pass} {place : Place} {w w' w'' : World} {b : Binding} {bs more : List Binding}

/-- The callable of an emitter; hooks without a handler are left out. -/
def callableOf (w : World) (p : Pass) (b : Binding) : Callable :=
  .emitter p.channel b ⟨b.pre.bind (w.handler? p.owner), b.post.bind (w.handler? p.owner)⟩

def emittersOf (bs : List Binding) : List Binding := bs.filter (·.role = .emitter)
def listenersOf (bs : List Binding) : List Binding := bs.filter (·.role = .listener)
def backsOf (bs : List Binding) : List Binding := bs.filter (·.role = .emitBack)

/-- What a world has more when these bindings were attached, with the watches in the tree of that
place. -/
structure Adds (p : Pass) (place : Place) (bs : List Binding) (w w' : World) : Prop where
  /-- Each listener is heard by one listener more, which feeds a worker of the pass. -/
  heard : ∃ new : List (Listener Reaction),
    w'.listenersOn p.channel.connection = w.listenersOn p.channel.connection ++ new ∧
      new.map (·.event) = (listenersOf bs).map (·.action) ∧
        ∀ l ∈ new, l.once = false ∧ ∃ worker, l.action = .enqueue worker p.token
  unheard : ∀ n ≠ p.channel.connection, w'.listenersOn n = w.listenersOn n
  /-- Each emitBack has one watch more, at its source. -/
  watched : ∃ new : List Watch, (w'.tree place).watches = (w.tree place).watches ++ new ∧
    new.map (·.path) = (backsOf bs).map fun b => .ofString b.sourceOrAction
  root : (w'.tree place).root = (w.tree place).root
  unwatched : ∀ other ≠ place, w'.tree other = w.tree other
  /-- Each emitter has its callable, in the place of an older one of that name. -/
  callables : (w'.component p.owner).callables = (emittersOf bs).foldl
    (fun cs b => Fields.insert b.action (w.callableOf p b) cs) (w.component p.owner).callables
  uncalled : ∀ id ≠ p.owner, (w'.component id).callables = (w.component id).callables
  handlers : ∀ id, (w'.component id).handlers = (w.component id).handlers

namespace Adds

theorem nothing (hcomponents : w'.components = w.components) (hstore : w'.store = w.store)
    (hconnections : w'.connections = w.connections) : Adds p place [] w w' := by
  have hcomponent (id : ComponentId) : w'.component id = w.component id := by
    simp only [component, hcomponents]
  have htree (q : Place) : w'.tree q = w.tree q := by
    cases q <;> simp only [tree, hcomponent, hstore]
  have hheard (n : Nat) : w'.listenersOn n = w.listenersOn n := by
    simp only [listenersOn, connection?, hconnections]
  exact {
    heard := ⟨[], by simp [hheard], rfl, by simp⟩
    unheard := fun n _ => hheard n
    watched := ⟨[], by simp [htree], rfl⟩
    root := by rw [htree]
    unwatched := fun q _ => htree q
    callables := by rw [hcomponent]; rfl
    uncalled := fun id _ => by rw [hcomponent]
    handlers := fun id => by rw [hcomponent] }

theorem callableOf_eq (h : Adds p place bs w w') (b : Binding) :
    w'.callableOf p b = w.callableOf p b := by
  have hhandler : w'.handler? p.owner = w.handler? p.owner := by
    funext name
    simp only [handler?, h.handlers]
  simp only [callableOf, hhandler]

theorem trans (h : Adds p place bs w w') (h' : Adds p place more w' w'') :
    Adds p place (bs ++ more) w w'' where
  heard := by
    obtain ⟨new, hnew, hevents, hactions⟩ := h.heard
    obtain ⟨new', hnew', hevents', hactions'⟩ := h'.heard
    refine ⟨new ++ new', by rw [hnew', hnew, List.append_assoc], ?_, ?_⟩
    · simp [listenersOf, hevents, hevents']
    · intro l hl
      exact (List.mem_append.1 hl).elim (hactions l) (hactions' l)
  unheard n hn := (h'.unheard n hn).trans (h.unheard n hn)
  watched := by
    obtain ⟨new, hnew, hpaths⟩ := h.watched
    obtain ⟨new', hnew', hpaths'⟩ := h'.watched
    exact ⟨new ++ new', by rw [hnew', hnew, List.append_assoc], by simp [backsOf, hpaths, hpaths']⟩
  root := h'.root.trans h.root
  unwatched q hq := (h'.unwatched q hq).trans (h.unwatched q hq)
  callables := by
    have hsame : w'.callableOf p = w.callableOf p := funext h.callableOf_eq
    simp only [h'.callables, hsame, h.callables, emittersOf, List.filter_append, List.foldl_append]
  uncalled id hid := (h'.uncalled id hid).trans (h.uncalled id hid)
  handlers id := (h'.handlers id).trans (h.handlers id)

end Adds

/-! ### One binding -/

theorem warnIf_trace (w : World) (on : Bool) (warning : Warning) :
    ∃ trace, w.warnIf on warning = { w with trace } := by
  unfold warnIf
  split
  · exact ⟨_, rfl⟩
  · exact ⟨w.trace, rfl⟩

theorem resolveHook_trace (w : World) (p : Pass) (name : Option String) :
    ∃ trace, w.resolveHook p name = ({ w with trace }, name.bind (w.handler? p.owner)) := by
  unfold resolveHook
  cases name with
  | none => exact ⟨w.trace, rfl⟩
  | some name =>
    simp only [Option.bind_some]
    cases hfound : w.handler? p.owner name with
    | some hook => exact ⟨w.trace, rfl⟩
    | none =>
      obtain ⟨trace, htrace⟩ := warnIf_trace w p.warnings (.hookNotFound name)
      exact ⟨trace, by rw [← htrace]⟩

/-- Looking up hooks leaves remarks in the trace, and nothing else. -/
theorem resolveHooks_trace (w : World) (p : Pass) (b : Binding) :
    ∃ trace, w.resolveHooks p b = ({ w with trace },
      ⟨b.pre.bind (w.handler? p.owner), b.post.bind (w.handler? p.owner)⟩) := by
  obtain ⟨first, hfirst⟩ := resolveHook_trace w p b.pre
  obtain ⟨second, hsecond⟩ := resolveHook_trace { w with trace := first } p b.post
  refine ⟨second, ?_⟩
  simp only [resolveHooks, hfirst, hsecond]
  rfl

/-- A binding is attached, and nothing is registered with that. -/
structure Fastens (p : Pass) (place : Place) (b : Binding) (w w' : World) : Prop where
  adds : Adds p place [b] w w'
  registry : w'.registry = w.registry
  opened : w'.Opened p.channel.connection

theorem Fastens.after_trace {trace : List Event} (h : Fastens p place b { w with trace } w') :
    Fastens p place b w w' where
  adds := by
    have hstart : Adds p place [] w { w with trace } := .nothing rfl rfl rfl
    exact hstart.trans h.adds
  registry := h.registry
  opened := h.opened

theorem tree_insertCallable (w : World) (id : ComponentId) (name : String) (c : Callable)
    (q : Place) :
    (w.insertCallable id name c).tree q = w.tree q := by
  unfold insertCallable
  exact tree_setComponent (by rfl) q

theorem fastens_insertCallable (hopened : w.Opened p.channel.connection)
    (hrole : b.role = .emitter) :
    Fastens p place b w (w.insertCallable p.owner b.action (w.callableOf p b)) where
  adds := {
    heard := ⟨[], (List.append_nil _).symm, by simp [listenersOf, hrole], by simp⟩
    unheard := fun _ _ => rfl
    watched := by
      refine ⟨[], ?_, by simp [backsOf, hrole]⟩
      rw [tree_insertCallable, List.append_nil]
    root := by rw [tree_insertCallable]
    unwatched := fun q _ => by rw [tree_insertCallable]
    callables := by simp [insertCallable, component_setComponent, emittersOf, hrole]
    uncalled := fun id hid => by simp [insertCallable, component_setComponent, hid]
    handlers := fun id => by
      simp only [insertCallable, component_setComponent]
      split
      · rename_i hid
        rw [hid]
      · rfl }
  registry := rfl
  opened := hopened

theorem attachEmitter_fastens (hopened : w.Opened p.channel.connection)
    (hrole : b.role = .emitter) :
    Fastens p place b w (w.attachEmitter p b) := by
  obtain ⟨trace, hhooks⟩ := resolveHooks_trace w p b
  have heq : w.attachEmitter p b =
      World.insertCallable { w with trace } p.owner b.action (w.callableOf p b) := by
    simp only [attachEmitter, hhooks, callableOf]
  have hmid : World.Opened { w with trace } p.channel.connection := hopened
  rw [heq]
  exact (fastens_insertCallable hmid hrole).after_trace

theorem listenersOn_attachWorker {c : Connection} (hc : w.connection? p.channel.connection = some c)
    (worker : Worker) (n : Nat) :
    (w.apply (.attachWorker worker p.channel.connection)).listenersOn n = w.listenersOn n ++
      if n = p.channel.connection then
        [⟨c.listeners.next, worker.event, .enqueue w.workers.length worker.token, false⟩]
          else [] := by
  refine listenersOn_hear hc (by simp) (by simp [Change.reshape, Listeners.add]) ?_ n
  intro n hn
  simp [Change.reshape, hn, funext_iff]

theorem fastens_attachWorker (hopened : w.Opened p.channel.connection) (hrole : b.role = .listener)
    (worker : Worker) (hevent : worker.event = b.action) (htoken : worker.token = p.token) :
    Fastens p place b w (w.apply (.attachWorker worker p.channel.connection)) := by
  obtain ⟨c, hc⟩ := hopened
  have hheard := listenersOn_attachWorker hc worker
  exact {
    adds := {
      heard := by
        rw [hheard, if_pos rfl]
        exact ⟨_, rfl, by simp [listenersOf, hrole, hevent], by simp [htoken]⟩
      unheard := fun n hn => by rw [hheard, if_neg hn, List.append_nil]
      watched := ⟨[], (List.append_nil _).symm, by simp [backsOf, hrole]⟩
      root := rfl
      unwatched := fun _ _ => rfl
      callables := by simp [emittersOf, hrole]; rfl
      uncalled := fun _ _ => rfl
      handlers := fun _ => rfl }
    registry := rfl
    opened := World.Opened.apply ⟨c, hc⟩ _ }

theorem attachListener_fastens (hopened : w.Opened p.channel.connection)
    (hrole : b.role = .listener)
    (sink : Sink) : Fastens p place b w (w.attachListener p b sink).1 := by
  obtain ⟨trace, hwarned⟩ := warnIf_trace w (p.warnings && w.hears p.channel.connection b.action)
    (.listenerAttached b.action)
  obtain ⟨trace', hhooks⟩ := resolveHooks_trace { w with trace } p b
  have heq : (w.attachListener p b sink).1 = World.apply { w with trace := trace' }
      (.attachWorker (w.workerOf p b sink) p.channel.connection) := by
    simp only [attachListener, hwarned, hhooks, listen_eq]
    simp only [workerOf, hwarned, hhooks]
    rfl
  have hmid : World.Opened { w with trace := trace' } p.channel.connection := hopened
  have hworker : Fastens p place b { w with trace := trace' } _ :=
    fastens_attachWorker hmid hrole (w.workerOf p b sink) rfl rfl
  rw [heq]
  exact hworker.after_trace

theorem component_setTree (w : World) (q : Place) (t : Tree) (id : ComponentId) :
    ((w.setTree q t).component id).callables = (w.component id).callables ∧
      ((w.setTree q t).component id).handlers = (w.component id).handlers := by
  cases q with
  | store => exact ⟨rfl, rfl⟩
  | component owner =>
    simp only [setTree, component_setComponent]
    split
    · rename_i hid
      rw [hid]
      exact ⟨rfl, rfl⟩
    · exact ⟨rfl, rfl⟩

theorem fastens_attachBack (hopened : w.Opened p.channel.connection) (hrole : b.role = .emitBack)
    (back : EmitBack) (hplace : back.place = place) :
    Fastens p place b w (w.apply (.attachBack back b.sourceOrAction)) := by
  subst hplace
  -- the rest of what starts an emitBack touches no component and no store
  have hcomponent (id : ComponentId) : (w.apply (.attachBack back b.sourceOrAction)).component id =
      (w.setTree back.place ((w.tree back.place).watch b.sourceOrAction).1).component id := by
    simp only [apply, World.watch, newToken, spawn, record, component]
  have htree (q : Place) : (w.apply (.attachBack back b.sourceOrAction)).tree q =
      (w.setTree back.place ((w.tree back.place).watch b.sourceOrAction).1).tree q := by
    cases q <;> simp only [apply, World.watch, newToken, spawn, record, tree, component]
  have hheard (n : Nat) : (w.apply (.attachBack back b.sourceOrAction)).listenersOn n =
      w.listenersOn n := listenersOn_apply id n
  exact {
    adds := {
      heard := ⟨[], by rw [hheard, List.append_nil], by simp [listenersOf, hrole], by simp⟩
      unheard := fun n _ => hheard n
      watched := by
        rw [htree, tree_setTree, if_pos rfl]
        exact ⟨_, rfl, by simp [backsOf, hrole]⟩
      root := by rw [htree, tree_setTree, if_pos rfl]; rfl
      unwatched := fun q hq => by rw [htree, tree_setTree, if_neg hq]
      callables := by
        rw [hcomponent, (component_setTree w _ _ _).1]
        simp [emittersOf, hrole]
      uncalled := fun id _ => by rw [hcomponent, (component_setTree w _ _ _).1]
      handlers := fun id => by rw [hcomponent, (component_setTree w _ _ _).2] }
    registry := by
      simp only [apply, World.watch]
      cases back.place <;> rfl
    opened := hopened.apply _ }

theorem attachEmitBack_fastens (hopened : w.Opened p.channel.connection)
    (hrole : b.role = .emitBack) :
    Fastens p place b w (w.attachEmitBack p b place).1 := by
  obtain ⟨trace, hhooks⟩ := resolveHooks_trace w p b
  have heq : (w.attachEmitBack p b place).1 = World.apply { w with trace }
      (.attachBack (w.emitBackOf p b place) b.sourceOrAction) := by
    simp only [attachEmitBack_eq, hhooks]
  have hmid : World.Opened { w with trace } p.channel.connection := hopened
  have hback : Fastens p place b { w with trace } _ :=
    fastens_attachBack hmid hrole (w.emitBackOf p b place) rfl
  rw [heq]
  exact hback.after_trace

end World

end Patchbay
