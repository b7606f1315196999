import Patchbay.Proofs.Engine.Wiring

/-! What sessions and connect requests do to a world, as primitive changes. -/

namespace Patchbay

/-- Before a connection is handed out the slot of a closed one may be cleared. -/
def Change.Evicts : Change → Prop := Among ([.evict, .releaseBindings] ++ Kind.basic)

/-- Handing out a connection may open one and keep it in a slot. -/
def Change.Acquires : Change → Prop :=
  Among ([.dial, .keep, .evict, .releaseBindings] ++ Kind.basic)

/-- A change that drops one connection: who listens to it, what it has registered, and its slot. -/
def Change.Drops (serial : Nat) : Change → Prop
  | .hush n _ | .releaseBindings n | .forget n => n = serial
  | c => c.Shuts serial

theorem Change.Drops.among {c : Change} {serial : Nat} (h : c.Drops serial) :
    c.Among [.hush, .releaseBindings, .forget, .shut, .stir] := by
  cases c <;> first | exact trivial | exact h.elim | exact (show Change.Stirs _ from h).mono rfl

theorem Change.Drops.detaches {c : Change} {serial : Nat} (h : c.Drops serial) : c.Detaches :=
  h.among.mono rfl

theorem Change.Stirs.drops {c : Change} {serial : Nat} (h : c.Stirs) : c.Drops serial := by
  cases c <;> first | exact h | exact h.elim

theorem Change.Shuts.drops {c : Change} {serial : Nat} (h : c.Shuts serial) : c.Drops serial := by
  cases c <;> first | exact h | exact h.elim

/-- A request that got a connection says how long the emits of its scope may take. -/
def Change.Enters : Change → Prop := Among (.setTimeout :: Kind.basic)

/-- A connect request that got a connection wires it, and undoes that when it fails. -/
def Change.Pursues (c : Change) : Prop := c.Enters ∨ c.Wires ∨ c.Finishes

/-- It acquires the connection first. -/
def Change.Connects (c : Change) : Prop := c.Acquires ∨ c.Pursues

/-- One that comes through binds its APIs and becomes a session. -/
def Change.Concludes : Change → Prop := Among ([.track, .register] ++ Kind.basic)

theorem Change.Binds.concludes {c : Change} (h : c.Binds) : c.Concludes := h.mono rfl

theorem Change.Concludes.finishes {c : Change} (h : c.Concludes) : c.Finishes := h.mono rfl

theorem Change.Enters.pursues {c : Change} (h : c.Enters) : c.Pursues := .inl h

theorem Change.Wires.pursues {c : Change} (h : c.Wires) : c.Pursues := .inr (.inl h)

theorem Change.Finishes.pursues {c : Change} (h : c.Finishes) : c.Pursues := .inr (.inr h)

theorem Change.Pursues.among {c : Change} (h : c.Pursues) :
    c.Among ([.setTimeout, .attachBack, .attachWorker] ++ Kind.finishes) := by
  rcases h with h | h | h
  · exact h.mono rfl
  · exact h.among.mono rfl
  · exact h.mono rfl

theorem Change.Connects.among {c : Change} (h : c.Connects) :
    c.Among ([.dial, .keep, .evict, .setTimeout, .attachBack, .attachWorker] ++ Kind.finishes) := by
  rcases h with h | h
  · exact h.mono rfl
  · exact h.among.mono rfl

theorem Change.Basic.enters {c : Change} (h : c.Basic) : c.Enters := h.mono rfl

theorem Change.Basic.pursues {c : Change} (h : c.Basic) : c.Pursues := h.wires.pursues

/-- The session that a request ends as. -/
def Connecting.session (c : Connecting) (wired : Wired) : Session where
  label := c.resolved.label
  channel := c.pass.channel
  owner := c.pass.owner
  teardown := c.resolved.teardown
  token := c.pass.token
  subscriptions := wired.subscriptions

namespace World

/-! Sessions -/

theorem openConnection_makes (w : World) (url namespaceName : String) (extra : Fields Json) :
    Makes Change.Acquires w (w.openConnection url namespaceName extra).2 := by
  simp only [openConnection]
  split
  · exact .one (.record _) trivial
  · exact .more (.dial url namespaceName) (.one (.record _) trivial) trivial

theorem openFor_makes (w : World) (r : Resolved) : Makes Change.Acquires w (w.openFor r).2 := by
  unfold openFor
  have hopen := openConnection_makes w r.url r.namespaceName r.extra
  split <;> rename_i heq <;> rw [heq] at hopen
  · exact hopen
  · split
    · exact hopen
    · exact .more (.keep _ _) hopen trivial

theorem releaseBindings_eq {w : World} {serial : Nat} (hdown : w.isConnected serial = false) :
    w.releaseBindings serial = w.apply (.releaseBindings serial) := by
  simp only [apply, hdown]
  rfl

theorem acquire_makes (w : World) (r : Resolved) : Makes Change.Acquires w (w.acquire r).2 := by
  unfold acquire
  split
  · exact openFor_makes w r
  · split
    · exact .nothing
    · rename_i serial _ hdown
      have hreleased := releaseBindings_eq
        (w := w.apply (.evict (r.scope, r.persistKey.getD ""))) (Bool.eq_false_iff.2 hdown)
      exact (Makes.more (.releaseBindings serial)
        (.one (.evict (r.scope, r.persistKey.getD "")) trivial) trivial).trans
          (hreleased ▸ openFor_makes _ r)

/-- After its listeners have gone a connection is closed, before its bindings are given up and it is
forgotten. -/
theorem discard_eq (w : World) (serial : Nat) : w.discard serial =
    (((w.offAll serial).close serial).apply (.releaseBindings serial)).apply (.forget serial) := by
  have hdown : ((w.offAll serial).close serial).isConnected serial = false := isConnected_close _ _
  have hstill : (((w.offAll serial).close serial).releaseBindings serial).isConnected serial =
      false := hdown
  rw [← releaseBindings_eq hdown]
  simp only [apply, hstill]
  rfl

theorem isConnected_discard (w : World) (serial : Nat) :
    (w.discard serial).isConnected serial = false :=
  isConnected_close (w.offAll serial) serial

theorem removeListeners_drops (w : World) (serial : Nat) (out : Listener Reaction → Bool) :
    Makes (Change.Drops serial) w (w.removeListeners serial out) :=
  (Makes.one (P := Change.Drops serial) (.hush serial out) rfl).trans
    ((removeListeners_eq w serial out).mono fun _ hc => hc.drops)

theorem discard_drops (w : World) (serial : Nat) :
    Makes (Change.Drops serial) w (w.discard serial) := by
  rw [discard_eq]
  have hclosed := (removeListeners_drops w serial fun _ => true).trans
    ((close_makes (w.offAll serial) serial).mono fun _ hc => hc.drops)
  exact .more (.forget serial) (.more (.releaseBindings serial) hclosed rfl) rfl

theorem discard_makes (w : World) (serial : Nat) : Makes Change.Detaches w (w.discard serial) :=
  (discard_drops w serial).mono fun _ hc => hc.detaches

theorem closeSession_makes (w : World) (s : Session) : Makes Change.Detaches w (w.closeSession s) :=
  ((Makes.one (.cancel s.token) trivial).trans
    ((detachAll_makes _ _).mono fun _ hc => hc.detaches)).trans (discard_makes _ _)

theorem teardown_makes (w : World) (owner : ComponentId) :
    Makes Change.Undoes w (w.teardown owner).1 := by
  unfold teardown
  refine (Makes.one (.disown owner) trivial).trans
    (foldl_fst_makes (fun acc (s : Session) => ?_) _ (_, 0))
  dsimp only
  split
  · exact (closeSession_makes ..).mono fun _ hc => hc.undoes
  · exact .one (.outlive s) trivial

theorem shutdown_makes (w : World) : Makes Change.Undoes w w.shutdown :=
  (Makes.one .disownAll trivial).trans
    ((Makes.foldl closeSession_makes _ _).mono fun _ hc => hc.undoes)

/-! Connect requests -/

/-- When a request fails it undoes what it has attached; a connection that was opened for it is
dropped. -/
def undo (w : World) (c : Connecting) : World :=
  (w.detachAll c.wired.subscriptions).cancel c.pass.token

theorem undo_makes (w : World) (c : Connecting) : Makes Change.Unties w (w.undo c) :=
  .more (.cancel _) (detachAll_makes ..) trivial

theorem failConnect_of_reused {c : Connecting} (w : World) (h : c.reused = true)
    (error : EngineError) :
    w.failConnect c error = (w.undo c).apply (.report c.ticket (.failed error)) := by
  simp only [failConnect, h]
  rfl

theorem failConnect_of_fresh {c : Connecting} (w : World) (h : c.reused = false)
    (error : EngineError) : w.failConnect c error =
      ((w.undo c).discard c.pass.channel.connection).apply (.report c.ticket (.failed error)) := by
  simp only [failConnect, h]
  rfl

theorem failConnect_makes (w : World) (c : Connecting) (error : EngineError) :
    Makes Change.Detaches w (w.failConnect c error) := by
  have hundo := (undo_makes w c).mono fun _ hc => hc.detaches
  cases hreused : c.reused with
  | true =>
    rw [failConnect_of_reused w hreused]
    exact .more (.report _ _) hundo trivial
  | false =>
    rw [failConnect_of_fresh w hreused]
    exact .more (.report _ _) (hundo.trans (discard_makes ..)) trivial

/-- The component's own API is bound before the session stands. -/
def bindOwnApi (w : World) (c : Connecting) : World × Wired :=
  match c.resolved.clientApi with
  | none => (w, c.wired)
  | some d =>
    w.bindClientApi c.pass d ((c.resolved.serverApi.bind (·.event)).getD ServerApi.defaultEvent)
      c.wired

theorem finishConnect_eq (w : World) (c : Connecting) (api : Option ServerApi) :
    ∃ handle, w.finishConnect c api =
      ((((w.bindOwnApi c).1.apply (.track (c.session (w.bindOwnApi c).2))).apply
        (.insertHandle c.name handle)).apply
          (.report c.ticket (.connected handle (w.bindOwnApi c).2))) := by
  refine ⟨⟨c.pass.channel.connection, some (c.session (w.bindOwnApi c).2), api⟩, ?_⟩
  unfold finishConnect bindOwnApi
  cases c.resolved.clientApi <;> rfl

theorem bindOwnApi_makes (w : World) (c : Connecting) :
    Makes Change.Binds w (w.bindOwnApi c).1 := by
  unfold bindOwnApi
  split
  · exact .nothing
  · exact bindClientApi_makes ..

theorem finishConnect_makes (w : World) (c : Connecting) (api : Option ServerApi) :
    Makes Change.Concludes w (w.finishConnect c api) := by
  obtain ⟨handle, hfinished⟩ := finishConnect_eq w c api
  rw [hfinished]
  exact .more (.report _ _) (.more (.insertHandle _ _) (.more (.track _)
    ((bindOwnApi_makes w c).mono fun _ hc => hc.concludes) trivial) trivial) trivial

/-- The end of a request with the API that the peer has answered. -/
def finishWith (w : World) (c : Connecting) (d : Descriptor) : World :=
  let bound := w.bindServerApi c.pass c.resolved.ignoredEvents d c.wired
  bound.1.finishConnect { c with wired := bound.2.1 } (some bound.2.2)

theorem finishWith_makes (w : World) (c : Connecting) (d : Descriptor) :
    Makes Change.Concludes w (w.finishWith c d) :=
  ((bindServerApi_makes ..).mono fun _ hc => hc.concludes).trans (finishConnect_makes ..)

/-- The answer of the peer cannot be read, or the request comes through. -/
theorem discovered_cases (w : World) (c : Connecting) (answer : Json) :
    (∃ error, w.discovered c answer = w.failConnect c error) ∨
      ∃ d, read? answer = some d ∧ w.discovered c answer = w.finishWith c d := by
  unfold discovered
  cases hread : (read? answer : Option Descriptor) with
  | none => exact .inl ⟨_, rfl⟩
  | some d => exact .inr ⟨d, rfl, rfl⟩

/-- The jobs a connect request goes on with: it asks for the peer's API. -/
def Discovers : Job → Prop
  | .emit _ (.discovery _) => True
  | _ => False

/-- After the store is wired the request asks for the peer's API or is done. -/
def askOrFinish (w : World) (c : Connecting) : World :=
  match c.resolved.serverApi with
  | none => w.finishConnect c none
  | some d => w.resume (.emit (discoveryRun c.pass d) (.discovery c))

/-- A request for which a source is missing fails, in the store as in the namespace. -/
theorem connectStore_of_error {w w' : World} {c : Connecting} {error : BindingError}
    (h : w.wireStore c.pass c.resolved.store = (w', .error error)) :
    w.connectStore c = w.failConnect c (.binding error) := by
  obtain rfl := wireStore_of_error h
  simp only [connectStore, h]

theorem connectStore_of_ok {w w' : World} {c : Connecting} {wired : Wired}
    (h : w.wireStore c.pass c.resolved.store = (w', .ok wired)) :
    w.connectStore c = w'.askOrFinish { c with wired := c.wired.append wired } := by
  cases hasks : c.resolved.serverApi <;> simp only [connectStore, h, askOrFinish, hasks]

theorem connectNamespace_of_error {w w' : World} {c : Connecting} {error : BindingError}
    (h : w.wireNamespace c.pass c.resolved.namespaceConfig = (w', .error error)) :
    w.connectNamespace c = w.failConnect c (.binding error) := by
  obtain rfl := wireNamespace_of_error h
  simp only [connectNamespace, h]

theorem connectNamespace_of_ok {w w' : World} {c : Connecting} {wired : Wired}
    (h : w.wireNamespace c.pass c.resolved.namespaceConfig = (w', .ok wired)) :
    w.connectNamespace c = w'.connectStore { c with wired := c.wired.append wired } := by
  simp only [connectNamespace, h]

theorem askOrFinish_does (w : World) (c : Connecting) :
    Does Change.Concludes Discovers w (w.askOrFinish c) := by
  unfold askOrFinish
  split
  · exact (finishConnect_makes ..).ends
  · exact Makes.nothing.resumes trivial

theorem connectStore_does (w : World) (c : Connecting) :
    Does Change.Pursues Discovers w (w.connectStore c) := by
  rcases hstore : w.wireStore c.pass c.resolved.store with ⟨w', error | wired⟩
  · rw [connectStore_of_error hstore]
    exact ((failConnect_makes ..).mono fun _ hc => hc.finishes.pursues).ends
  · rw [connectStore_of_ok hstore]
    exact ((wireStore_makes hstore).mono fun _ hc => hc.pursues).does
      ((askOrFinish_does ..).mono (fun _ hc => hc.finishes.pursues) fun _ hj => hj)

theorem connectNamespace_does (w : World) (c : Connecting) :
    Does Change.Pursues Discovers w (w.connectNamespace c) := by
  rcases hwire : w.wireNamespace c.pass c.resolved.namespaceConfig with ⟨w', error | wired⟩
  · rw [connectNamespace_of_error hwire]
    exact ((failConnect_makes ..).mono fun _ hc => hc.finishes.pursues).ends
  · rw [connectNamespace_of_ok hwire]
    exact ((wireNamespace_makes hwire).mono fun _ hc => hc.pursues).does (connectStore_does ..)

theorem foldl_warn_makes (w : World) (warnings : List Warning) :
    Makes Change.Basic w (warnings.foldl warn w) :=
  Makes.foldl (fun _ _ => .one (.record _) trivial) _ w

/-- A request that got a connection has a token, and the time its emits may take is set. -/
def enter (w : World) (r : Resolved) : World :=
  (w.apply (.setTimeout r.scope r.emitTimeout)).apply .newToken

theorem enter_makes (w : World) (r : Resolved) : Makes Change.Enters w (w.enter r) :=
  .more .newToken (.one (.setTimeout ..) trivial) trivial

/-- It goes on with its status wired. -/
theorem startConnect_of_acquired {w acquired : World} {opts : ConnectOptions} {r : Resolved}
    {serial : Nat} {reused : Bool}
    (hresolved : (Resolved.ofRequest w.settings w.runtimeSockets opts).1 = .ok r)
    (hacquired : ((Resolved.ofRequest w.settings w.runtimeSockets opts).2.foldl warn w).acquire r =
      (.ok (serial, reused), acquired)) (ticket : Nat) (name : String) (owner : ComponentId) :
    let p : Pass := ⟨⟨serial, r.scope, r.emitTimeout⟩, owner, acquired.tokens, r.warnings⟩
    let started := (acquired.enter r).wireStatus p r.statusKey r.url
    w.startConnect ticket name owner opts =
      started.1.connectNamespace ⟨ticket, name, r, p, reused, started.2⟩ := by
  simp only [startConnect, hresolved, hacquired]
  rfl

/-- A request that the transport refuses reports that and is over. -/
theorem startConnect_of_refusal {w acquired : World} {opts : ConnectOptions} {r : Resolved}
    {error : TransportError}
    (hresolved : (Resolved.ofRequest w.settings w.runtimeSockets opts).1 = .ok r)
    (hacquired : ((Resolved.ofRequest w.settings w.runtimeSockets opts).2.foldl warn w).acquire r =
      (.error error, acquired)) (ticket : Nat) (name : String) (owner : ComponentId) :
    w.startConnect ticket name owner opts =
      acquired.report ticket (.failed (.transport error)) := by
  simp only [startConnect, hresolved, hacquired]

/-- A request that resolves to no socket reports that and is over. -/
theorem startConnect_of_error {w : World} {opts : ConnectOptions} {error : ConfigError}
    (h : (Resolved.ofRequest w.settings w.runtimeSockets opts).1 = .error error) (ticket : Nat)
    (name : String) (owner : ComponentId) :
    Makes Change.Basic w (w.startConnect ticket name owner opts) := by
  simp only [startConnect, h]
  exact .more (.report _ _) (foldl_warn_makes ..) trivial

/-- A request that resolves acquires a connection, unless the transport refuses, and wires it. -/
theorem startConnect_of_ok {w : World} {opts : ConnectOptions} {r : Resolved}
    (h : (Resolved.ofRequest w.settings w.runtimeSockets opts).1 = .ok r) (ticket : Nat)
    (name : String) (owner : ComponentId) :
    ∃ start, Makes Change.Basic w start ∧
      start = (Resolved.ofRequest w.settings w.runtimeSockets opts).2.foldl warn w ∧
      Does Change.Pursues Discovers (start.acquire r).2
        (w.startConnect ticket name owner opts) := by
  refine ⟨_, foldl_warn_makes .., rfl, ?_⟩
  cases hacquired : ((Resolved.ofRequest w.settings w.runtimeSockets opts).2.foldl warn w).acquire r
    with | mk result acquired
  cases result with
  | error error =>
    rw [startConnect_of_refusal h hacquired]
    exact (Makes.one (.report _ _) (.inl trivial)).ends
  | ok got =>
    rw [startConnect_of_acquired h hacquired]
    refine Makes.does ?_ (connectNamespace_does ..)
    exact ((enter_makes ..).mono fun _ hc => hc.pursues).trans
      ((wireStatus_makes ..).mono fun _ hc => hc.pursues)

theorem startConnect_does (w : World) (ticket : Nat) (name : String) (owner : ComponentId)
    (opts : ConnectOptions) :
    Does Change.Connects Discovers w (w.startConnect ticket name owner opts) := by
  cases h : (Resolved.ofRequest w.settings w.runtimeSockets opts).1 with
  | error error =>
    exact ((startConnect_of_error h ticket name owner).mono fun _ hc => .inr hc.pursues).ends
  | ok r =>
    obtain ⟨start, hstart, -, hdoes⟩ := startConnect_of_ok h ticket name owner
    exact (hstart.mono fun _ hc => .inr hc.pursues).does
      (((acquire_makes start r).mono fun _ hc => .inl hc).does
        (hdoes.mono (fun _ hc => .inr hc) fun _ hj => hj))

end World

end Patchbay
