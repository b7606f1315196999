import Patchbay.Proofs.Engine.Step

/-! What a command does to a world before any task runs, as primitive changes. -/

namespace Patchbay

/-- A command may start any task but one that serves an emitBack or a worker or goes on with a
connect request, and open a connection that is not kept; it may emit, wait for an answer or an
event, and answer. -/
def Change.Utters : Change → Prop
  | .spawn job => job.back? = none ∧ job.connecting? = none ∧ job.worker? = none
  | .listen _ _ (.enqueue ..) _ => False
  | .dial .. | .record (.emitted ..) | .expect .. | .listen .. | .answer .. => True
  | c => c.Basic

/-- It may also be a delivery, which fills the queues of workers and takes those off that were to
hear it once. -/
def Change.Asks : Change → Prop
  | .enqueue .. | .spend .. => True
  | c => c.Utters

/-- A command may do no more than start a task, which waits for no answer yet, or open a
connection. -/
def Change.Orders : Change → Prop
  | .spawn job =>
    (job.back? = none ∧ job.connecting? = none ∧ job.worker? = none) ∧ job.mention? = none
  | .dial .. => True
  | c => c.Basic

/-- Some commands also end sessions or take listeners off. -/
def Change.Commands (c : Change) : Prop := c.Asks ∨ c.Undoes

theorem Change.Basic.utters {c : Change} (h : c.Basic) : c.Utters := by
  cases c with
  | record event => cases event <;> first | exact h | exact h.elim
  | listen serial event action once => cases action <;> first | exact trivial | exact h.elim
  | _ => first | exact h | exact h.elim

theorem Change.Utters.asks {c : Change} (h : c.Utters) : c.Asks := by
  cases c <;> first | exact trivial | exact h

theorem Change.Asks.among {c : Change} (h : c.Asks) : c.Among
    ([.spawn, .dial, .emission, .expect, .await, .answer, .enqueue, .spend] ++ Kind.basic) := by
  cases c with
  | record event => cases event <;> first | exact trivial | exact h.elim
  | listen serial event action once => cases action <;> first | exact trivial | exact h.elim
  | _ => first | exact trivial | exact h.elim

/-- It starts a task, or its kind tells what it may do. -/
theorem Change.Asks.spawns_or {c : Change} (h : c.Asks) :
    (∃ job : Job, (job.back? = none ∧ job.connecting? = none ∧ job.worker? = none) ∧
      c = .spawn job) ∨
      c.Among ([.dial, .emission, .expect, .await, .answer, .enqueue, .spend] ++ Kind.basic) := by
  cases c with
  | spawn job => exact .inl ⟨job, h, rfl⟩
  | record event => cases event <;> first | exact .inr trivial | exact h.elim
  | listen serial event action once => cases action <;> first | exact .inr trivial | exact h.elim
  | _ => first | exact .inr trivial | exact h.elim

theorem Change.Commands.among {c : Change} (h : c.Commands) : c.Among
    ([.spawn, .dial, .emission, .expect, .await, .answer, .enqueue, .spend, .disown, .outlive,
      .disownAll] ++ Kind.finishes) := by
  rcases h with h | h
  · exact h.among.mono rfl
  · exact h.mono rfl

theorem Change.Basic.asks {c : Change} (h : c.Basic) : c.Asks := h.utters.asks

theorem Change.Basic.orders {c : Change} (h : c.Basic) : c.Orders := by
  cases c <;> first | exact h | exact h.elim

theorem Change.Orders.utters {c : Change} (h : c.Orders) : c.Utters := by
  cases c with
  | spawn job => exact h.1
  | dial => trivial
  | _ => exact Change.Basic.utters h

theorem Change.Delivers.asks {c : Change} {ack : Option CellId} {awaits : CellId → Prop}
    (h : c.Delivers ack awaits) : c.Asks := by
  cases c with
  | spawn job =>
    cases job with
    | hook hook argument after => cases after <;> first | exact h.elim | exact ⟨rfl, rfl, rfl⟩
    | _ => exact h.elim
  | answer | enqueue | spend => trivial
  | _ => exact Change.Basic.asks h

/-- What a server's reply does a command may do as well, but for keeping the responder. -/
theorem Change.Replies.eq_hold_or {c : Change} (h : c.Replies) :
    (∃ cell, c = .hold cell) ∨ c.Asks := by
  cases c with
  | hold cell => exact .inl ⟨cell, rfl⟩
  | spawn job =>
    cases job with
    | hook hook argument after => cases after <;> first | exact h.elim | exact .inr ⟨rfl, rfl, rfl⟩
    | _ => exact h.elim
  | answer | enqueue | spend => exact .inr trivial
  | _ => exact .inr (Change.Basic.asks h)

theorem Change.Sends.utters {c : Change} (h : c.Sends) : c.Utters := by
  cases c with
  | spawn job => cases job <;> first | exact ⟨rfl, rfl, rfl⟩ | exact h.elim
  | record event => cases event <;> exact h
  | expect => trivial
  | _ => exact Change.Basic.utters h

/-- No job starts a task for a request that waits, for a worker that is there, or for the loop of an
emitBack. -/
theorem Job.May.spawns {job new : Job} (h : job.May (.spawn new)) :
    new.connecting? = none ∧ new.worker? = none ∧ new.isLoop = false := by
  cases job with
  | connect => exact (Change.Connects.among h).elim
  | transmit => cases new <;> first | exact ⟨rfl, rfl, rfl⟩ | exact h.elim
  | serveEnd =>
    cases new with
    | hook hook argument after => cases after <;> first | exact ⟨rfl, rfl, rfl⟩ | exact h.elim
    | _ => exact h.elim
  | watch => cases h; exact ⟨rfl, rfl, rfl⟩
  | emitDone result after => cases after <;> exact h.elim
  | hookDone verdict after => cases after <;> exact h.elim
  | _ => exact h.elim

theorem Change.Commands.spawns {job : Job} (h : (Change.spawn job).Commands) :
    job.connecting? = none ∧ job.worker? = none := by
  rcases h with h | h
  · exact h.2
  · exact h.elim

/-- The component is gone, or the whole engine. -/
def Command.ends : Command → Bool
  | .teardown _ => true
  | .shutdown => true
  | _ => false

/-- A connection is closed, by the application or by its peer. -/
def Command.closes : Command → Bool
  | .close _ => true
  | .kick _ => true
  | _ => false

/-- The application takes listeners off a connection. -/
def Command.mutes : Command → Bool
  | .off .. => true
  | .offListener .. => true
  | .offAll _ => true
  | _ => false

/-- Something is sent or answered at once, or an event is awaited. -/
def Command.speaks : Command → Bool
  | .emitBare .. => true
  | .awaitEvent .. => true
  | .send .. => true
  | .push .. => true
  | .request .. => true
  | .answer .. => true
  | _ => false

/-- A peer sends an event to the client. -/
def Command.delivers : Command → Bool
  | .push .. => true
  | .request .. => true
  | _ => false

namespace World

theorem startAction?_makes (w : World) (ticket : Nat) (explicit : Option Nat) (a : EmitAction) :
    Makes Change.Orders w (w.startAction? ticket explicit a).1 := by
  unfold startAction?
  split
  · exact .nothing
  · exact .one (.spawn _) ⟨⟨rfl, rfl, rfl⟩, rfl⟩

theorem startBare_makes (w : World) (ticket serial : Nat) (event : String) (payload : Json) :
    Makes Change.Utters w (w.startBare ticket serial event payload).1 := by
  have hcell : Makes Change.Utters w w.newCell.1 := .one .newCell trivial
  unfold startBare
  dsimp only
  split
  · exact hcell
  · rename_i hsend
    exact .more (.spawn _) (hcell.trans ((send_makes hsend).mono fun _ hc => hc.utters))
      ⟨rfl, rfl, rfl⟩

theorem startSend_makes (w : World) (ticket serial : Nat) (event : String) (payload : Json)
    (ack : Bool) : Makes Change.Utters w (w.startSend ticket serial event payload ack).1 := by
  have hcell : Makes Change.Utters w w.newCell.1 := .one .newCell trivial
  unfold startSend
  dsimp only
  split
  · split
    · exact hcell
    · rename_i hsend
      exact .more (.spawn _) (hcell.trans ((send_makes hsend).mono fun _ hc => hc.utters))
        ⟨rfl, rfl, rfl⟩
  · split
    · exact .nothing
    · rename_i hsend
      exact (send_makes hsend).mono fun _ hc => hc.utters

theorem answerHeld_makes (w : World) (n : Nat) (v : Json) :
    Makes Change.Utters w (w.answerHeld n v).1 := by
  unfold answerHeld
  split
  · exact .nothing
  · exact .more (.answer _ v) (.one (.unhold n) trivial) trivial

theorem withHandle_makes {P : Change → Prop} (w : World) (name : String)
    {f : Handle → World × Response} (hf : ∀ handle, Makes P w (f handle).1) :
    Makes P w (w.withHandle name f).1 := by
  unfold withHandle
  split
  · exact .nothing
  · exact hf _

theorem withPeer_makes {P : Change → Prop} (w : World) (name : String)
    {f : Nat → World × Response} (hf : ∀ serial, Makes P w (f serial).1) :
    Makes P w (w.withPeer name f).1 := by
  refine withHandle_makes w name ?_
  intro handle
  split
  · exact hf _
  · exact .nothing

/-- What a command does to a world that sends and answers nothing by itself. -/
theorem perform_orders (w : World) (ticket : Nat) {c : Command} (hc : ∀ ms, c ≠ .wait ms)
    (hends : c.ends = false) (hcloses : c.closes = false) (hmutes : c.mutes = false)
    (hspeaks : c.speaks = false) : Makes Change.Orders w (w.perform ticket c).1 := by
  have hbasic {w' : World} (h : Makes Change.Basic w w') : Makes Change.Orders w w' :=
    h.mono fun _ hc => hc.orders
  cases c with
  | connect name owner opts => exact .one (.spawn _) ⟨⟨rfl, rfl, rfl⟩, rfl⟩
  | call owner name argument =>
    simp only [perform]
    split
    · exact .nothing
    · exact .one (.spawn _) ⟨⟨rfl, rfl, rfl⟩, rfl⟩
  | apiCall handle name argument =>
    refine withHandle_makes w handle ?_
    intro h
    split
    · exact .nothing
    · split
      · exact .one (.spawn _) ⟨⟨rfl, rfl, rfl⟩, rfl⟩
      · exact .nothing
  | emit handle event msg timeout noAck =>
    refine withHandle_makes w handle ?_
    intro h
    dsimp only
    split
    · exact .nothing
    · exact .one (.spawn _) ⟨⟨rfl, rfl, rfl⟩, rfl⟩
  | emitAction handle action =>
    cases handle with
    | none => exact startAction?_makes ..
    | some handle => exact withHandle_makes w handle fun h => startAction?_makes ..
  | emitHooks handle request =>
    exact withHandle_makes w handle fun h => .one (.spawn _) ⟨⟨rfl, rfl, rfl⟩, rfl⟩
  | setRuntime sockets => exact .one (.setRuntime sockets) trivial
  | teardown owner => cases hends
  | shutdown => cases hends
  | close handle => cases hcloses
  | scopeOf handle => exact withHandle_makes w handle fun h => .nothing
  | bindingsOf handle owner => exact withHandle_makes w handle fun h => .nothing
  | setData owner path v => exact hbasic (set_makes ..)
  | setStore path v => exact hbasic (set_makes ..)
  | commit mutation payload =>
    simp only [perform]
    split
    · rename_i hcommit
      exact hbasic (commit_makes hcommit)
    · exact .nothing
  | dispatch action payload => exact .one (.spawn _) ⟨⟨rfl, rfl, rfl⟩, rfl⟩
  | openBare name url namespaceName extra =>
    have hopened : Makes Change.Orders w (w.apply (.record (.opened url namespaceName extra))) :=
      .one _ trivial
    simp only [perform, openConnection]
    by_cases hurl : url.isEmpty = true
    · simp only [hurl, ↓reduceIte]
      exact hopened
    · simp only [hurl]
      exact .more (.insertHandle _ _) (.more (.dial url namespaceName) hopened trivial) trivial
  | listen handle event probe once answer =>
    exact withHandle_makes w handle fun h => hbasic (listen_makes _ _ _ (by trivial) _)
  | off handle event => cases hmutes
  | offListener handle listener => cases hmutes
  | offAll handle => cases hmutes
  | listeners handle events => exact withHandle_makes w handle fun h => .nothing
  | kick handle => cases hcloses
  | serve server => exact .one (.addServer server) trivial
  | wait ms => exact absurd rfl (hc ms)
  | emitBare | awaitEvent | send | push | request | answer => cases hspeaks
  | _ => exact .nothing

/-- What a command does to a world that delivers nothing, ends no session, closes no connection and
takes no listener off. -/
theorem perform_utters (w : World) (ticket : Nat) {c : Command} (hc : ∀ ms, c ≠ .wait ms)
    (hends : c.ends = false) (hcloses : c.closes = false) (hmutes : c.mutes = false)
    (hdelivers : c.delivers = false) : Makes Change.Utters w (w.perform ticket c).1 := by
  cases hspeaks : c.speaks with
  | false =>
    exact (perform_orders w ticket hc hends hcloses hmutes hspeaks).mono fun _ hc => hc.utters
  | true =>
    cases c with
    | emitBare handle event payload => exact withHandle_makes w handle fun h => startBare_makes ..
    | awaitEvent handle event =>
      refine withHandle_makes w handle ?_
      intro h
      have hcell : Makes Change.Utters w w.newCell.1 := .one .newCell trivial
      have hlistens : Makes Change.Utters w
          (w.newCell.1.listen h.connection event (.await w.cells.length) true).1 := by
        rw [listen_eq]
        exact .more (.listen ..) hcell trivial
      exact .more (.spawn _) hlistens ⟨rfl, rfl, rfl⟩
    | send handle event payload ack => exact withHandle_makes w handle fun h => startSend_makes ..
    | answer held v => exact answerHeld_makes ..
    | push handle event payload => cases hdelivers
    | request handle event payload => cases hdelivers
    | _ => cases hspeaks

/-- What a command does to a world that ends no session, closes no connection and takes no listener
off; waiting is no change but lets tasks run. -/
theorem perform_asks (w : World) (ticket : Nat) {c : Command} (hc : ∀ ms, c ≠ .wait ms)
    (hends : c.ends = false) (hcloses : c.closes = false) (hmutes : c.mutes = false) :
    Makes Change.Asks w (w.perform ticket c).1 := by
  cases hdelivers : c.delivers with
  | false =>
    exact (perform_utters w ticket hc hends hcloses hmutes hdelivers).mono fun _ hc => hc.asks
  | true =>
    cases c with
    | push handle event payload =>
      exact withPeer_makes w handle fun serial => (deliver_makes ..).mono fun _ hc => hc.asks
    | request handle event payload =>
      refine withPeer_makes w handle ?_
      intro serial
      exact .more (.spawn _) (.trans (.one .newCell trivial)
        ((deliver_makes ..).mono fun _ hc => hc.asks)) ⟨rfl, rfl, rfl⟩
    | _ => cases hdelivers

/-- To close a connection is to close the one that a handle stands for. -/
theorem perform_closes (w : World) (ticket : Nat) {c : Command} (hcloses : c.closes = true) :
    (w.perform ticket c).1 = w ∨ ∃ name handle, (c = .close name ∨ c = .kick name) ∧
      w.handle? name = some handle ∧ (w.perform ticket c).1 = w.close handle.connection := by
  cases c with
  | close name =>
    cases hhandle : w.handle? name with
    | none => exact .inl (by simp only [perform, withHandle, hhandle])
    | some handle =>
      exact .inr ⟨name, handle, .inl rfl, hhandle, by simp only [perform, withHandle, hhandle]⟩
  | kick name =>
    cases hhandle : w.handle? name with
    | none => exact .inl (by simp only [perform, withPeer, withHandle, hhandle])
    | some handle =>
      by_cases hlisted : w.hub.contains handle.connection = true
      · refine .inr ⟨name, handle, .inr rfl, hhandle, ?_⟩
        simp only [perform, withPeer, withHandle, hhandle, hlisted, ↓reduceIte]
      · exact .inl (by simp only [perform, withPeer, withHandle, hhandle, hlisted]; rfl)
  | _ => cases hcloses

theorem perform_shuts (w : World) (ticket : Nat) {c : Command} (hcloses : c.closes = true) :
    ∃ serial, Makes (Change.Shuts serial) w (w.perform ticket c).1 := by
  rcases perform_closes w ticket hcloses with hsame | ⟨name, handle, -, -, hclosed⟩
  · rw [hsame]
    exact ⟨0, .nothing⟩
  · rw [hclosed]
    exact ⟨handle.connection, close_makes ..⟩

theorem perform_mutes (w : World) (ticket : Nat) {c : Command} (hmutes : c.mutes = true) :
    Makes Change.Hushes w (w.perform ticket c).1 := by
  cases c with
  | off handle event => exact withHandle_makes w handle fun h => removeListeners_makes ..
  | offListener handle listener => exact withHandle_makes w handle fun h => removeListeners_makes ..
  | offAll handle => exact withHandle_makes w handle fun h => removeListeners_makes ..
  | _ => cases hmutes

/-- A command ends sessions, closes a connection, takes listeners off, or does none of these. -/
theorem perform_cases (w : World) (ticket : Nat) {c : Command} (hc : ∀ ms, c ≠ .wait ms) :
    (∃ owner, c = .teardown owner) ∨ c = .shutdown ∨
      (c.closes = true ∧ ∃ serial, Makes (Change.Shuts serial) w (w.perform ticket c).1) ∨
      (c.mutes = true ∧ Makes Change.Hushes w (w.perform ticket c).1) ∨
      Makes Change.Asks w (w.perform ticket c).1 := by
  cases hends : c.ends with
  | true =>
    cases c with
    | teardown owner => exact .inl ⟨owner, rfl⟩
    | shutdown => exact .inr (.inl rfl)
    | _ => cases hends
  | false =>
    cases hcloses : c.closes with
    | true => exact .inr (.inr (.inl ⟨rfl, perform_shuts w ticket hcloses⟩))
    | false =>
      cases hmutes : c.mutes with
      | true => exact .inr (.inr (.inr (.inl ⟨rfl, perform_mutes w ticket hmutes⟩)))
      | false => exact .inr (.inr (.inr (.inr (perform_asks w ticket hc hends hcloses hmutes))))

/-- What a command does to a world that sends and answers nothing by itself. -/
theorem perform_silent (w : World) (ticket : Nat) {c : Command} (hc : ∀ ms, c ≠ .wait ms)
    (hspeaks : c.speaks = false) :
    Makes (fun ch => ch.Orders ∨ ch.Undoes) w (w.perform ticket c).1 := by
  cases hends : c.ends with
  | true =>
    cases c with
    | teardown owner => exact (teardown_makes w owner).mono fun _ h => .inr h
    | shutdown => exact (shutdown_makes w).mono fun _ h => .inr h
    | _ => cases hends
  | false =>
    cases hcloses : c.closes with
    | true =>
      obtain ⟨serial, hshuts⟩ := perform_shuts w ticket hcloses
      exact hshuts.mono fun _ h => .inr h.detaches.undoes
    | false =>
      cases hmutes : c.mutes with
      | true => exact (perform_mutes w ticket hmutes).mono fun _ h => .inr h.finishes.undoes
      | false =>
        exact (perform_orders w ticket hc hends hcloses hmutes hspeaks).mono fun _ h => .inl h

/-- What any command does to a world. -/
theorem perform_makes (w : World) (ticket : Nat) {c : Command} (hc : ∀ ms, c ≠ .wait ms) :
    Makes Change.Commands w (w.perform ticket c).1 := by
  rcases perform_cases w ticket hc with
    ⟨owner, rfl⟩ | rfl | ⟨-, serial, hshuts⟩ | ⟨-, hhushes⟩ | hasks
  · exact (teardown_makes w owner).mono fun _ h => .inr h
  · exact (shutdown_makes w).mono fun _ h => .inr h
  · exact hshuts.mono fun _ h => .inr h.detaches.undoes
  · exact hhushes.mono fun _ h => .inr h.finishes.undoes
  · exact hasks.mono fun _ h => .inl h

end World

end Patchbay
