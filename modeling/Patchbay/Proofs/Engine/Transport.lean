import Patchbay.Proofs.Engine.Change
import Patchbay.Proofs.Lists

/-! What the transport does to a world, as primitive changes. -/

namespace Patchbay

/-- An answer goes to whoever waits for it. -/
def Change.Answers : Change → Prop := Among ([.answer, .settle] ++ Kind.basic)

/-- What is delivered may be answered, at once or by a task that answers a call of the component's
own API; and it goes to the cells of those who await it. -/
def Change.Hears (ack : Option CellId) (awaits : CellId → Prop) : Change → Prop
  | .spawn (.hook _ _ (.served responder)) => responder = none ∨ responder = ack
  | .answer cell _ => ack = some cell ∨ awaits cell
  | c => c.Basic

/-- It may also be queued for workers, and takes those off that were to hear it once. -/
def Change.Delivers (ack : Option CellId) (awaits : CellId → Prop) : Change → Prop
  | .enqueue .. | .spend .. => True
  | c => c.Hears ack awaits

/-- A server may answer, or keep its answer for later. -/
def Change.Hands : Change → Prop
  | .hold _ | .answer .. => True
  | c => c.Basic

/-- Before that it may push events. -/
def Change.Replies : Change → Prop
  | .hold _ => True
  | .answer .. => True
  | .spawn (.hook _ _ (.served _)) => True
  | .enqueue .. | .spend .. => True
  | c => c.Basic

/-- Its reply may shut the connection it is sent on. -/
def Change.Serves (serial : Nat) : Change → Prop
  | .shut n => n = serial
  | c => c.Replies

/-- On its way to its server an emit makes nobody listen. -/
def Change.Relays : Change → Prop
  | .expect .. => True
  | .spawn (.receive _ (.forward _ _)) => True
  | .spawn (.serve ..) => True
  | c => c.Quiet

/-- An emit that is handed to its server may wait for an answer; the server's task is started, and
the one that brings back its answer. -/
def Change.Routes : Change → Prop
  | .expect .. => True
  | .spawn (.receive _ (.forward _ _)) => True
  | .spawn (.serve ..) => True
  | c => c.Basic

/-- An emit is put on the trace and handed over. -/
def Change.Sends : Change → Prop
  | .record (.emitted ..) => True
  | c => c.Routes

/-- A listener that feeds no worker, and that nobody waits with. -/
def Reaction.Plain : Reaction → Prop
  | .await _ | .enqueue .. => False
  | _ => True

theorem Change.basic_listen {serial : Nat} {event : String} {action : Reaction} {once : Bool}
    (h : action.Plain) : (Change.listen serial event action once).Basic := by
  cases action <;> first | exact trivial | exact h.elim

theorem Change.Basic.hears {c : Change} {ack : Option CellId} {awaits : CellId → Prop}
    (h : c.Basic) : c.Hears ack awaits := by
  cases c <;> first | exact h | exact h.elim

theorem Change.Hears.delivers {c : Change} {ack : Option CellId} {awaits : CellId → Prop}
    (h : c.Hears ack awaits) : c.Delivers ack awaits := by
  cases c <;> first | exact trivial | exact h

theorem Change.Basic.delivers {c : Change} {ack : Option CellId} {awaits : CellId → Prop}
    (h : c.Basic) : c.Delivers ack awaits := h.hears.delivers

/-- Without a responder, less may be answered. -/
theorem Change.Delivers.widen {c : Change} {ack : Option CellId} {awaits : CellId → Prop}
    (h : c.Delivers none awaits) : c.Delivers ack awaits := by
  cases c with
  | spawn job =>
    cases job with
    | hook hook argument after => cases after <;> first | exact h.elim | exact .inl (h.elim id id)
    | _ => exact h.elim
  | answer cell v => exact .inr (h.elim nofun id)
  | _ => exact h

theorem Change.Delivers.replies {c : Change} {ack : Option CellId} {awaits : CellId → Prop}
    (h : c.Delivers ack awaits) : c.Replies := by
  cases c with
  | spawn job =>
    cases job with
    | hook hook argument after => cases after <;> first | exact h.elim | trivial
    | _ => exact h.elim
  | _ => first | exact h | exact trivial

theorem Change.Hands.replies {c : Change} (h : c.Hands) : c.Replies := by
  cases c <;> first | exact trivial | exact h | exact h.elim

theorem Change.Hands.among {c : Change} (h : c.Hands) :
    c.Among ([.hold, .answer] ++ Kind.basic) := by
  cases c <;> first | exact trivial | exact (show Change.Basic _ from h).mono rfl

theorem Change.Replies.serves {c : Change} {serial : Nat} (h : c.Replies) : c.Serves serial := by
  cases c <;> first | exact h | exact h.elim

theorem Change.Replies.among {c : Change} (h : c.Replies) :
    c.Among ([.hold, .answer, .spawn, .enqueue, .spend] ++ Kind.basic) := by
  cases c <;> first | exact trivial | exact h.elim | exact (show Change.Basic _ from h).mono rfl

theorem Change.Serves.eq_shut_or {c : Change} {serial : Nat} (h : c.Serves serial) :
    c = .shut serial ∨ c.Replies := by
  cases c with
  | shut n => exact .inl (congrArg Change.shut h)
  | _ => exact .inr h

theorem Change.Basic.replies {c : Change} (h : c.Basic) : c.Replies := by
  cases c <;> first | exact h | exact h.elim

theorem Change.Shuts.serves {c : Change} {serial : Nat} (h : c.Shuts serial) : c.Serves serial := by
  cases c <;> first | exact h | exact (Change.Stirs.basic h).replies

theorem Change.Basic.routes {c : Change} (h : c.Basic) : c.Routes := by
  cases c <;> first | exact h | exact h.elim

theorem Change.Relays.routes {c : Change} (h : c.Relays) : c.Routes := by
  cases c with
  | spawn job =>
    cases job with
    | receive cell after => cases after <;> first | exact trivial | exact h
    | _ => first | exact trivial | exact h
  | _ => first | exact trivial | exact Change.Quiet.basic h

theorem Change.Routes.sends {c : Change} (h : c.Routes) : c.Sends := by
  cases c with
  | record event => cases event <;> first | exact h | exact h.elim
  | _ => exact h

theorem Change.Sends.among {c : Change} (h : c.Sends) :
    c.Among ([.emission, .expect, .spawn] ++ Kind.basic) := by
  cases c with
  | record event => cases event <;> first | exact trivial | exact h.elim
  | _ => first | exact trivial | exact h.elim | exact (show Change.Basic _ from h).mono rfl

/-- A listener for this worker. -/
def Reaction.feeds (worker : Nat) : Reaction → Bool
  | .enqueue i _ => i == worker
  | _ => false

namespace World

/-! Connections -/

/-- On a connection that is there, the guarded change is the plain one. -/
theorem updateConnection_eq_adjust {w : World} {serial : Nat} {c : Connection}
    (hc : w.connection? serial = some c) {f g : Connection → Connection} (hfg : f c = g c) :
    w.updateConnection serial f = w.adjust serial g := by
  unfold connection? at hc
  split at hc
  · exact absurd hc nofun
  · rename_i hserial
    rw [updateConnection, adjust, if_neg hserial, modify_eq_of_getElem? hc hfg]

/-- A delivery takes those off that were to hear its event once. -/
theorem updateConnection_spend {w : World} {serial : Nat} {c : Connection}
    (hc : w.connection? serial = some c) (event : String) :
    w.updateConnection serial (fun c' => { c' with listeners := (c.listeners.deliver event).2 })
      = w.apply (.spend serial event) :=
  updateConnection_eq_adjust hc rfl

theorem adjust_eq_self {w : World} {serial : Nat} (hc : w.connection? serial = none)
    (f : Connection → Connection) : w.adjust serial f = w := by
  unfold connection? at hc
  by_cases hserial : serial = 0
  · simp [adjust, hserial]
  · rw [if_neg hserial] at hc
    rw [adjust, if_neg hserial, List.modify_eq_self (List.getElem?_eq_none_iff.1 hc)]

theorem listen_eq (w : World) (serial : Nat) (event : String) (action : Reaction) (once : Bool) :
    (w.listen serial event action once).1 = w.apply (.listen serial event action once) := by
  unfold listen
  split
  · rename_i hc
    exact (adjust_eq_self hc _).symm
  · rename_i c hc
    exact updateConnection_eq_adjust hc rfl

theorem listen_makes (w : World) (serial : Nat) (event : String) {action : Reaction}
    (haction : action.Plain) (once : Bool) :
    Makes Change.Basic w (w.listen serial event action once).1 := by
  rw [listen_eq]
  exact .one _ (Change.basic_listen haction)

theorem listenersOn_of_connection? {w : World} {n : Nat} {c : Connection}
    (h : w.connection? n = some c) : w.listenersOn n = c.listeners.entries := by
  simp only [listenersOn, h, Option.map_some, Option.getD_some]

theorem getElem?_unfed (workers : List Worker) (action : Reaction) (k : Nat) :
    (unfed workers action)[k]? =
      workers[k]?.map fun x => { x with fed := x.fed && !action.feeds k } := by
  cases action with
  | enqueue worker token =>
    simp only [unfed, Reaction.feeds, List.getElem?_modify]
    cases workers[k]? with
    | none => rfl
    | some x =>
      by_cases hk : worker = k
      · simp [hk]
      · simp [hk, beq_false_of_ne hk]
  | _ => cases h : workers[k]? <;> simp [unfed, Reaction.feeds, h]

/-- A worker is fed no more when a listener that fed it is gone. -/
theorem getElem?_foldl_unfed (workers : List Worker) (actions : List Reaction) (k : Nat) :
    (actions.foldl unfed workers)[k]? =
      workers[k]?.map fun x => { x with fed := x.fed && !actions.any (·.feeds k) } := by
  induction actions generalizing workers with
  | nil => simp
  | cons action rest ih =>
    rw [List.foldl_cons, ih, getElem?_unfed, Option.map_map]
    refine congrArg (Option.map · _) (funext fun x => ?_)
    simp [Bool.and_assoc]

/-- What a listener leaves behind is told, whatever else happens to the workers. -/
theorem release_makes (w : World) (action : Reaction) (f : List Worker → List Worker) :
    Makes Change.Stirs { w with workers := f (unfed w.workers action) }
      { w.release action with workers := f (w.release action).workers } := by
  cases action with
  | enqueue worker token => exact .one (.signal (.queue worker)) trivial
  | await cell =>
    have habandon : ({ w.abandon cell with workers := f (w.abandon cell).workers } : World) =
        { w with workers := f w.workers }.abandon cell := by
      unfold abandon fill
      have hcell : { w with workers := f w.workers }.cell cell = w.cell cell := rfl
      rw [hcell]
      cases w.cell cell <;> rfl
    simp only [release, unfed]
    rw [habandon]
    exact .one (.abandon cell) trivial
  | _ => exact .nothing

theorem foldl_release_makes (w : World) (actions : List Reaction) :
    Makes Change.Stirs { w with workers := actions.foldl unfed w.workers }
      (actions.foldl release w) := by
  induction actions generalizing w with
  | nil => exact .nothing
  | cons action rest ih =>
    exact (release_makes w action fun workers => rest.foldl unfed workers).trans (ih _)

/-- Listeners go from their connection first; then what fed on them is told. -/
theorem removeListeners_eq (w : World) (serial : Nat) (out : Listener Reaction → Bool) :
    Makes Change.Stirs (w.apply (.hush serial out)) (w.removeListeners serial out) := by
  unfold removeListeners
  split
  · rename_i hc
    have hnobody : w.listenersOn serial = [] := by simp only [listenersOn, hc]; rfl
    have hnothing : w.apply (.hush serial out) = w := by
      simp only [apply]
      rw [adjust_eq_self hc, hnobody]
      rfl
    rw [hnothing]
    exact .nothing
  · rename_i c hc
    have hhush : w.apply (.hush serial out) =
        { w.updateConnection serial fun c' =>
          { c' with listeners := (c.listeners.remove out).2 } with
          workers := (c.listeners.remove out).1.foldl unfed w.workers } := by
      have hadjust : (w.updateConnection serial fun c' =>
          { c' with listeners := (c.listeners.remove out).2 }) =
            w.adjust serial fun c' => { c' with listeners := (c'.listeners.remove out).2 } :=
        updateConnection_eq_adjust hc rfl
      simp only [apply, listenersOn_of_connection? hc, hadjust]
      rfl
    rw [hhush]
    exact foldl_release_makes _ _

theorem removeListeners_makes (w : World) (serial : Nat) (out : Listener Reaction → Bool) :
    Makes Change.Hushes w (w.removeListeners serial out) :=
  (Makes.one _ trivial).trans ((removeListeners_eq w serial out).mono fun _ hc => hc.hushes)

theorem abandonIf_makes (w : World) (ack : Option CellId) :
    Makes Change.Basic w (w.abandonIf ack) := by
  cases ack with
  | none => exact .nothing
  | some cell => exact .one (.abandon cell) trivial

theorem answerIf_makes (w : World) (ack : Option CellId) (v : Json) :
    Makes Change.Answers w (w.answerIf ack v) := by
  cases ack with
  | none => exact .nothing
  | some cell => exact .one (.answer cell v) trivial

theorem waitingOn_of_connection? {w : World} {n : Nat} {c : Connection}
    (h : w.connection? n = some c) : w.waitingOn n = c.waiting := by
  simp only [waitingOn, h, Option.map_some, Option.getD_some]

/-- Closing shuts a connection that is open. -/
theorem close_eq {w : World} {serial : Nat} (h : w.isConnected serial = true) :
    w.close serial = w.apply (.shut serial) := by
  unfold isConnected at h
  split at h
  · rename_i c hc
    have hshut : w.updateConnection serial (fun c => { c with connected := false, waiting := [] }) =
        w.adjust serial fun c => { c with connected := false, waiting := [] } :=
      updateConnection_eq_adjust hc rfl
    simp only [close, hc, h, Bool.not_true, Bool.false_eq_true, ↓reduceIte, hshut, apply,
      waitingOn_of_connection? hc]
    rfl
  · cases h

theorem close_eq_self {w : World} {serial : Nat} (h : w.isConnected serial = false) :
    w.close serial = w := by
  unfold isConnected at h
  unfold close
  split at h <;> simp_all

theorem close_makes (w : World) (serial : Nat) :
    Makes (Change.Shuts serial) w (w.close serial) := by
  cases hconnected : w.isConnected serial with
  | true =>
    rw [close_eq hconnected]
    exact .one (.shut serial) rfl
  | false =>
    rw [close_eq_self hconnected]
    exact .nothing

theorem connection?_adjust (w : World) (serial : Nat) (f : Connection → Connection) (n : Nat) :
    (w.adjust serial f).connection? n =
      if n = serial then (w.connection? n).map f else w.connection? n := by
  unfold connection? adjust
  by_cases hn : n = 0
  · simp [hn]
  · by_cases hserial : serial = 0
    · simp [hn, hserial]
    · simp only [if_neg hn, if_neg hserial, List.getElem?_modify]
      by_cases heq : n = serial
      · simp [heq]
      · have hne : serial - 1 ≠ n - 1 := by omega
        simp [heq, hne]

theorem foldl_abandon_connections (w : World) (entries : List (Nat × CellId)) :
    (entries.foldl (fun w (_, cell) => w.abandon cell) w).connections = w.connections := by
  induction entries generalizing w with
  | nil => rfl
  | cons entry rest ih =>
    have habandon : (w.abandon entry.2).connections = w.connections := by
      unfold abandon fill
      split <;> rfl
    rw [List.foldl_cons, ih, habandon]

theorem isConnected_congr {w w' : World} (h : w'.connections = w.connections) (serial : Nat) :
    w'.isConnected serial = w.isConnected serial := by
  simp only [isConnected, connection?, h]

theorem isConnected_close (w : World) (serial : Nat) :
    (w.close serial).isConnected serial = false := by
  cases hconnected : w.isConnected serial with
  | false => rw [close_eq_self hconnected, hconnected]
  | true =>
    let f (c : Connection) : Connection := { c with connected := false, waiting := [] }
    have hshut : (w.adjust serial f).connection? serial = (w.connection? serial).map f :=
      (connection?_adjust w serial f serial).trans (if_pos rfl)
    have hdown : (w.adjust serial f).isConnected serial = false := by
      simp only [isConnected, hshut]
      cases w.connection? serial <;> rfl
    rw [close_eq hconnected, apply, isConnected_congr (foldl_abandon_connections _ _)]
    exact hdown

/-! Deliveries -/

theorem set_makes (w : World) (place : Place) (path : String) (v : Json) :
    Makes Change.Basic w (w.set place path v) :=
  .one (.set place path v) trivial

/-- Somebody listens for an event that is to go to this cell. -/
def Awaits (w : World) (cell : CellId) : Prop :=
  ∃ n c l, w.connection? n = some c ∧ l ∈ c.listeners.entries ∧ l.action = .await cell

/-- Only a listener that feeds a worker queues what it hears. -/
theorem react_hears (w : World) {action : Reaction} (payload : Json) (ack : Option CellId)
    {awaits : CellId → Prop} (hplain : ∀ worker token, action ≠ .enqueue worker token)
    (hawaits : ∀ cell, action = .await cell → awaits cell) :
    Makes (Change.Hears ack awaits) w (w.react action payload ack) := by
  have hbasic {w w' : World} (h : Makes Change.Basic w w') : Makes (Change.Hears ack awaits) w w' :=
    h.mono fun _ hc => hc.hears
  have hanswered (w : World) (v : Json) : Makes (Change.Hears ack awaits) w (w.answerIf ack v) := by
    cases ack with
    | none => exact .nothing
    | some cell => exact .one (.answer cell v) (.inl rfl)
  cases action with
  | enqueue worker token => exact absurd rfl (hplain worker token)
  | status owner path token =>
    simp only [react]
    split
    · exact hbasic (abandonIf_makes w ack)
    · exact hbasic ((set_makes w _ path payload).trans (abandonIf_makes _ ack))
  | apiEvent owner paths token =>
    simp only [react]
    split
    · exact hbasic (abandonIf_makes w ack)
    · exact (hbasic (Makes.foldl (fun w path => set_makes w _ path payload) paths w)).trans
        (hanswered _ received)
  | serve hook token =>
    simp only [react]
    split
    · exact hbasic (abandonIf_makes w ack)
    · exact .one (.spawn _) (.inr rfl)
  | publish descriptor => exact hanswered w descriptor
  | probe name answer =>
    simp only [react]
    split
    · exact (Makes.one (.record _) trivial).trans (hanswered _ _)
    · exact hbasic ((Makes.one (.record _) trivial).trans (abandonIf_makes _ ack))
  | await cell =>
    exact (Makes.one (.answer cell payload) (.inr (hawaits cell rfl))).trans
      (hbasic (abandonIf_makes _ ack))

theorem react_makes (w : World) (action : Reaction) (payload : Json) (ack : Option CellId)
    {awaits : CellId → Prop} (hawaits : ∀ cell, action = .await cell → awaits cell) :
    Makes (Change.Delivers ack awaits) w (w.react action payload ack) := by
  have hears {action : Reaction} (hplain : ∀ worker token, action ≠ .enqueue worker token)
      (hawaits : ∀ cell, action = .await cell → awaits cell) :
      Makes (Change.Delivers ack awaits) w (w.react action payload ack) :=
    (react_hears w payload ack hplain hawaits).mono fun _ hc => hc.delivers
  cases action with
  | enqueue worker token =>
    have habandon (w : World) : Makes (Change.Delivers ack awaits) w (w.abandonIf ack) :=
      (abandonIf_makes w ack).mono fun _ hc => hc.delivers
    simp only [react]
    split
    · exact habandon w
    · exact (Makes.more (.signal (.queue worker))
        (.one (.enqueue worker payload) trivial) trivial).trans
        (habandon _)
  | _ => exact hears (by simp) hawaits

theorem reactAll_makes (w : World) (payload : Json) (ack : Option CellId) (actions : List Reaction)
    {awaits : CellId → Prop} (hawaits : ∀ cell, .await cell ∈ actions → awaits cell) :
    Makes (Change.Delivers ack awaits) w (w.reactAll payload ack actions) := by
  cases actions with
  | nil => exact (abandonIf_makes w ack).mono fun _ hc => hc.delivers
  | cons first rest =>
    have hfirst : Makes (Change.Delivers ack awaits) w (w.react first payload ack) :=
      react_makes w first payload ack fun cell heq => hawaits cell (heq ▸ List.mem_cons_self)
    refine hfirst.trans (Makes.foldl_of_mem rest (fun action hmem w => ?_) _)
    refine (react_makes w action payload none fun cell heq => ?_).mono fun _ hc => hc.widen
    exact hawaits cell (List.mem_cons_of_mem _ (heq ▸ hmem))

/-- A delivery fills the cells of those who await the event, and may be answered. -/
theorem deliver_makes (w : World) (serial : Nat) (event : String) (payload : Json)
    (ack : Option CellId) :
    Makes (Change.Delivers ack w.Awaits) w (w.deliver serial event payload ack) := by
  unfold deliver
  split
  · exact (abandonIf_makes w ack).mono fun _ hc => hc.delivers
  · rename_i c hc
    split
    · exact (abandonIf_makes w ack).mono fun _ hc => hc.delivers
    · simp only [updateConnection_spend hc]
      refine (Makes.one _ trivial).trans (reactAll_makes _ payload ack _ ?_)
      · intro cell hmem
        obtain ⟨l, hl, haction⟩ := List.mem_map.1 hmem
        exact ⟨serial, c, l, hc, (List.mem_filter.1 hl).1, haction⟩

/-! Emits and their answers -/

theorem route_relays (w : World) (serial : Nat) (namespaceName event : String) (payload : Json)
    (key : Option Nat) :
    Makes Change.Relays w (w.route serial namespaceName event payload key) := by
  unfold route
  split
  · exact .nothing
  · cases key with
    | none => exact .one (.spawn _) trivial
    | some key =>
      exact .more (.spawn (.serve serial event payload (some w.cells.length)))
        (.more (.spawn (.receive w.cells.length (.forward serial key)))
          (.one .newCell trivial) trivial)
        trivial

/-- An emit that is handed over with a number is served, or there is nobody to serve it. -/
theorem route_keyed (w : World) (serial : Nat) (namespaceName event : String) (payload : Json)
    (key : Nat) : w.route serial namespaceName event payload (some key) = w ∨
      w.server? namespaceName event ≠ none ∧
        w.route serial namespaceName event payload (some key) =
          ((w.apply .newCell).apply (.spawn (.receive w.cells.length (.forward serial key)))).apply
            (.spawn (.serve serial event payload (some w.cells.length))) := by
  unfold route
  split
  · exact .inl rfl
  · rename_i hserved
    refine .inr ⟨?_, rfl⟩
    intro hnone
    exact hserved (by rw [hnone]; rfl)

/-- An open connection takes an emit that wants an answer: it waits, and is handed over. -/
theorem send_some {w w' : World} {serial : Nat} {event : String} {payload : Json} {cell : CellId}
    (h : w.send serial event payload (some cell) = .ok w') :
    ∃ c, w.connection? serial = some c ∧ c.connected = true ∧
      w' =
        ((w.apply (.record (.emitted serial event payload true))).apply (.expect serial cell)).route
        serial c.namespaceName event payload (some c.nextKey) := by
  unfold send at h
  split at h
  · exact absurd h nofun
  · rename_i c hc
    split at h
    · exact absurd h nofun
    · rename_i hconnected
      have hexpect : ((w.record (.emitted serial event payload true)).updateConnection serial
          fun c =>
            { c with waiting := c.waiting ++ [(c.nextKey, cell)], nextKey := c.nextKey + 1 }) =
            (w.record (.emitted serial event payload true)).apply (.expect serial cell) :=
        updateConnection_eq_adjust (w := w.record _) hc rfl
      simp only [Option.isSome_some, hexpect] at h
      exact ⟨c, hc, by simpa using hconnected, (Except.ok.inj h).symm⟩

/-- An open connection takes an emit and hands it over. -/
theorem send_relays {w w' : World} {serial : Nat} {event : String} {payload : Json}
    {ack : Option CellId} (h : w.send serial event payload ack = .ok w') :
    w.isConnected serial = true ∧
      Makes Change.Relays (w.record (.emitted serial event payload ack.isSome)) w' := by
  cases ack with
  | some cell =>
    obtain ⟨c, hc, hconnected, rfl⟩ := send_some h
    refine ⟨by simpa only [isConnected, hc] using hconnected, ?_⟩
    exact (Makes.one (.expect serial cell) trivial).trans (route_relays _ ..)
  | none =>
    unfold send at h
    unfold isConnected
    split at h
    · exact absurd h nofun
    · rename_i c hc
      rw [hc]
      split at h
      · exact absurd h nofun
      · rename_i hconnected
        obtain rfl := Except.ok.inj h
        exact ⟨by simpa using hconnected, route_relays _ ..⟩

theorem send_ok {w w' : World} {serial : Nat} {event : String} {payload : Json}
    {ack : Option CellId} (h : w.send serial event payload ack = .ok w') :
    w.isConnected serial = true ∧
      Makes Change.Routes (w.record (.emitted serial event payload ack.isSome)) w' :=
  ⟨(send_relays h).1, (send_relays h).2.mono fun _ hc => hc.routes⟩

/-- Only a connection that is not open refuses an emit. -/
theorem send_error {w : World} {serial : Nat} {event : String} {payload : Json}
    {ack : Option CellId} {e : TransportError} (h : w.send serial event payload ack = .error e) :
    w.isConnected serial = false := by
  unfold send at h
  unfold isConnected
  split at h
  · rename_i hc
    rw [hc]
  · rename_i c hc
    rw [hc]
    split at h
    · rename_i hconnected
      simpa using hconnected
    · cases ack <;> exact absurd h nofun

theorem send_makes {w w' : World} {serial : Nat} {event : String} {payload : Json}
    {ack : Option CellId} (h : w.send serial event payload ack = .ok w') :
    Makes Change.Sends w w' :=
  (Makes.one (.record _) trivial).trans ((send_ok h).2.mono fun _ hc => hc.sends)

theorem resolve_eq (w : World) (serial key : Nat) (v : Json) :
    w.resolve serial key v = w.apply (.settle serial key v) := by
  unfold resolve
  split
  · rename_i hc
    simp only [apply, waitingOn, hc, Option.map_none, Option.getD_none, List.lookup_nil]
  · rename_i c hc
    have hsettle : (w.updateConnection serial fun c' =>
        { c' with waiting := c'.waiting.filter (·.1 != key) }) =
          w.adjust serial fun c' => { c' with waiting := c'.waiting.filter (·.1 != key) } :=
      updateConnection_eq_adjust hc rfl
    cases hlookup : c.waiting.lookup key <;>
      simp only [apply, waitingOn_of_connection? hc, hlookup, hsettle]

/-- The pushes of a reply are delivered before anything else. -/
theorem pushes_makes (w : World) (serial : Nat) (reply : PeerReply) : Makes Change.Replies w
    (reply.pushes.foldl (fun w push => w.deliver serial push.1 push.2 none) w) :=
  Makes.foldl (fun w (push : String × Json) =>
    (deliver_makes w serial push.1 push.2 none).mono fun _ hc => hc.replies) _ w

/-- The answer of a reply comes last. -/
theorem reply_makes (w : World) (serial : Nat) (reply : PeerReply) (ack : Option CellId) :
    ∃ mid, mid = (if reply.disconnect then
      (reply.pushes.foldl (fun w push => w.deliver serial push.1 push.2 none) w).close serial
      else reply.pushes.foldl (fun w push => w.deliver serial push.1 push.2 none) w) ∧
      Makes Change.Hands mid (w.serveEnd serial reply ack) := by
  refine ⟨_, rfl, ?_⟩
  cases ack with
  | none => exact .nothing
  | some cell =>
    cases hanswer : reply.answer <;> simp only [serveEnd, hanswer]
    · exact .one (.hold cell) trivial
    · exact .one (.abandon cell) trivial
    · exact .one (.answer cell _) trivial

/-- A server that does not disconnect shuts nothing. -/
theorem serveEnd_replies (w : World) (serial : Nat) {reply : PeerReply} (ack : Option CellId)
    (hstays : reply.disconnect = false) :
    Makes Change.Replies w (w.serveEnd serial reply ack) := by
  obtain ⟨mid, rfl, hanswer⟩ := reply_makes w serial reply ack
  rw [hstays] at hanswer
  exact (pushes_makes w serial reply).trans (hanswer.mono fun _ hc => hc.replies)

theorem serveEnd_makes (w : World) (serial : Nat) (reply : PeerReply) (ack : Option CellId) :
    Makes (Change.Serves serial) w (w.serveEnd serial reply ack) := by
  cases hdisconnect : reply.disconnect with
  | false => exact (serveEnd_replies w serial ack hdisconnect).mono fun _ hc => hc.serves
  | true =>
    obtain ⟨mid, rfl, hanswer⟩ := reply_makes w serial reply ack
    rw [hdisconnect] at hanswer
    exact (((pushes_makes w serial reply).mono fun _ hc => hc.serves).trans
      ((close_makes _ serial).mono fun _ hc => hc.serves)).trans
        (hanswer.mono fun _ hc => hc.replies.serves)

end World

end Patchbay
