import Patchbay.Proofs.Sessions.FailedConnect

/-!
What a piece of a request adds: bindings to the registry, watches to the trees, listeners to its
connection. Keeping the status of the connection adds listeners and nothing else, and a request that
waits for the peer's API adds nothing.
-/

namespace Patchbay

/-- A change that registers nothing, starts no watch and leaves alone who listens. -/
def Change.Inert : Change → Prop
  | .register .. | .releaseBindings _ | .attachBack .. => False
  | .listen .. | .hush .. | .spend .. | .attachWorker .. => False
  | _ => True

namespace Change

variable {ch : Change}

theorem Among.inert
    (h : ch.Among (Kind.but [.register, .releaseBindings, .attachBack, .listen, .await,
    .feed, .hush, .spend, .attachWorker])) : ch.Inert := by
  cases ch with
  | listen serial event action once => cases action <;> exact h.elim
  | _ => first | exact trivial | exact h.elim

theorem Quiet.inert (h : ch.Quiet) : ch.Inert := Among.inert (h.mono rfl)

theorem Relays.inert (h : ch.Relays) : ch.Inert := by
  cases ch with
  | listen => exact Quiet.inert h
  | _ => first | exact h.elim | exact trivial

theorem Inert.not_tunes (h : ch.Inert) : ¬ ch.Tunes := by
  cases ch <;> first | exact h.elim | exact id

end Change

namespace World

variable {w w' w'' : World} {serial : Nat} {new more : List (String × Reaction)} {p : Pass}

/-! ### What is added -/

/-- Only an emitBack starts a watch. -/
theorem created_apply (w : World) {ch : Change} (hch : ∀ back path, ch ≠ .attachBack back path)
    (place : Place) : ((w.apply ch).tree place).created = (w.tree place).created := by
  rw [(apply_woken w ch).tree]
  have hplanted (q : Place) (t : Tree) (ht : t.created = (w.tree q).created) :
      ((w.setTree q t).tree place).created = (w.tree place).created := by
    rw [tree_setTree]
    split
    · rename_i hplace
      rw [ht, hplace]
    · rfl
  have hsame {w' : World} (hcomponents : w'.components = w.components)
    (hstore : w'.store = w.store) :
      (w'.tree place).created = (w.tree place).created := by
    cases place <;> simp only [tree, component, hcomponents, hstore]
  cases ch with
  | attachBack back path => exact absurd rfl (hch back path)
  | set q path v => exact hplanted q _ rfl
  | touch q => exact hplanted q _ rfl
  | poll q n =>
    refine hplanted q _ ?_
    simp only [Tree.pollOne]
    split <;> rfl
  | unwatch q n => exact hplanted q _ rfl
  | countCall hook => exact congrArg Tree.created (tree_setComponent (by rfl) place)
  | insertCallable owner name c => exact congrArg Tree.created (tree_setComponent (by rfl) place)
  | track s =>
    simp only [effect, apply, track]
    split <;> exact hsame rfl rfl
  | _ => exact hsame rfl rfl

/-- Between these worlds nothing was registered and no watch was started, and who has come to listen
are these, on this connection. -/
structure AddsOnly (serial : Nat) (new : List (String × Reaction)) (w w' : World) : Prop where
  registry : w'.registry = w.registry
  created : ∀ place, (w'.tree place).created = (w.tree place).created
  heard : ∃ more, w'.listenersOn serial = w.listenersOn serial ++ more ∧
    more.map (fun l => (l.event, l.action)) = new
  unheard : ∀ n ≠ serial, w'.listenersOn n = w.listenersOn n

namespace AddsOnly

theorem nothing (serial : Nat) (w : World) : AddsOnly serial [] w w :=
  ⟨rfl, fun _ => rfl, ⟨[], (List.append_nil _).symm, rfl⟩, fun _ _ => rfl⟩

theorem resume (serial : Nat) (w : World) (job : Job) : AddsOnly serial [] w (w.resume job) :=
  ⟨rfl, fun place => by cases place <;> rfl, ⟨[], (List.append_nil _).symm, rfl⟩, fun _ _ => rfl⟩

theorem park (serial : Nat) (w : World) (job : Job) (signals : List Signal) (due : Option Nat) :
    AddsOnly serial [] w (w.park job signals due) :=
  ⟨rfl, fun place => by cases place <;> rfl, ⟨[], (List.append_nil _).symm, rfl⟩, fun _ _ => rfl⟩

theorem trans (h : AddsOnly serial new w w') (h' : AddsOnly serial more w' w'') :
    AddsOnly serial (new ++ more) w w'' where
  registry := h'.registry.trans h.registry
  created place := (h'.created place).trans (h.created place)
  heard := by
    obtain ⟨first, hfirst, hnew⟩ := h.heard
    obtain ⟨second, hsecond, hmore⟩ := h'.heard
    exact ⟨first ++ second, by rw [hsecond, hfirst, List.append_assoc], by simp [hnew, hmore]⟩
  unheard n hn := (h'.unheard n hn).trans (h.unheard n hn)

theorem after (h : AddsOnly serial new w w') (h' : AddsOnly serial [] w' w'') :
    AddsOnly serial new w w'' := by
  simpa using h.trans h'

theorem before (h : AddsOnly serial [] w w') (h' : AddsOnly serial new w' w'') :
    AddsOnly serial new w w'' :=
  h.trans h'

/-- Who is made to listen is all that is added. -/
theorem listen (hopened : w.Opened serial) (event : String) (action : Reaction) :
    AddsOnly serial [(event, action)] w (w.listen serial event action).1 := by
  obtain ⟨c, hc⟩ := hopened
  have hheard := listenersOn_listen hc event action false
  rw [listen_eq]
  exact {
    registry := apply_registry _ (by simp) (by simp)
    created := created_apply w (by simp)
    heard := ⟨_, by rw [hheard, if_pos rfl], rfl⟩
    unheard := fun n hn => by rw [hheard, if_neg hn, List.append_nil] }

/-- One listener after the other. -/
theorem foldl {α β : Type} {f : World × β → α → World × β} {listener : α → String × Reaction}
    (hf : ∀ acc a, (f acc a).1 = (acc.1.listen serial (listener a).1 (listener a).2).1)
    (things : List α) (acc : World × β) (hopened : acc.1.Opened serial) :
    AddsOnly serial (things.map listener) acc.1 (things.foldl f acc).1 := by
  induction things generalizing acc with
  | nil => exact nothing serial acc.1
  | cons a rest ih =>
    have hlisten := listen hopened (listener a).1 (listener a).2
    have hrest : (f acc a).1.Opened serial := by
      rw [hf, listen_eq]
      exact hopened.apply _
    rw [← hf] at hlisten
    exact hlisten.trans (ih (f acc a) hrest)

end AddsOnly

theorem Makes.addsOnly {P : Change → Prop} (h : Makes P w w') (hP : ∀ ch, P ch → ch.Inert)
    (serial : Nat) : AddsOnly serial [] w w' := by
  have hinert := h.mono hP
  have hheard := hinert.listenersOn fun _ hch => hch.not_tunes
  exact {
    registry := hinert.keeps (I := fun w' => w'.registry = w.registry)
      (fun w' ch hch hw => (apply_registry w' (by rintro _ _ _ rfl; exact hch)
        (by rintro _ rfl; exact hch)).trans hw) rfl
    created := fun place => hinert.keeps
      (I := fun w' => (w'.tree place).created = (w.tree place).created)
      (fun w' ch hch hw => (created_apply w' (by rintro _ _ rfl; exact hch) place).trans hw) rfl
    heard := ⟨[], by rw [hheard, List.append_nil], rfl⟩
    unheard := fun n _ => hheard n }

/-! ### The status of a connection -/

/-- The listeners that keep the status of a connection: one for each status event where the
component's data has the key, else none. -/
def statusListeners (w : World) (owner : ComponentId) (key : String) (t : Token) :
    List (String × Reaction) :=
  if (w.tree (.component owner)).contains key then
    statusEvents.map fun entry => (entry.1, .status owner (key ++ "." ++ entry.2) t)
  else []

theorem wireStatus_addsOnly (hopened : w.Opened p.channel.connection) (key url : String) :
    AddsOnly p.channel.connection (w.statusListeners p.owner key p.token) w
      (w.wireStatus p key url).1 := by
  cases hkey : (w.tree (.component p.owner)).contains key with
  | false =>
    simp only [wireStatus, statusListeners, hkey]
    exact .nothing _ w
  | true =>
    have hmerge : Makes Change.Inert w (w.merge (.component p.owner) key (statusFields url)) :=
      .one (.set _ key _) trivial
    simp only [wireStatus, statusListeners, hkey, Bool.not_true, Bool.false_eq_true, ↓reduceIte]
    refine (hmerge.addsOnly (fun _ h => h) p.channel.connection).before ?_
    refine AddsOnly.foldl ?_ statusEvents
      (w.merge (.component p.owner) key (statusFields url), ({} : Wired)) (hopened.makes hmerge)
    exact fun _ _ => rfl

/-! ### Requests that wait -/

theorem Does.addsOnly {Q : Job → Prop} (h : Does Change.Inert Q w w') (serial : Nat) :
    AddsOnly serial [] w w' := by
  obtain ⟨mid, e, hmid, -, rfl⟩ := h
  have hmade := hmid.addsOnly (fun _ hc => hc) serial
  cases e with
  | ended => exact hmade
  | resumes job => exact hmade.after (.resume serial mid job)
  | parks job signals due => exact hmade.after (.park serial mid job signals due)

theorem send_inert {serial : Nat} {event : String} {payload : Json} {ack : Option CellId}
    (h : w.send serial event payload ack = .ok w') : Makes Change.Inert w w' :=
  (Makes.one (.record _) trivial).trans ((send_relays h).2.mono fun _ hch => hch.inert)

theorem transmit_inert (w : World) (run : EmitRun) (after : AfterEmit) :
    Does Change.Inert (fun _ => True) w (w.transmit run after) := by
  have hcell : Makes Change.Inert w w.newCell.1 := .one .newCell trivial
  cases w.transmit_atTransport run after with
  | refused _ _ heq =>
    rw [heq]
    exact Makes.nothing.resumes trivial
  | sent _ hsend heq =>
    rw [heq]
    exact (send_inert hsend).resumesHook (fun _ _ => trivial) trivial
  | rejected _ _ heq =>
    rw [heq]
    exact hcell.resumes trivial
  | asked _ hsend heq =>
    rw [heq]
    exact (hcell.trans (send_inert hsend)).resumes trivial

/-- The emit with which the peer is asked attaches nothing on its way. -/
theorem exec_waits_inert {c : Connecting} {job : Job} (hc : job.connecting? = some c)
    (hdone : ∀ result, job ≠ .emitDone result (.discovery c)) :
    Does Change.Inert (fun _ => True) w (w.exec job) := by
  cases job with
  | emit run after => exact Makes.nothing.resumesHook (fun _ _ => trivial) trivial
  | transmit run after => exact transmit_inert w run after
  | await cell due run after =>
    cases w.awaitAnswer_atCell cell due run after with
    | answered _ _ heq | abandoned _ heq | late _ _ _ heq =>
      simp only [exec, heq]
      exact Makes.nothing.resumes trivial
    | waits _ _ heq =>
      simp only [exec, heq]
      exact Makes.nothing.parks trivial _ _
  | settle result run after =>
    cases result with
    | ok v => exact Makes.nothing.resumesHook (fun _ _ => trivial) trivial
    | error e =>
      exact (Makes.more (.recordError _ _) (.one (.record _) trivial) trivial).resumesHook
        (fun _ _ => trivial) trivial
  | emitDone result after =>
    cases after with
    | discovery c' =>
      obtain rfl : c' = c := Option.some.inj hc
      exact absurd rfl (hdone result)
    | _ => cases hc
  | hook hook argument after =>
    obtain ⟨mid, hmid, heq | ⟨reply, -, heq⟩⟩ := startHook_quiet w hook argument after
    · simp only [exec, heq]
      exact (hmid.mono fun _ hch => hch.inert).resumes trivial
    · simp only [exec, heq]
      exact (hmid.mono fun _ hch => hch.inert).resumesAfter trivial _
  | hookEnd hook reply after =>
    obtain ⟨mid, hmid, heq⟩ := endHook_quiet w hook reply after
    simp only [exec, heq]
    exact (hmid.mono fun _ hch => hch.inert).resumes trivial
  | hookDone verdict after =>
    cases after with
    | gate run after =>
      cases w.finishHook_atGate verdict run after with
      | vetoed _ heq | passed _ heq =>
        simp only [exec, heq]
        exact Makes.nothing.resumes trivial
      | failed _ _ heq =>
        simp only [exec, heq]
        exact (Makes.one (.record _) trivial).resumes trivial
    | settled result after => exact Makes.nothing.resumes trivial
    | _ => cases hc
  | _ => cases hc

end World

/-- A job of the request of this token that waits for the peer's API, before its emit is done. -/
def Moment.Asks (m : Moment) (t : Token) : Prop :=
  ∃ c, m.job.connecting? = some c ∧ c.pass.token = t ∧
    ∀ result, m.job ≠ .emitDone result (.discovery c)

/-- A request that waits adds nothing. -/
theorem Moment.Asks.addsOnly {m : Moment} {t : Token} (h : m.Asks t) (serial : Nat) :
    World.AddsOnly serial [] m.world m.after := by
  obtain ⟨c, hconnecting, -, hdone⟩ := h
  exact (World.exec_waits_inert hconnecting hdone).addsOnly serial

end Patchbay
