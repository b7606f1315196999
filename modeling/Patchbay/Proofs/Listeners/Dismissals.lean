import Patchbay.Proofs.Listeners.Reentrant
import Patchbay.Proofs.Sessions.Reconnect

/-!
How listeners go. A listener goes with a delivery that it hears, or it is removed and who waits on
it is told; no other change takes one off. So a law that removals and deliveries keep, each as a
whole, and all other changes keep one by one, is a law of the engine.
-/

namespace Patchbay

/-- A change that takes listeners off. -/
def Change.Removes : Change → Prop
  | .hush .. | .spend .. => True
  | _ => False

namespace Change

variable {c : Change}

theorem Among.not_removes (h : c.Among (Kind.but [.hush, .spend])) : ¬ c.Removes := by
  cases c <;> first | exact id | exact h.elim

theorem Basic.not_removes (h : c.Basic) : ¬ c.Removes := Among.not_removes (h.mono rfl)

theorem Utters.not_removes (h : c.Utters) : ¬ c.Removes := by
  cases c <;> first | exact h.elim | exact id

theorem Shuts.not_removes {serial : Nat} (h : c.Shuts serial) : ¬ c.Removes :=
  Among.not_removes (h.among.mono rfl)

theorem Hands.not_removes (h : c.Hands) : ¬ c.Removes := Among.not_removes (h.among.mono rfl)

theorem Acquires.not_removes (h : c.Acquires) : ¬ c.Removes := Among.not_removes (h.mono rfl)

theorem Enters.not_removes (h : c.Enters) : ¬ c.Removes := Among.not_removes (h.mono rfl)

theorem Wires.not_removes (h : c.Wires) : ¬ c.Removes := Among.not_removes (h.among.mono rfl)

theorem Concludes.not_removes (h : c.Concludes) : ¬ c.Removes := Among.not_removes (h.mono rfl)

end Change

/-- Most jobs take no listener off. -/
theorem Job.May.not_removes {job : Job} {c : Change} (h : job.May c)
    (hconnect : ∀ ticket name owner opts, job ≠ .connect ticket name owner opts)
    (hdiscovery : ∀ result c, job ≠ .emitDone result (.discovery c))
    (hserve : ∀ serial reply ack, job ≠ .serveEnd serial reply ack) : ¬ c.Removes := by
  cases job with
  | connect ticket name owner opts => exact absurd rfl (hconnect ticket name owner opts)
  | emitDone result after =>
    cases after with
    | discovery c => exact absurd rfl (hdiscovery result c)
    | _ => exact Change.Among.not_removes (h.among.mono rfl)
  | hookDone verdict after => cases after <;> exact Change.Among.not_removes (h.among.mono rfl)
  | serveEnd serial reply ack => exact absurd rfl (hserve serial reply ack)
  | _ => exact Change.Among.not_removes (h.among.mono rfl)

namespace World

variable {w w' w'' : World} {log : List Moment}

/-- What comes of a world while no listener goes unheeded: it hears a delivery, or is removed. -/
inductive Heeds (w : World) : World → Prop
  | nothing : Heeds w w
  | change {w' : World} (h : Heeds w w') {c : Change} (hc : ¬ c.Removes) : Heeds w (w'.apply c)
  | remove {w' : World} (h : Heeds w w') (n : Nat) (out : Listener Reaction → Bool) :
      Heeds w (w'.removeListeners n out)
  | deliver {w' : World} (h : Heeds w w') (n : Nat) (event : String) (payload : Json)
      (ack : Option CellId) : Heeds w (w'.deliver n event payload ack)

/-- A law of changes that take no listener off, of removals and of deliveries. -/
structure Heeded (I : World → Prop) : Prop where
  change : ∀ w c, ¬ Change.Removes c → I w → I (w.apply c)
  remove : ∀ w n out, I w → I (w.removeListeners n out)
  deliver : ∀ w n event payload ack, I w → I (w.deliver n event payload ack)
  idle : ∀ (w : World) (ready : List Task) (parked : List Parked) (running now : Nat), I w →
    I { w with ready, parked, running, now }

namespace Heeds

theorem trans (h : Heeds w w') (h' : Heeds w' w'') : Heeds w w'' := by
  induction h' with
  | nothing => exact h
  | change _ hc ih => exact ih.change hc
  | remove _ n out ih => exact ih.remove n out
  | deliver _ n event payload ack ih => exact ih.deliver n event payload ack

theorem makes {P : Change → Prop} (h : Heeds w w') (hmakes : Makes P w' w'')
    (hP : ∀ c, P c → ¬ c.Removes) : Heeds w w'' :=
  hmakes.keeps (fun _ c hc hw => hw.change (hP c hc)) h

theorem foldl {α : Type} {f : World → α → World} (hf : ∀ w a, Heeds w (f w a)) (items : List α)
    (h : Heeds w w') : Heeds w (items.foldl f w') := by
  induction items generalizing w' with
  | nil => exact h
  | cons a rest ih => exact ih (h.trans (hf w' a))

theorem keeps {I : World → Prop} (hI : Heeded I) (h : Heeds w w') (hw : I w) : I w' := by
  induction h with
  | nothing => exact hw
  | change _ hc ih => exact hI.change _ _ hc ih
  | remove _ n out ih => exact hI.remove _ n out ih
  | deliver _ n event payload ack ih => exact hI.deliver _ n event payload ack ih

end Heeds

/-! Sessions and requests that end -/

theorem detach_heeds (w : World) (s : Subscription Detach) : Heeds w (w.detach s) := by
  unfold detach
  split
  · exact .nothing
  · exact Heeds.nothing.remove _ _
  · rename_i t _
    exact Heeds.nothing.change (c := .cancel t) id

theorem detachAll_heeds (w : World) (subscriptions : List (Subscription Detach)) :
    Heeds w (w.detachAll subscriptions) :=
  Heeds.nothing.foldl detach_heeds subscriptions

theorem discard_heeds (w : World) (n : Nat) : Heeds w (w.discard n) := by
  have hsilenced : Heeds w (w.offAll n) := Heeds.nothing.remove n _
  have hclosed := hsilenced.makes (close_makes _ n) fun _ hc => hc.not_removes
  rw [discard_eq]
  exact (hclosed.change (c := .releaseBindings n) id).change (c := .forget n) id

theorem closeSession_heeds (w : World) (s : Session) : Heeds w (w.closeSession s) := by
  have hcancelled : Heeds w (w.cancel s.token) := Heeds.nothing.change (c := .cancel s.token) id
  exact (hcancelled.trans (detachAll_heeds _ s.subscriptions)).trans (discard_heeds _ _)

theorem teardown_heeds (w : World) (owner : ComponentId) : Heeds w (w.teardown owner).1 := by
  rw [teardown_eq]
  refine foldl_parted_keeps (I := Heeds w) ?_ ?_ (w.apply (.disown owner), 0)
    (Heeds.nothing.change (c := .disown owner) id)
  · exact fun v s _ _ hv => hv.trans (closeSession_heeds v s)
  · exact fun v s hv => hv.change (c := .outlive s) id

theorem shutdown_heeds (w : World) : Heeds w w.shutdown :=
  Heeds.foldl closeSession_heeds _ (Heeds.nothing.change (c := .disownAll) id)

theorem failConnect_heeds (w : World) (c : Connecting) (error : EngineError) :
    Heeds w (w.failConnect c error) := by
  have hundone : Heeds w (w.undo c) :=
    (detachAll_heeds w c.wired.subscriptions).change (c := .cancel c.pass.token) id
  cases hreused : c.reused with
  | true =>
    rw [failConnect_of_reused w hreused]
    exact hundone.change (c := .report ..) id
  | false =>
    rw [failConnect_of_fresh w hreused]
    exact (hundone.trans (discard_heeds _ _)).change (c := .report ..) id

/-! Jobs -/

theorem finishDiscovery_heeds (w : World) (result : Except EmitError EmitOutcome) (c : Connecting) :
    Heeds w (w.finishEmit result (.discovery c)) := by
  rcases finishDiscovery_cases w result c with ⟨error, hfailed⟩ | ⟨_, d, -, -, hfinished⟩
  · rw [hfailed]
    exact failConnect_heeds w c error
  · rw [hfinished]
    exact Heeds.nothing.makes (finishWith_makes w c d) fun _ hc => hc.not_removes

theorem serveEnd_heeds (w : World) (n : Nat) (reply : PeerReply) (ack : Option CellId) :
    Heeds w (w.serveEnd n reply ack) := by
  have hpushed : Heeds w (reply.pushes.foldl (fun w push => w.deliver n push.1 push.2 none) w) :=
    Heeds.foldl
      (fun w (push : String × Json) => Heeds.deliver (.nothing (w := w)) n push.1 push.2 none)
      reply.pushes .nothing
  obtain ⟨mid, rfl, hanswer⟩ := reply_makes w n reply ack
  refine Heeds.makes ?_ hanswer fun _ hc => hc.not_removes
  split
  · exact hpushed.makes (close_makes _ n) fun _ hc => hc.not_removes
  · exact hpushed

theorem connectNamespace_heeds (w : World) (c : Connecting) :
    ∃ mid e, Heeds w mid ∧ mid.onward e = w.connectNamespace c := by
  rcases connectNamespace_cases w c with
    ⟨v, c', error, hwires, hfailed⟩ | ⟨v, mid, attached, attached', hnamespace, hstore, hwired⟩
  · rw [hfailed]
    have hwired := Heeds.nothing.makes hwires fun _ hc => hc.not_removes
    exact ⟨_, .ended, hwired.trans (failConnect_heeds v c' error), rfl⟩
  · rw [hwired]
    have hpassed : Heeds w mid :=
      (Heeds.nothing.makes (wireNamespace_makes hnamespace) fun _ hc => hc.not_removes).makes
        (wireStore_makes hstore) fun _ hc => hc.not_removes
    obtain ⟨last, e, hlast, -, heq⟩ := askOrFinish_does mid _
    exact ⟨last, e, hpassed.makes hlast fun _ hc => hc.not_removes, heq⟩

theorem startConnect_heeds (w : World) (ticket : Nat) (name : String) (owner : ComponentId)
    (opts : ConnectOptions) :
    ∃ mid e, Heeds w mid ∧ mid.onward e = w.startConnect ticket name owner opts := by
  cases hresolved : (Resolved.ofRequest w.settings w.runtimeSockets opts).1 with
  | error error =>
    have hmakes := startConnect_of_error hresolved ticket name owner
    exact ⟨_, .ended, Heeds.nothing.makes hmakes fun _ hc => hc.not_removes, rfl⟩
  | ok r =>
    cases hacquire :
        ((Resolved.ofRequest w.settings w.runtimeSockets opts).2.foldl warn w).acquire r with
    | mk result acquired =>
      have hgot := Heeds.nothing.makes (acquired_makes hacquire) fun _ hc => hc.not_removes
      cases result with
      | error e =>
        refine ⟨_, .ended, hgot.change (c := .report ticket (.failed (.transport e))) id, ?_⟩
        exact (startConnect_of_refusal hresolved hacquire ticket name owner).symm
      | ok connection =>
        obtain ⟨serial, reused⟩ := connection
        let p : Pass := ⟨⟨serial, r.scope, r.emitTimeout⟩, owner, acquired.tokens, r.warnings⟩
        have hstatus := (hgot.makes (enter_makes acquired r) fun _ hc => hc.not_removes).makes
          (wireStatus_makes (acquired.enter r) p r.statusKey r.url) fun _ hc => hc.not_removes
        rw [startConnect_of_acquired hresolved hacquire]
        obtain ⟨mid, e, hwires, heq⟩ := connectNamespace_heeds
          ((acquired.enter r).wireStatus p r.statusKey r.url).1 _
        exact ⟨mid, e, hstatus.trans hwires, heq⟩

theorem exec_heeds (w : World) (job : Job) : ∃ mid e, Heeds w mid ∧ mid.onward e = w.exec job := by
  by_cases hconnect : ∃ ticket name owner opts, job = .connect ticket name owner opts
  · obtain ⟨ticket, name, owner, opts, rfl⟩ := hconnect
    exact startConnect_heeds w ticket name owner opts
  by_cases hdiscovery : ∃ result c, job = .emitDone result (.discovery c)
  · obtain ⟨result, c, rfl⟩ := hdiscovery
    exact ⟨_, .ended, finishDiscovery_heeds w result c, rfl⟩
  by_cases hserve : ∃ n reply ack, job = .serveEnd n reply ack
  · obtain ⟨n, reply, ack, rfl⟩ := hserve
    exact ⟨_, .ended, serveEnd_heeds w n reply ack, rfl⟩
  obtain ⟨mid, e, hmid, -, heq⟩ := exec_does w job
  refine ⟨mid, e, Heeds.nothing.makes hmid fun c hc => hc.not_removes ?_ ?_ ?_, heq⟩
  · exact fun ticket name owner opts heq => hconnect ⟨ticket, name, owner, opts, heq⟩
  · exact fun result c heq => hdiscovery ⟨result, c, heq⟩
  · exact fun n reply ack heq => hserve ⟨n, reply, ack, heq⟩

/-! Commands -/

theorem withHandle_heeds (w : World) (name : String) {f : Handle → World × Response}
    (hf : ∀ handle, Heeds w (f handle).1) : Heeds w (w.withHandle name f).1 := by
  unfold withHandle
  split
  · exact .nothing
  · exact hf _

theorem withPeer_heeds (w : World) (name : String) {f : Nat → World × Response}
    (hf : ∀ n, Heeds w (f n).1) : Heeds w (w.withPeer name f).1 := by
  refine withHandle_heeds w name fun handle => ?_
  split
  · exact hf _
  · exact .nothing

theorem perform_heeds (w : World) (ticket : Nat) {c : Command} (hc : ∀ ms, c ≠ .wait ms) :
    Heeds w (w.perform ticket c).1 := by
  cases hends : c.ends with
  | true =>
    cases c with
    | teardown owner => exact teardown_heeds w owner
    | shutdown => exact shutdown_heeds w
    | _ => cases hends
  | false =>
  cases hcloses : c.closes with
  | true =>
    obtain ⟨serial, hshuts⟩ := perform_shuts w ticket hcloses
    exact Heeds.nothing.makes hshuts fun _ hc => hc.not_removes
  | false =>
  cases hmutes : c.mutes with
  | true =>
    cases c with
    | off name event => exact withHandle_heeds w name fun _ => Heeds.nothing.remove _ _
    | offListener name id => exact withHandle_heeds w name fun _ => Heeds.nothing.remove _ _
    | offAll name => exact withHandle_heeds w name fun _ => Heeds.nothing.remove _ _
    | _ => cases hmutes
  | false =>
  cases hdelivers : c.delivers with
  | true =>
    cases c with
    | push name event payload =>
      exact withPeer_heeds w name fun n => Heeds.nothing.deliver n event payload none
    | request name event payload =>
      refine withPeer_heeds w name fun n => ?_
      have hasked : Heeds w w.newCell.1 := Heeds.nothing.change (c := .newCell) id
      exact (hasked.deliver n event payload (some w.cells.length)).change (c := .spawn _) id
    | _ => cases hdelivers
  | false =>
    have hutters := perform_utters w ticket hc hends hcloses hmutes hdelivers
    exact Heeds.nothing.makes hutters fun _ hc => hc.not_removes

/-- What is kept while no listener goes unheeded holds after any run. -/
theorem Run.keeps_heeded {I : World → Prop} (hI : Heeded I) (h : Run w log w') (hw : I w) :
    I w' := by
  induction h with
  | start => exact hw
  | @step log v task rest _ _ ih =>
    obtain ⟨mid, e, hheeds, heq⟩ := exec_heeds (v.begin task rest) task.job
    have hbegun : I (v.begin task rest) := hI.idle v rest v.parked task.id v.now ih
    rw [← heq]
    cases e <;> exact hI.idle mid _ _ mid.running mid.now (hheeds.keeps hI hbegun)
  | command _ ticket hc ih => exact (perform_heeds _ ticket hc).keeps hI ih
  | @pass log v _ t _ ih => exact hI.idle v v.ready v.parked v.running t ih
  | @wake log v _ ih => exact hI.idle v _ _ v.running v.now ih

end World

end Patchbay
