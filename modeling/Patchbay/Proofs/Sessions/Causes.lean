import Patchbay.Proofs.Sessions.Residue

/-!
Which turn of a run closes a connection. A connection is closed by the client or the peer, with a
session on it that goes with its component, with the engine, or when the request fails for which it
was opened.
-/

namespace Patchbay

/-- Few jobs may shut a connection. -/
theorem Job.May.shuts {job : Job} {n : Nat} (h : job.May (.shut n)) :
    (∃ ticket name owner opts, job = .connect ticket name owner opts) ∨
      (∃ result c, job = .emitDone result (.discovery c)) ∨
      ∃ reply ack, job = .serveEnd n reply ack := by
  cases job with
  | connect ticket name owner opts => exact .inl ⟨ticket, name, owner, opts, rfl⟩
  | emitDone result after =>
    cases after with
    | discovery c => exact .inr (.inl ⟨result, c, rfl⟩)
    | _ => exact h.elim
  | serveEnd serial reply ack =>
    obtain rfl : n = serial := h
    exact .inr (.inr ⟨reply, ack, rfl⟩)
  | watch back => cases h
  | hookDone verdict after => cases after <;> exact h.elim
  | _ => exact h.elim

namespace World

variable {w₀ w₁ w w' : World} {log₀ log : List Moment} {n : Nat} {c : Connecting}

/-! Turns -/

/-- One turn of a run: a job, a command, or time. -/
inductive Turn (w : World) : World → Prop
  | job {task : Task} {rest : List Task} (hready : w.ready = task :: rest) :
      Turn w ((w.begin task rest).exec task.job)
  | command (ticket : Nat) {c : Command} (hc : ∀ ms, c ≠ .wait ms) : Turn w (w.perform ticket c).1
  | pass {t : Nat} (ht : w.now ≤ t) : Turn w { w with now := t }
  | wake : Turn w w.wakeDue

/-- The task that is ready first has a turn. -/
theorem Turn.of_ready (h : w.ready ≠ []) : w.Turn (w.steps 1).2 := by
  cases hready : w.ready with
  | nil => exact absurd hready h
  | cons task rest =>
    simp only [steps, hready]
    exact .job hready

theorem Turn.after (h : w.Turn w') (hrun : Run w₁ log w) : ∃ more, Run w₁ (log ++ more) w' := by
  cases h with
  | job hready => exact ⟨_, hrun.step hready⟩
  | command ticket hc => exact ⟨[], (List.append_nil log).symm ▸ hrun.command ticket hc⟩
  | pass ht => exact ⟨[], (List.append_nil log).symm ▸ hrun.pass ht⟩
  | wake => exact ⟨[], (List.append_nil log).symm ▸ hrun.wake⟩

/-- What holds first and does not in the end ceases at some turn. -/
theorem Run.exists_turn {I : World → Prop} (h : Run w₁ log w) (h₁ : I w₁) (hw : ¬ I w) :
    ∃ log₁ v v' log₂, Run w₁ log₁ v ∧ I v ∧ v.Turn v' ∧ ¬ I v' ∧ Run v' log₂ w := by
  have hgo {log : List Moment} {u u' : World} (hrun : Run w₁ log u) (hturn : u.Turn u')
      (hu' : ¬ I u')
      (ih : ¬ I u → ∃ log₁ v v' log₂, Run w₁ log₁ v ∧ I v ∧ v.Turn v' ∧ ¬ I v' ∧ Run v' log₂ u) :
      ∃ log₁ v v' log₂, Run w₁ log₁ v ∧ I v ∧ v.Turn v' ∧ ¬ I v' ∧ Run v' log₂ u' := by
    by_cases hu : I u
    · exact ⟨log, u, u', [], hrun, hu, hturn, hu', .start⟩
    · obtain ⟨log₁, v, v', log₂, hbefore, hv, hfirst, hv', hafter⟩ := ih hu
      obtain ⟨more, hmore⟩ := hturn.after hafter
      exact ⟨log₁, v, v', _, hbefore, hv, hfirst, hv', hmore⟩
  induction h with
  | start => exact absurd h₁ hw
  | step hrun hready ih => exact hgo hrun (.job hready) hw ih
  | command hrun ticket hc ih => exact hgo hrun (.command ticket hc) hw ih
  | pass hrun ht ih => exact hgo hrun (.pass ht) hw ih
  | wake hrun ih => exact hgo hrun .wake hw ih

/-! Requests -/

theorem Does.isConnected {P : Change → Prop} {Q : Job → Prop} (h : Does P Q w w')
    (hlive : w.isConnected n = true) (hshut : ¬ P (.shut n)) : w'.isConnected n = true := by
  obtain ⟨mid, e, hmid, -, rfl⟩ := h
  have hmid' : mid.isConnected n = true := isConnected_later hlive hmid hshut
  cases e <;> exact hmid'

/-- A request that fails closes no connection but the one that was opened for it. -/
theorem isConnected_failConnect (hlive : w.isConnected n = true)
    (hapart : c.reused = false → c.pass.channel.connection ≠ n) (error : EngineError) :
    (w.failConnect c error).isConnected n = true := by
  have hundone := isConnected_later hlive (undo_makes w c) id
  have hreported {w' : World} (hw' : w'.isConnected n = true) :
      (w'.apply (.report c.ticket (.failed error))).isConnected n = true := hw'
  cases hreused : c.reused with
  | true =>
    rw [failConnect_of_reused w hreused]
    exact hreported hundone
  | false =>
    rw [failConnect_of_fresh w hreused]
    exact hreported (isConnected_later hundone (discard_drops ..) fun heq =>
      hapart hreused heq.symm)

theorem isConnected_startConnect (hlive : w.isConnected n = true) (ticket : Nat) (name : String)
    (owner : ComponentId) (opts : ConnectOptions) :
    (w.startConnect ticket name owner opts).isConnected n = true := by
  rcases startConnect_cases w ticket name owner opts with
    hnone | ⟨acquired, r, c, mid, hacquired, -, -, hnew, hattaches, hends⟩
  · exact isConnected_later hlive hnone id
  · have hgot : acquired.isConnected n = true := isConnected_later hlive hacquired id
    have hentered : (acquired.enter r).isConnected n = true := hgot
    have hwired := isConnected_later hentered hattaches.makes id
    rcases hends with ⟨error, heq⟩ | heq
    · rw [heq]
      refine isConnected_failConnect hwired (fun hfresh hconnection => hnew hfresh ?_) error
      exact hconnection ▸ opened_of_isConnected hlive
    · rw [heq]
      exact (askOrFinish_does mid c).isConnected hwired id

/-- A job closes a connection for a server that breaks it off, or at the end of a request that fails
and for which it was opened. -/
theorem exec_closes {job : Job} (hlive : w.isConnected n = true)
    (hdown : (w.exec job).isConnected n = false) :
    (∃ reply ack, job = .serveEnd n reply ack ∧ reply.disconnect = true) ∨
      ∃ result c error, job = .emitDone result (.discovery c) ∧ c.reused = false ∧
        c.pass.channel.connection = n ∧ w.exec job = w.failConnect c error := by
  have hclosed : (w.exec job).isConnected n ≠ true := Bool.eq_false_iff.1 hdown
  by_cases hshut : job.May (.shut n)
  · rcases hshut.shuts with ⟨ticket, name, owner, opts, rfl⟩ | ⟨result, c, rfl⟩ | ⟨reply, ack, rfl⟩
    · exact absurd (isConnected_startConnect hlive ticket name owner opts) hclosed
    · rcases finishDiscovery_cases w result c with ⟨error, heq⟩ | ⟨_, d, -, -, heq⟩
      · rw [exec, heq] at hclosed
        by_cases hown : c.reused = false ∧ c.pass.channel.connection = n
        · exact .inr ⟨result, c, error, rfl, hown.1, hown.2, heq⟩
        · refine absurd (isConnected_failConnect hlive (fun hfresh hconnection => ?_) error) hclosed
          exact hown ⟨hfresh, hconnection⟩
      · rw [exec, heq] at hclosed
        exact absurd (isConnected_later hlive (finishWith_makes w c d) id) hclosed
    · refine .inl ⟨reply, ack, rfl, ?_⟩
      cases hbreaks : reply.disconnect with
      | true => rfl
      | false =>
        exact absurd (isConnected_later hlive (serveEnd_replies w n ack hbreaks) id) hclosed
  · exact absurd ((exec_does w job).isConnected hlive hshut) hclosed

/-! Closing turns -/

/-- A turn that closes a connection for one who may: the client or the peer, or somebody who has a
session on it that goes with its component, or with the engine. -/
inductive Closes (n : Nat) (w : World) : World → Prop
  | client (ticket : Nat) {name : String} {handle : Handle} (hhandle : w.handle? name = some handle)
      (hconnection : handle.connection = n) : Closes n w (w.perform ticket (.close name)).1
  | peer (ticket : Nat) {name : String} {handle : Handle} (hhandle : w.handle? name = some handle)
      (hconnection : handle.connection = n) : Closes n w (w.perform ticket (.kick name)).1
  | server {task : Task} {rest : List Task} {reply : PeerReply} {ack : Option CellId}
      (hready : w.ready = task :: rest) (hjob : task.job = .serveEnd n reply ack)
      (hbreaks : reply.disconnect = true) : Closes n w ((w.begin task rest).exec task.job)
  | teardown (ticket : Nat) {owner : ComponentId} {s : Session} (hs : s ∈ w.sessionsOf owner)
      (hteardown : s.teardown = true) (hconnection : s.channel.connection = n) :
      Closes n w (w.perform ticket (.teardown owner)).1
  | shutdown (ticket : Nat) {s : Session} (hs : s ∈ w.sessions)
      (hconnection : s.channel.connection = n) :
      Closes n w (w.perform ticket .shutdown).1

/-- The turn in which a request that waited for the peer's API fails. -/
inductive Fails (c : Connecting) (w : World) : World → Prop
  | discovery {task : Task} {rest : List Task} {result : Except EmitError EmitOutcome}
      (error : EngineError) (hready : w.ready = task :: rest)
      (hjob : task.job = .emitDone result (.discovery c)) :
      Fails c w ((w.begin task rest).failConnect c error)

theorem Fails.waits (h : Fails c w w') : c ∈ w.waiting := by
  cases h with
  | discovery error hready hjob =>
    rw [begin_waiting hready, hjob]
    exact List.mem_cons_self

/-- The request for which an open connection was opened, if it fails later, waits now. -/
theorem Run.opener_waited (h : Run w₁ log w) (hlive : w₁.isConnected n = true)
    (hfails : ∃ c, c.reused = false ∧ c.pass.channel.connection = n ∧ Fails c w w') :
    ∃ c ∈ w₁.waiting, c.reused = false ∧ c.pass.channel.connection = n ∧ Fails c w w' := by
  obtain ⟨c, hfresh, hconnection, hfails⟩ := hfails
  have hopened : w₁.Opened c.pass.channel.connection := hconnection ▸ opened_of_isConnected hlive
  exact ⟨c, h.since.opener hfails.waits hfresh hopened, hfresh, hconnection, hfails⟩

/-- A command closes a connection when it is to be closed, or with a session that is on it. -/
theorem perform_ends_connection {openers : List Charge} {muted : Bool} {past : Past}
    (horderly : Orderly muted past [] w) (hminded : Minded openers [] w) (ticket : Nat)
    {c : Command} (hc : ∀ ms, c ≠ .wait ms) (hlive : w.isConnected n = true)
    (hdown : (w.perform ticket c).1.isConnected n = false) : Closes n w (w.perform ticket c).1 := by
  have hclosed : (w.perform ticket c).1.isConnected n ≠ true := Bool.eq_false_iff.1 hdown
  have hsame (h : Leaves n w (w.perform ticket c).1) : False := hclosed (h.connected.trans hlive)
  rcases perform_cases w ticket hc with
    ⟨owner, rfl⟩ | rfl | ⟨hcloses, -⟩ | ⟨-, hhushes⟩ | hasks
  · by_cases hon : ∃ s ∈ w.sessionsOf owner, s.teardown = true ∧ s.channel.connection = n
    · obtain ⟨s, hs, hteardown, hconnection⟩ := hon
      exact .teardown ticket hs hteardown hconnection
    · refine (hsame (teardown_leaves ?_ ?_)).elim
      · exact fun s hs => horderly.own (hminded.roster.sessionsOf_subset owner hs)
      · exact fun s hs hteardown hconnection => hon ⟨s, hs, hteardown, hconnection⟩
  · by_cases hon : ∃ s ∈ w.sessions, s.channel.connection = n
    · obtain ⟨s, hs, hconnection⟩ := hon
      exact .shutdown ticket hs hconnection
    · refine (hsame (shutdown_leaves (fun s hs => horderly.own hs) ?_)).elim
      exact fun s hs hconnection => hon ⟨s, hs, hconnection⟩
  · rcases perform_closes w ticket hcloses with heq | ⟨name, handle, hname, hhandle, heq⟩
    · rw [heq] at hclosed
      exact absurd hlive hclosed
    · have hconnection : handle.connection = n := by
        rw [heq] at hclosed
        refine Decidable.byContradiction fun hother => hclosed ?_
        exact isConnected_later hlive (close_makes ..) fun hshut => hother hshut.symm
      rcases hname with rfl | rfl
      · exact .client ticket hhandle hconnection
      · exact .peer ticket hhandle hconnection
  · exact absurd (isConnected_later hlive hhushes id) hclosed
  · exact absurd (isConnected_later hlive hasks id) hclosed

/-- What a turn closes it closes for one who may, or a request fails in it for which it was
opened. -/
theorem Turn.closes {openers : List Charge} {muted : Bool} {past : Past}
    (horderly : Orderly muted past [] w) (hminded : Minded openers [] w) (h : w.Turn w')
    (hlive : w.isConnected n = true) (hdown : w'.isConnected n = false) : Closes n w w' ∨
      ∃ c, c.reused = false ∧ c.pass.channel.connection = n ∧ Fails c w w' := by
  cases h with
  | @job task rest hready =>
    have hbegun : (w.begin task rest).isConnected n = true := hlive
    rcases exec_closes hbegun hdown with
      ⟨reply, ack, hjob, hbreaks⟩ | ⟨result, c, error, hjob, hfresh, hconnection, heq⟩
    · exact .inl (.server hready hjob hbreaks)
    · exact .inr ⟨c, hfresh, hconnection, heq ▸ .discovery error hready hjob⟩
  | command ticket hc => exact .inl (perform_ends_connection horderly hminded ticket hc hlive hdown)
  | pass ht => exact nomatch hlive.symm.trans hdown
  | wake => exact nomatch hlive.symm.trans hdown

/-- An open connection stays open until the client or the peer closes it, or it is closed with a
session that is on it, or the request fails for which it was opened and which waited all the time:
that others have got it meanwhile does not save it. -/
theorem open_until_closed_or_opener_fails (hblank : w₀.Blank) (hbefore : Run w₀ log₀ w₁)
    (hafter : Run w₁ log w) (hlive : w₁.isConnected n = true) (hdown : w.isConnected n = false) :
    ∃ log₁ v v' log₂, Run w₁ log₁ v ∧ v.Turn v' ∧ Run v' log₂ w ∧ v.isConnected n = true ∧
      v'.isConnected n = false ∧ (Closes n v v' ∨
        ∃ c ∈ w₁.waiting, c.reused = false ∧ c.pass.channel.connection = n ∧ Fails c v v') := by
  obtain ⟨log₁, v, v', log₂, hearlier, hv, hturn, hv', hlater⟩ :=
    hafter.exists_turn (I := fun w => w.isConnected n = true) hlive (Bool.eq_false_iff.1 hdown)
  have hclosed := Bool.eq_false_iff.2 hv'
  refine ⟨log₁, v, v', log₂, hearlier, hturn, hlater, hv, hclosed, ?_⟩
  have hrun := hbefore.trans hearlier
  exact (hturn.closes (hrun.orderly hblank.orderly) (hrun.minded hblank.orderly hblank.minded) hv
    hclosed).imp_right (hearlier.opener_waited hlive)

/-- One component asks at a bureau that will refuse, and meanwhile another gets its connection. -/
def bureauShared : List Move :=
  [.command 0 (.connect "x" ⟨"a"⟩ { persist := .key "main", serverApi := some {} }), .steps 10,
    .command 1 (.connect "y" ⟨"b"⟩ shared), .steps 10]

def refusing : World := bureau (.obj [("emitError", .str "busy")])

/-- The bureau answers. -/
def refusingAnswered : List Moment × World :=
  (refusing.play bureauShared).2.play [.pass 60, .steps 20]

theorem shared_connection_shut_by_refusal :
    (∃ s ∈ (refusing.play bureauShared).2.sessionsOf ⟨"b"⟩, s.channel.connection = 1) ∧
      (refusing.play bureauShared).2.isConnected 1 = true ∧
        refusingAnswered.2.isConnected 1 = false ∧
      ∃ v v', v.Turn v' ∧ v.isConnected 1 = true ∧ v'.isConnected 1 = false ∧
        (Closes 1 v v' ∨ ∃ c ∈ (refusing.play bureauShared).2.waiting, c.reused = false ∧
          c.pass.channel.connection = 1 ∧ Fails c v v') := by
  have hlive : (refusing.play bureauShared).2.isConnected 1 = true := rfl
  have hdown : refusingAnswered.2.isConnected 1 = false := rfl
  have hbefore : Run refusing (refusing.play bureauShared).1 (refusing.play bureauShared).2 :=
    .of_play refusing rfl
  have hafter : Run (refusing.play bureauShared).2 refusingAnswered.1 refusingAnswered.2 :=
    .of_play _ rfl
  obtain ⟨log₁, v, v', log₂, -, hturn, -, hv, hv', hcause⟩ :=
    open_until_closed_or_opener_fails (bureau_blank _) hbefore hafter hlive hdown
  exact ⟨⟨_, .head _, rfl⟩, hlive, hdown, v, v', hturn, hv, hv', hcause⟩

/-- So a connection that was handed out is shut while nobody closes anything: the request of another
component fails. -/
theorem shut_by_request_of_another :
    ¬ ∀ (w₀ : World) (moves later : List Move) (ticket : Nat) (handle : Handle) (wired : Wired),
      w₀.Blank → (∀ server ∈ w₀.servers, ∀ calls v, (server.reply calls v).disconnect = false) →
      (ticket, .connected handle wired) ∈ (w₀.play moves).2.outcomes →
      (w₀.play moves).2.isConnected handle.connection = true →
      (∀ ticket c, .command ticket c ∉ later) →
      ((w₀.play moves).2.play later).2.isConnected handle.connection = true := by
  intro h
  have hstays : ∀ server ∈ refusing.servers, ∀ calls v,
      (server.reply calls v).disconnect = false := by
    intro server hserver calls v
    rw [List.mem_singleton.1 hserver]
  obtain ⟨handle, wired, houtcome, hconnection⟩ : ∃ handle wired,
      (1, Outcome.connected handle wired) ∈ (refusing.play bureauShared).2.outcomes ∧
        handle.connection = 1 := ⟨_, _, .head _, rfl⟩
  have hlive := h refusing bureauShared [.pass 60, .steps 20] 1 handle wired (bureau_blank _) hstays
    houtcome (hconnection ▸ rfl) (by simp)
  rw [hconnection] at hlive
  cases hlive

end World

end Patchbay
