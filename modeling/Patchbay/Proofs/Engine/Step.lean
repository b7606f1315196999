import Patchbay.Proofs.Engine.Connecting

/-!
What one job does: the changes it may make, and how its task goes on. A task that serves an
emitBack serves that one to its end, and no other task comes to serve it; the same is true of a
connect request that waits for the peer's API.
-/

namespace Patchbay

/-- The emitBack a job serves, up to the emit of a change. -/
def Job.back? : Job → Option EmitBack
  | .watch back => some back
  | .change back _ => some back
  | .hook _ _ (.validated back _) => some back
  | .hookEnd _ _ (.validated back _) => some back
  | .hookDone _ (.validated back _) => some back
  | .emit _ (.change back) => some back
  | _ => none

/-- The loop of an emitBack. -/
def Job.isLoop : Job → Bool
  | .watch _ => true
  | _ => false

def AfterEmit.connecting? : AfterEmit → Option Connecting
  | .discovery c => some c
  | _ => none

def AfterHook.connecting? : AfterHook → Option Connecting
  | .gate _ after => after.connecting?
  | .settled _ after => after.connecting?
  | _ => none

/-- The connect request that a job goes on with: its wiring is done, and the peer is asked for its
API. -/
def Job.connecting? : Job → Option Connecting
  | .emit _ after => after.connecting?
  | .transmit _ after => after.connecting?
  | .await _ _ _ after => after.connecting?
  | .settle _ _ after => after.connecting?
  | .emitDone _ after => after.connecting?
  | .hook _ _ after => after.connecting?
  | .hookEnd _ _ after => after.connecting?
  | .hookDone _ after => after.connecting?
  | _ => none

/-- What is said of a cell: who waits for it, and who is to fill it. -/
inductive Mention where
  /-- The application waits for what comes. -/
  | client (cell : CellId)
  /-- What comes is the answer to that emit of that connection. -/
  | forward (cell : CellId) (connection key : Nat)
  /-- A server is asked, and is to answer there. -/
  | asked (cell : CellId) (connection : Nat) (event : String) (payload : Json)
  /-- A server has replied, and the answer of its reply is to go there. -/
  | replied (cell : CellId) (connection : Nat) (reply : PeerReply)
  /-- A server has kept it as a responder. -/
  | held (cell : CellId)
  /-- What a handler returns goes there. -/
  | called (cell : CellId)
  /-- A listener puts the event there that it waits for. -/
  | awaited (cell : CellId)
  /-- An emit of that connection waits for it, under that number. -/
  | expected (cell : CellId) (connection key : Nat)

def AfterHook.mention? : AfterHook → Option Mention
  | .served ack => ack.map .called
  | _ => none

/-- The cell that a job waits for or is to fill. -/
def Job.mention? : Job → Option Mention
  | .await cell .. => some (.client cell)
  | .receive cell (.forward connection key) => some (.forward cell connection key)
  | .receive cell _ => some (.client cell)
  | .serve connection event payload ack => ack.map (.asked · connection event payload)
  | .serveEnd connection reply ack => ack.map (.replied · connection reply)
  | .hook _ _ after => after.mention?
  | .hookEnd _ _ after => after.mention?
  | .hookDone _ after => after.mention?
  | _ => none

def AfterHook.worker? : AfterHook → Option Nat
  | .admitted worker _ => some worker
  | .applied worker => some worker
  | _ => none

def AfterAction.worker? : AfterAction → Option Nat
  | .ticket _ => none
  | .applied worker _ => some worker

/-- The worker that a job is part of. -/
def Job.worker? : Job → Option Nat
  | .work worker => some worker
  | .apply worker _ => some worker
  | .applied worker _ => some worker
  | .hook _ _ after => after.worker?
  | .hookEnd _ _ after => after.worker?
  | .hookDone _ after => after.worker?
  | .dispatch _ _ after => after.worker?
  | .actionEnd _ _ _ after => after.worker?
  | .actionDone _ after => after.worker?
  | _ => none

/-- A job after which its task may come to wait for another cell, or to fill it in another way. -/
def Job.turns : Job → Bool
  | .transmit .. => true
  | .serve .. => true
  | _ => false

/-- The emitBack's loop takes its changes one by one, and gives its watch up at the end. -/
inductive Change.Watches (back : EmitBack) : Change → Prop
  | poll : Watches back (.poll back.place back.watch)
  | start (v : Json) : Watches back (.spawn (.change back v))
  | unwatch : Watches back (.unwatch back.place back.watch)

/-- A rejected emit is recorded when it settles, and at no other time. -/
def Change.Settles : Change → Prop := Among (.recordError :: Kind.basic)

/-- A worker takes what waits longest. -/
def Change.Takes (worker : Nat) : Change → Prop
  | .dequeue i => i = worker
  | c => c.Basic

theorem Change.Takes.eq_dequeue_or {c : Change} {worker : Nat} (h : c.Takes worker) :
    c = .dequeue worker ∨ c.Basic := by
  cases c with
  | dequeue i => exact .inl (congrArg Change.dequeue h)
  | _ => exact .inr h

/-- The changes a job may make. -/
def Job.May : Job → Change → Prop
  | .connect .. => Change.Connects
  | .emitDone _ (.discovery _) => Change.Finishes
  | .transmit .. => Change.Sends
  | .settle .. => Change.Settles
  | .hookDone _ (.served _) => Change.Answers
  | .receive .. => Change.Answers
  | .serveEnd serial .. => Change.Serves serial
  | .watch back => Change.Watches back
  | .work worker => Change.Takes worker
  | _ => Change.Basic

/-- The kinds of these changes. -/
def Job.kinds : Job → List Change.Kind
  | .connect .. =>
    [.dial, .keep, .evict, .setTimeout, .attachBack, .attachWorker] ++ Change.Kind.finishes
  | .emitDone _ (.discovery _) => Change.Kind.finishes
  | .transmit .. => [.emission, .expect, .spawn] ++ Change.Kind.basic
  | .settle .. => .recordError :: Change.Kind.basic
  | .hookDone _ (.served _) => [.answer, .settle] ++ Change.Kind.basic
  | .receive .. => [.answer, .settle] ++ Change.Kind.basic
  | .serveEnd .. => [.shut, .hold, .answer, .spawn, .enqueue, .spend] ++ Change.Kind.basic
  | .watch _ => [.poll, .spawn, .unwatch]
  | .work _ => .dequeue :: Change.Kind.basic
  | _ => Change.Kind.basic

theorem Job.May.among {job : Job} {c : Change} (h : job.May c) : c.Among job.kinds := by
  cases job with
  | connect => exact Change.Connects.among h
  | emitDone result after => cases after <;> exact h
  | transmit => exact Change.Sends.among h
  | hookDone verdict after => cases after <;> exact h
  | serveEnd =>
    rcases Change.Serves.eq_shut_or h with rfl | hreplies
    · trivial
    · exact hreplies.among.mono rfl
  | watch => cases h <;> trivial
  | work =>
    rcases Change.Takes.eq_dequeue_or h with rfl | hbasic
    · trivial
    · exact Change.Among.mono hbasic rfl
  | _ => exact h

/-- What any job but the start of a connect request may do. -/
theorem Job.May.among_of_ne_connect {job : Job} {c : Change} (h : job.May c)
    (hjob : ∀ ticket name owner opts, job ≠ .connect ticket name owner opts) :
    c.Among
      ([.emission, .expect, .spawn, .recordError, .answer, .settle, .shut, .hold, .enqueue,
        .spend, .poll, .unwatch, .dequeue] ++ Change.Kind.finishes) := by
  cases job with
  | connect ticket name owner opts => exact absurd rfl (hjob ticket name owner opts)
  | emitDone result after => cases after <;> exact h.among.mono rfl
  | hookDone verdict after => cases after <;> exact h.among.mono rfl
  | _ => exact h.among.mono rfl

/-- What follows a job says of cells what the job said, or nothing, unless the job turns to
another. -/
inductive Job.Echoes (job next : Job) : Prop
  | turns (h : job.turns = true)
  | silent (h : next.mention? = none)
  | same (h : next.mention? = job.mention?)

/-- A job that may follow another in its task. Only the start of a connect request begins one, and a
worker has its task for itself. -/
structure Job.Leads (job next : Job) : Prop where
  back : ∀ back, next.back? = some back → job.back? = some back
  loop : next.isLoop = true → job.isLoop = true
  connecting : (∀ ticket name owner opts, job ≠ .connect ticket name owner opts) →
    ∀ c, next.connecting? = some c → job.connecting? = some c
  mention : job.Echoes next
  worker : next.worker? = job.worker?

namespace Job.Leads

variable {job next : Job}

theorem back?_of_isLoop {job : Job} (h : job.isLoop = true) : job.back? ≠ none := by
  cases job with
  | watch back => exact Option.some_ne_none back
  | _ => cases h

theorem refl (job : Job) : job.Leads job :=
  ⟨fun _ h => h, fun h => h, fun _ _ h => h, .same rfl, rfl⟩

theorem of_eq (hback : next.back? = job.back?) (hconnecting : next.connecting? = job.connecting?)
    (hidle : next.isLoop = false) (hmention : job.Echoes next)
    (hworker : next.worker? = job.worker?) : job.Leads next := by
  refine ⟨fun _ h => hback ▸ h, ?_, fun _ _ h => hconnecting ▸ h, hmention, hworker⟩
  intro h
  rw [hidle] at h
  cases h

/-- A job that serves no emitBack goes on with the same connect request. -/
theorem along (hback : next.back? = none) (hconnecting : next.connecting? = job.connecting?)
    (hmention : job.Echoes next) (hworker : next.worker? = job.worker?) : job.Leads next := by
  refine ⟨?_, fun h => absurd hback (back?_of_isLoop h), fun _ _ h => hconnecting ▸ h,
    hmention, hworker⟩
  intro back h
  rw [hback] at h
  cases h

/-- A job that serves neither an emitBack nor a connect request may follow any. -/
theorem free (hback : next.back? = none) (hconnecting : next.connecting? = none)
    (hmention : job.Echoes next) (hworker : next.worker? = job.worker?) : job.Leads next := by
  refine ⟨?_, fun h => absurd hback (back?_of_isLoop h), ?_, hmention, hworker⟩
  · intro back h
    rw [hback] at h
    cases h
  · intro _ c h
    rw [hconnecting] at h
    cases h

/-- Only the loop itself goes on as a loop. -/
theorem eq_watch {back : EmitBack} (h : job.Leads (.watch back)) : job = .watch back := by
  have hback := h.back back rfl
  have hloop := h.loop rfl
  cases job with
  | watch b => exact congrArg Job.watch (Option.some.inj hback)
  | _ => cases hloop

end Job.Leads

namespace World

/-! Handlers -/

/-- What a handler would return if it were called now; one that is not there returns nothing. -/
def verdict (w : World) (hook : Hook) (argument : Json) : Verdict :=
  match Fields.get? hook.handler (w.component hook.owner).handlers with
  | none => .ok .null
  | some handler => (handler.reply handler.calls argument).verdict

/-- A called handler replies with its verdict, at once or after a delay. -/
theorem startHook_quiet (w : World) (hook : Hook) (argument : Json) (after : AfterHook) :
    ∃ mid, Makes Change.Quiet w mid ∧
      (w.startHook hook argument after = mid.resume (.hookDone (w.verdict hook argument) after) ∨
        ∃ reply, reply.verdict = w.verdict hook argument ∧
          w.startHook hook argument after =
            mid.resumeAfter reply.delay (.hookEnd hook reply after)) := by
  cases hget : Fields.get? hook.handler (w.component hook.owner).handlers with
  | none =>
    refine ⟨w, .nothing, .inl ?_⟩
    simp only [startHook, verdict, hget]
  | some handler =>
    have hcount : w.apply (.countCall hook) = w.setComponent hook.owner
        { w.component hook.owner with
          handlers := Fields.insert hook.handler { handler with calls := handler.calls + 1 }
            (w.component hook.owner).handlers } := by
      simp only [apply, hget]
    have hcalled : Makes Change.Quiet w ((w.apply (.countCall hook)).record (.called hook.owner.text
        hook.handler argument ((handler.reply handler.calls argument).peek.map fun path =>
          Json.ofOption ((w.component hook.owner).data.get? path)))) :=
      .more (.record _) (.one (.countCall hook) trivial) trivial
    refine ⟨_, hcalled, .inr ⟨handler.reply handler.calls argument, ?_, ?_⟩⟩
    · simp only [verdict, hget]
    · simp only [startHook, hget, hcount]

theorem startHook_makes (w : World) (hook : Hook) (argument : Json) (after : AfterHook) :
    ∃ mid, Makes Change.Basic w mid ∧
      (w.startHook hook argument after = mid.resume (.hookDone (w.verdict hook argument) after) ∨
        ∃ reply, reply.verdict = w.verdict hook argument ∧
          w.startHook hook argument after =
            mid.resumeAfter reply.delay (.hookEnd hook reply after)) := by
  obtain ⟨mid, hmid, hends⟩ := startHook_quiet w hook argument after
  exact ⟨mid, hmid.mono fun _ hc => hc.basic, hends⟩

theorem startHook_does (w : World) (hook : Hook) (argument : Json) (after : AfterHook) :
    Does Change.Basic (Job.hook hook argument after).Leads w (w.startHook hook argument after) := by
  obtain ⟨mid, hmid, heq | ⟨reply, -, heq⟩⟩ := startHook_makes w hook argument after
  · rw [heq]
    exact hmid.resumes (.of_eq (by cases after <;> rfl) rfl rfl (.same rfl) rfl)
  · rw [heq]
    exact hmid.resumesAfter (.of_eq (by cases after <;> rfl) rfl rfl (.same rfl) rfl) _

theorem endHook_quiet (w : World) (hook : Hook) (reply : Reply) (after : AfterHook) :
    ∃ mid, Makes Change.Quiet w mid ∧
      w.endHook hook reply after = mid.resume (.hookDone reply.verdict after) := by
  refine ⟨_, ?_, rfl⟩
  cases reply.write with
  | none =>
    split
    · exact .one (.record _) trivial
    · exact .nothing
  | some entry =>
    have hwrite : Makes Change.Quiet w (w.set (.component hook.owner) entry.1 entry.2) :=
      .one (.set _ _ _) trivial
    split
    · exact .more (.record _) hwrite trivial
    · exact hwrite

theorem endHook_makes (w : World) (hook : Hook) (reply : Reply) (after : AfterHook) :
    ∃ mid, Makes Change.Basic w mid ∧
      w.endHook hook reply after = mid.resume (.hookDone reply.verdict after) := by
  obtain ⟨mid, hmid, heq⟩ := endHook_quiet w hook reply after
  exact ⟨mid, hmid.mono fun _ hc => hc.basic, heq⟩

theorem endHook_does (w : World) (hook : Hook) (reply : Reply) (after : AfterHook) :
    Does Change.Basic (Job.hookEnd hook reply after).Leads w (w.endHook hook reply after) := by
  obtain ⟨mid, hmid, heq⟩ := endHook_makes w hook reply after
  rw [heq]
  exact hmid.resumes (.of_eq (by cases after <;> rfl) rfl rfl (.same rfl) rfl)

/-! The turns of an emit -/

/-- An emit at its gate: a veto ends it, and anything else that the pre-hook says lets it
through. -/
inductive AtGate (verdict : Verdict) (run : EmitRun) (after : AfterEmit) (w w' : World) : Prop
  | vetoed (hveto : verdict.isVeto = true) (heq : w' = w.resume (.emitDone (.ok .vetoed) after))
  | failed (text : String) (hveto : verdict.isVeto = false)
    (heq : w' = (w.warn (.preHookFailed run.event text)).resume (.transmit run after))
  | passed (hveto : verdict.isVeto = false) (heq : w' = w.resume (.transmit run after))

theorem finishHook_atGate (w : World) (verdict : Verdict) (run : EmitRun) (after : AfterEmit) :
    AtGate verdict run after w (w.finishHook verdict (.gate run after)) := by
  cases hveto : verdict.isVeto with
  | true => exact .vetoed hveto (if_pos hveto)
  | false =>
    cases verdict with
    | error text => exact .failed text hveto (by simp [finishHook, hveto])
    | ok v => exact .passed hveto (by simp [finishHook, hveto])

/-- An emit at the transport: it is refused, or sent. If no answer was asked that is all, else it is
to be settled or to wait at a new cell. -/
inductive AtTransport (run : EmitRun) (after : AfterEmit) (w w' : World) : Prop
  | refused {error : TransportError} (hack : run.noAck = true)
    (hsend : w.send run.channel.connection run.event run.payload none = .error error)
    (heq : w' = w.resume (.emitDone (.error (.transport error)) after))
  | sent {taken : World} (hack : run.noAck = true)
    (hsend : w.send run.channel.connection run.event run.payload none = .ok taken)
    (heq : w' = taken.resumeHook run.hooks.post .null (.settled (.ok .sent) after)
      (.emitDone (.ok .sent) after))
  | rejected {error : TransportError} (hack : run.noAck = false)
    (hsend : w.newCell.1.send run.channel.connection run.event run.payload (some w.newCell.2) =
      .error error)
    (heq : w' = w.newCell.1.resume (.settle (.error (.transport error)) run after))
  | asked {taken : World} (hack : run.noAck = false)
    (hsend : w.newCell.1.send run.channel.connection run.event run.payload (some w.newCell.2) =
      .ok taken)
    (heq : w' = taken.resume (.await w.newCell.2 (run.bound.map (taken.now + ·)) run after))

theorem transmit_atTransport (w : World) (run : EmitRun) (after : AfterEmit) :
    AtTransport run after w (w.transmit run after) := by
  unfold transmit
  cases hack : run.noAck with
  | true =>
    cases hsend : w.send run.channel.connection run.event run.payload none with
    | error error => exact .refused hack hsend rfl
    | ok taken => exact .sent hack hsend rfl
  | false =>
    dsimp only
    cases hsend :
        w.newCell.1.send run.channel.connection run.event run.payload (some w.newCell.2) with
    | error error => exact .rejected hack hsend rfl
    | ok taken => exact .asked hack hsend rfl

/-- An emit at its cell: it is to be settled with what it finds there, or when its time is over, and
waits until then. -/
inductive AtCell (cell : CellId) (due : Option Nat) (run : EmitRun) (after : AfterEmit)
    (w w' : World) : Prop
  | answered (v : Json) (hcell : w.cell cell = .answered v)
    (heq : w' = w.resume (.settle (Ack.settle run.event run.payload v w.stamp) run after))
  | abandoned (hcell : w.cell cell = .abandoned)
    (heq : w' = w.resume (.settle (.error (.disconnected run.event)) run after))
  | late {t : Nat} (hcell : w.cell cell = .empty) (hdue : due = some t) (hlate : t ≤ w.now)
    (heq : w' = w.resume (.settle (.error (.timeout run.event (run.bound.getD 0))) run after))
  | waits (hcell : w.cell cell = .empty) (hdue : ∀ t ∈ due, w.now < t)
    (heq : w' = w.park (.await cell due run after) [.cell cell] due)

theorem awaitAnswer_atCell (w : World) (cell : CellId) (due : Option Nat) (run : EmitRun)
    (after : AfterEmit) : AtCell cell due run after w (w.awaitAnswer cell due run after) := by
  unfold awaitAnswer
  cases hcell : w.cell cell with
  | answered v => exact .answered v hcell rfl
  | abandoned => exact .abandoned hcell rfl
  | empty =>
    cases due with
    | none => exact .waits hcell nofun rfl
    | some t =>
      by_cases hlate : t ≤ w.now
      · exact .late hcell rfl hlate (if_pos hlate)
      · exact .waits hcell (fun _ ht => Option.some.inj ht ▸ Nat.lt_of_not_le hlate) (if_neg hlate)

/-! The ends of hooks -/

theorem finishHook_does (w : World) (verdict : Verdict) (after : AfterHook) :
    Does (Job.hookDone verdict after).May (Job.hookDone verdict after).Leads w
      (w.finishHook verdict after) := by
  cases after with
  | gate run after =>
    cases w.finishHook_atGate verdict run after with
    | vetoed _ heq =>
      rw [heq]
      exact Makes.nothing.resumes (.along rfl rfl (.silent rfl) rfl)
    | failed text _ heq =>
      rw [heq]
      exact (Makes.one (.record _) trivial).resumes (.along rfl rfl (.silent rfl) rfl)
    | passed _ heq =>
      rw [heq]
      exact Makes.nothing.resumes (.along rfl rfl (.silent rfl) rfl)
  | settled result after => exact Makes.nothing.resumes (.along rfl rfl (.silent rfl) rfl)
  | validated back msg =>
    simp only [finishHook]
    split
    · exact Makes.nothing.ends
    · cases verdict with
      | error text =>
        exact (Makes.one (.record _) trivial).resumes (.of_eq rfl rfl rfl (.silent rfl) rfl)
      | ok v => exact Makes.nothing.resumes (.of_eq rfl rfl rfl (.silent rfl) rfl)
  | admitted worker payload =>
    simp only [finishHook]
    split
    · exact Makes.nothing.resumes (.free rfl rfl (.silent rfl) rfl)
    · exact Makes.nothing.resumes (.free rfl rfl (.silent rfl) rfl)
  | applied worker => exact Makes.nothing.resumes (.free rfl rfl (.silent rfl) rfl)
  | served ack =>
    cases verdict with
    | error text => exact (answerIf_makes w ack _).ends
    | ok v => exact (answerIf_makes w ack v).ends

/-! Emits -/

theorem startEmit_does (w : World) (run : EmitRun) (after : AfterEmit) :
    Does Change.Basic (Job.emit run after).Leads w
      (w.resumeHook run.hooks.pre run.payload (.gate run after) (.transmit run after)) :=
  Makes.nothing.resumesHook (fun _ _ => .along rfl rfl (.silent rfl) rfl)
    (.along rfl rfl (.silent rfl) rfl)

theorem transmit_does (w : World) (run : EmitRun) (after : AfterEmit) :
    Does Change.Sends (Job.transmit run after).Leads w (w.transmit run after) := by
  have hcell : Makes Change.Sends w w.newCell.1 := .one .newCell trivial
  cases w.transmit_atTransport run after with
  | refused _ _ heq =>
    rw [heq]
    exact Makes.nothing.resumes (.along rfl rfl (.silent rfl) rfl)
  | sent _ hsend heq =>
    rw [heq]
    exact (send_makes hsend).resumesHook (fun _ _ => .along rfl rfl (.silent rfl) rfl)
      (.along rfl rfl (.silent rfl) rfl)
  | rejected _ _ heq =>
    rw [heq]
    exact hcell.resumes (.along rfl rfl (.silent rfl) rfl)
  | asked _ hsend heq =>
    rw [heq]
    exact (hcell.trans (send_makes hsend)).resumes (.along rfl rfl (.turns rfl) rfl)

theorem awaitAnswer_does (w : World) (cell : CellId) (due : Option Nat) (run : EmitRun)
    (after : AfterEmit) :
    Does Change.Basic (Job.await cell due run after).Leads w
      (w.awaitAnswer cell due run after) := by
  cases w.awaitAnswer_atCell cell due run after with
  | answered _ _ heq | abandoned _ heq | late _ _ _ heq =>
    rw [heq]
    exact Makes.nothing.resumes (.along rfl rfl (.silent rfl) rfl)
  | waits _ _ heq =>
    rw [heq]
    exact Makes.nothing.parks (.along rfl rfl (.same rfl) rfl) _ _

theorem settleEmit_does (w : World) (result : Except EmitError Json) (run : EmitRun)
    (after : AfterEmit) :
    Does Change.Settles (Job.settle result run after).Leads w (w.settleEmit result run after) := by
  cases result with
  | ok v =>
    exact Makes.nothing.resumesHook (fun _ _ => .along rfl rfl (.silent rfl) rfl)
      (.along rfl rfl (.silent rfl) rfl)
  | error e =>
    exact (Makes.more (.recordError _ _) (.one (.record _) trivial) trivial).resumesHook
      (fun _ _ => .along rfl rfl (.silent rfl) rfl) (.along rfl rfl (.silent rfl) rfl)

/-- A request that has asked for the peer's API fails, or comes through with what the peer has
answered. -/
theorem finishDiscovery_cases (w : World) (result : Except EmitError EmitOutcome) (c : Connecting) :
    (∃ error, w.finishEmit result (.discovery c) = w.failConnect c error) ∨
      ∃ outcome d, result = .ok outcome ∧ read? (Json.ofOption outcome.answer?) = some d ∧
        w.finishEmit result (.discovery c) = w.finishWith c d := by
  cases result with
  | error error => exact .inl ⟨.emit error, rfl⟩
  | ok outcome =>
    refine (discovered_cases w c (.ofOption outcome.answer?)).imp_right ?_
    exact fun ⟨d, hread, heq⟩ => ⟨outcome, d, rfl, hread, heq⟩

theorem finishEmit_makes (w : World) (result : Except EmitError EmitOutcome) {after : AfterEmit}
    (hafter : after.connecting? = none) : Makes Change.Basic w (w.finishEmit result after) := by
  have hset (place : Place) (path : String) (v : Json) (ticket : Nat) (outcome : Outcome) :
      Makes Change.Basic w ((w.set place path v).report ticket outcome) :=
    .more (.report ticket outcome) (set_makes w place path v) trivial
  cases after with
  | emitter owner target ticket =>
    cases result with
    | error e => exact .one (.report _ _) trivial
    | ok outcome =>
      cases outcome with
      | acked v =>
        cases target with
        | none => exact .one (.report _ _) trivial
        | some path => exact hset ..
      | sent => exact .one (.report _ _) trivial
      | vetoed => exact .one (.report _ _) trivial
  | method owner path ticket =>
    cases result with
    | error e => exact .one (.report _ _) trivial
    | ok outcome => exact hset ..
  | change back => exact .nothing
  | discovery c => cases hafter
  | _ => cases result <;> exact .one (.report _ _) trivial

/-- After the discovery of an API comes the rest of a connect request. -/
theorem finishEmit_finishes (w : World) (result : Except EmitError EmitOutcome)
    (after : AfterEmit) :
    Makes Change.Finishes w (w.finishEmit result after) := by
  cases after with
  | discovery c =>
    rcases finishDiscovery_cases w result c with ⟨error, heq⟩ | ⟨_, d, -, -, heq⟩
    · rw [heq]
      exact (failConnect_makes ..).mono fun _ hc => hc.finishes
    · rw [heq]
      exact (finishWith_makes ..).mono fun _ hc => hc.finishes
  | _ => exact (finishEmit_makes w result rfl).mono fun _ hc => hc.finishes

theorem finishEmit_does (w : World) (result : Except EmitError EmitOutcome) (after : AfterEmit) :
    Does (Job.emitDone result after).May (Job.emitDone result after).Leads w
      (w.finishEmit result after) := by
  cases after with
  | discovery c => exact (finishEmit_finishes w result _).ends
  | _ => exact (finishEmit_makes w result rfl).ends

theorem startCall_does (w : World) (ticket : Nat) (owner : ComponentId) (callable : Callable)
    (argument : Option Json) :
    Does Change.Basic (Job.call ticket owner callable argument).Leads w
      (w.startCall ticket owner callable argument) := by
  cases callable <;> exact Makes.nothing.resumes (.free rfl rfl (.silent rfl) rfl)

/-! Store actions and workers -/

theorem mutate_makes (w : World) (mutation : Mutation) (payload : Json) :
    Makes Change.Basic w (w.writeTree .store (mutation.apply payload w.store.tree)) := by
  cases mutation with
  | set path => exact .one (.set .store path payload) trivial
  | merge path =>
    cases payload with
    | obj fields => exact .one (.set .store path _) trivial
    | _ => exact .one (.touch .store) trivial
  | note => exact .one (.touch .store) trivial

theorem commit_makes {w w' : World} {name : String} {payload : Json}
    (h : w.commit name payload = .ok w') : Makes Change.Basic w w' := by
  unfold commit at h
  split at h
  · exact absurd h nofun
  · rename_i mutation _
    obtain rfl := Except.ok.inj h
    refine Makes.trans ?_ (mutate_makes _ mutation payload)
    split
    · exact .one (.record _) trivial
    · exact .nothing

theorem startAction_does (w : World) (action : String) (payload : Json) (after : AfterAction) :
    Does Change.Basic (Job.dispatch action payload after).Leads w
      (w.startAction action payload after) := by
  unfold startAction
  split
  · exact Makes.nothing.resumes (.free rfl rfl (.silent rfl) rfl)
  · exact (Makes.one (.record _) trivial).resumesAfter (.free rfl rfl (.silent rfl) rfl) _

theorem endAction_does (w : World) (action : String) (payload : Json) (plan : ActionPlan)
    (after : AfterAction) :
    Does Change.Basic (Job.actionEnd action payload plan after).Leads w
      (w.endAction action payload plan after) := by
  unfold endAction
  cases plan.commit with
  | none =>
    dsimp only
    split <;> exact Makes.nothing.resumes (.free rfl rfl (.silent rfl) rfl)
  | some mutation =>
    dsimp only
    split
    · exact Makes.nothing.resumes (.free rfl rfl (.silent rfl) rfl)
    · rename_i hcommit
      split <;> exact (commit_makes hcommit).resumes (.free rfl rfl (.silent rfl) rfl)

theorem work_does (w : World) (id : Nat) :
    Does (Change.Takes id) (Job.work id).Leads w (w.work id) := by
  unfold work
  split
  · exact Makes.nothing.ends
  · rename_i worker hworker
    split
    · exact Makes.nothing.ends
    · split
      · split
        · exact Makes.nothing.parks (.free rfl rfl (.silent rfl) rfl) _ _
        · exact Makes.nothing.ends
      · rename_i payload rest hqueue
        have htake :
            ({ w with workers := w.workers.set id { worker with queue := rest } } : World) =
            w.apply (.dequeue id) := by
          simp only [apply]
          rw [set_eq_modify_of_getElem? hworker (f := fun x => { x with queue := x.queue.tail })]
          simp [hqueue]
        rw [htake]
        have htakes : Makes (Change.Takes id) w (w.apply (.dequeue id)) := .one _ rfl
        exact htakes.resumesHook (fun _ _ => .free rfl rfl (.silent rfl) rfl)
          (.free rfl rfl (.silent rfl) rfl)

theorem applyPayload_does (w : World) (id : Nat) (payload : Json) :
    Does Change.Basic (Job.apply id payload).Leads w (w.applyPayload id payload) := by
  unfold applyPayload
  split
  · exact Makes.nothing.ends
  · split
    · exact (set_makes ..).resumes (.free rfl rfl (.silent rfl) rfl)
    · exact Makes.nothing.resumes (.free rfl rfl (.silent rfl) rfl)
    · split
      · rename_i hcommit
        exact (commit_makes hcommit).resumes (.free rfl rfl (.silent rfl) rfl)
      · exact (Makes.one (.record _) trivial).resumes (.free rfl rfl (.silent rfl) rfl)

theorem afterApply_does (w : World) (id : Nat) (payload : Json) :
    Does Change.Basic (Job.applied id payload).Leads w (w.afterApply id payload) := by
  unfold afterApply
  split
  · exact Makes.nothing.ends
  · exact Makes.nothing.resumesHook (fun _ _ => .free rfl rfl (.silent rfl) rfl)
      (.free rfl rfl (.silent rfl) rfl)

theorem finishAction_does (w : World) (result : Except StoreError Json) (after : AfterAction) :
    Does Change.Basic (Job.actionDone result after).Leads w (w.finishAction result after) := by
  cases after with
  | ticket ticket => cases result <;> exact (Makes.one (.report _ _) trivial).ends
  | applied id payload =>
    cases result with
    | ok v => exact Makes.nothing.resumes (.free rfl rfl (.silent rfl) rfl)
    | error e => exact (Makes.one (.record _) trivial).resumes (.free rfl rfl (.silent rfl) rfl)

/-! EmitBacks, servers and answers -/

theorem watchNext_does (w : World) (back : EmitBack) :
    Does (Change.Watches back) (Job.watch back).Leads w (w.watchNext back) := by
  unfold watchNext
  split
  · exact (Makes.one _ Change.Watches.unwatch).ends
  · split
    · exact Makes.nothing.parks (.refl _) _ _
    · rename_i v t hpoll
      have hpolled : w.setTree back.place t = w.apply (.poll back.place back.watch) := by
        simp [apply, hpoll]
      rw [hpolled]
      exact (Makes.more _ (.one _ Change.Watches.poll) (Change.Watches.start v)).resumes
        (.refl _)

theorem startChange_does (w : World) (back : EmitBack) (v : Json) :
    Does Change.Basic (Job.change back v).Leads w (w.startChange back v) :=
  Makes.nothing.resumesHook (fun _ _ => .of_eq rfl rfl rfl (.silent rfl) rfl)
    (.of_eq rfl rfl rfl (.silent rfl) rfl)

theorem serve_does (w : World) (serial : Nat) (event : String) (payload : Json)
    (ack : Option CellId) :
    Does Change.Basic (Job.serve serial event payload ack).Leads w
      (w.serve serial event payload ack) := by
  unfold serve
  split
  · exact (abandonIf_makes w ack).ends
  · rename_i c hc
    split
    · exact (abandonIf_makes w ack).ends
    · exact (Makes.more (.countServed c.namespaceName event) (.one (.record _) trivial)
        trivial).resumesAfter (.free rfl rfl (.turns rfl) rfl) _

theorem receive_does (w : World) (cell : CellId) (after : AfterAnswer) :
    Does Change.Answers (Job.receive cell after).Leads w (w.receive cell after) := by
  unfold receive
  split
  · exact Makes.nothing.parks (.free rfl rfl (.same rfl) rfl) _ _
  · rw [resolve_eq]
    exact (Makes.one (.settle ..) trivial).ends
  · exact (Makes.one (.report _ _) trivial).ends
  · exact (Makes.one (.report _ _) trivial).ends
  · exact Makes.nothing.ends
  · exact (Makes.one (.report _ _) trivial).ends
  · exact (Makes.one (.report _ _) trivial).ends

/-- What a job does to a world, whatever the job. -/
theorem exec_does (w : World) (job : Job) : Does job.May job.Leads w (w.exec job) := by
  cases job with
  | connect ticket name owner opts =>
    refine (startConnect_does w ticket name owner opts).mono (fun _ h => h) ?_
    intro next hnext
    cases next with
    | emit run after =>
      cases after with
      | discovery c =>
        exact ⟨nofun, nofun, fun hjob => absurd rfl (hjob ticket name owner opts), .silent rfl, rfl⟩
      | _ => exact hnext.elim
    | _ => exact hnext.elim
  | call ticket owner callable argument => exact startCall_does ..
  | emit run after => exact startEmit_does ..
  | transmit run after => exact transmit_does ..
  | await cell due run after => exact awaitAnswer_does ..
  | settle result run after => exact settleEmit_does ..
  | emitDone result after => exact finishEmit_does ..
  | hook hook argument after => exact startHook_does ..
  | hookEnd hook reply after => exact endHook_does ..
  | hookDone verdict after => exact finishHook_does ..
  | dispatch action payload after => exact startAction_does ..
  | actionEnd action payload plan after => exact endAction_does ..
  | actionDone result after => exact finishAction_does ..
  | work id => exact work_does ..
  | apply id payload => exact applyPayload_does ..
  | applied id payload => exact afterApply_does ..
  | watch back => exact watchNext_does ..
  | change back v => exact startChange_does ..
  | serve serial event payload ack => exact serve_does ..
  | serveEnd serial reply ack => exact (serveEnd_makes w serial reply ack).ends
  | receive cell after => exact receive_does ..

end World

end Patchbay
