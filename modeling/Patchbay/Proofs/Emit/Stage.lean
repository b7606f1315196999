import Patchbay.Proofs.Emit.Seen

/-!
The stages of an emit, told apart by what was seen of it so far. Every step of its task leads from
one stage to another.
-/

namespace Patchbay

namespace EmitRun

/-- What an accepted emit puts on the wire. -/
def emission (run : EmitRun) : Event :=
  .emitted run.channel.connection run.event run.payload (!run.noAck)

/-- A called handler returns at once, or when its delay is over. -/
inductive Returning (verdict : Verdict) (after : AfterHook) : Onward → Prop
  | now : Returning verdict after (.resumes (.hookDone verdict after))
  | soon (hook : Hook) (reply : Reply) (h : reply.verdict = verdict) :
    Returning verdict after (.resumes (.hookEnd hook reply after))
  | late (hook : Hook) (reply : Reply) (h : reply.verdict = verdict) (due : Nat) :
    Returning verdict after (.parks (.hookEnd hook reply after) [] (some due))

section

variable (run : EmitRun) (after : AfterEmit)

/-- The pre-hook lets the emit through, or there is none. -/
inductive Passes : List (Hook × Json × Verdict) → Prop
  | free (hpre : run.hooks.pre = none) : Passes []
  | passed {hook : Hook} {verdict : Verdict} (hpre : run.hooks.pre = some hook)
    (hverdict : verdict.isVeto = false) : Passes [(hook, run.payload, verdict)]

/-- The emit went to the transport. -/
def attempted (gates : List (Hook × Json × Verdict)) (accepted : Bool) : Seen :=
  { gates, attempts := [accepted], emissions := if accepted then [run.emission] else [] }

/-- One record, in the list of the emit's scope and event. -/
def only (record : ErrorRecord) (scope event : String) : List ErrorRecord :=
  if scope = run.channel.scope ∧ event = run.event then [record] else []

/-- What was seen of an emit before its post-hook, its result, and what the post-hook is given. -/
inductive Settles : Seen → Except EmitError EmitOutcome → Json → Prop
  | sent {gates : List (Hook × Json × Verdict)} (hgates : run.Passes gates)
    (hack : run.noAck = true) : Settles (run.attempted gates true) (.ok .sent) .null
  | acked {gates : List (Hook × Json × Verdict)} {v : Json} (hgates : run.Passes gates)
    (hack : run.noAck = false) (hv : Ack.isError v = false) :
    Settles (run.attempted gates true) (.ok (.acked v)) v
  | failed {gates : List (Hook × Json × Verdict)} (accepted : Bool) (e : EmitError)
    (stamp : String) (hgates : run.Passes gates) (hack : run.noAck = false) :
    Settles { run.attempted gates accepted with
        recorded := run.only (e.toRecord run.event run.msg stamp) }
      (.error e) (Ack.errorValue (e.toRecord run.event run.msg stamp))

/-- How far an emit has come, by what was seen of it. -/
inductive Stage : Seen → Onward → Prop
  | due : Stage {} (.resumes (.emit run after))
  | gate {hook : Hook} (hpre : run.hooks.pre = some hook) :
    Stage {} (.resumes (.hook hook run.payload (.gate run after)))
  | gated {hook : Hook} {verdict : Verdict} {e : Onward} (hpre : run.hooks.pre = some hook)
    (he : Returning verdict (.gate run after) e) :
    Stage { gates := [(hook, run.payload, verdict)] } e
  | vetoed {hook : Hook} {verdict : Verdict} (hpre : run.hooks.pre = some hook)
    (hverdict : verdict.isVeto = true) :
    Stage { gates := [(hook, run.payload, verdict)] } (.resumes (.emitDone (.ok .vetoed) after))
  | passed {gates : List (Hook × Json × Verdict)} (hgates : run.Passes gates) :
    Stage { gates } (.resumes (.transmit run after))
  | refused {gates : List (Hook × Json × Verdict)} (error : TransportError)
    (hgates : run.Passes gates) (hack : run.noAck = true) :
    Stage (run.attempted gates false) (.resumes (.emitDone (.error (.transport error)) after))
  | awaiting {gates : List (Hook × Json × Verdict)} {cell : CellId} {due : Option Nat} {e : Onward}
    (hgates : run.Passes gates) (hack : run.noAck = false) (hdue : due = none → run.bound = none)
    (he : e = .resumes (.await cell due run after) ∨
      e = .parks (.await cell due run after) [.cell cell] due) :
    Stage (run.attempted gates true) e
  | answered {gates : List (Hook × Json × Verdict)} {v : Json} (hgates : run.Passes gates)
    (hack : run.noAck = false) (hv : Ack.isError v = false) :
    Stage (run.attempted gates true) (.resumes (.settle (.ok v) run after))
  | rejected {gates : List (Hook × Json × Verdict)} {accepted : Bool} {e : EmitError}
    (hgates : run.Passes gates) (hack : run.noAck = false) (he : e.Concerns run.event) :
    Stage (run.attempted gates accepted) (.resumes (.settle (.error e) run after))
  | post {seen : Seen} {result : Except EmitError EmitOutcome} {argument : Json} {hook : Hook}
    (hpost : run.hooks.post = some hook) (h : run.Settles seen result argument) :
    Stage seen (.resumes (.hook hook argument (.settled result after)))
  | posted {seen : Seen} {result : Except EmitError EmitOutcome} {argument : Json} {hook : Hook}
    {verdict : Verdict} {e : Onward} (hpost : run.hooks.post = some hook)
    (h : run.Settles seen result argument) (he : Returning verdict (.settled result after) e) :
    Stage { seen with posts := [(hook, argument)] } e
  | settled {seen : Seen} {result : Except EmitError EmitOutcome} {argument : Json}
    (h : run.Settles seen result argument) :
    Stage { seen with posts := run.hooks.post.toList.map (·, argument) }
      (.resumes (.emitDone result after))
  | ended {seen : Seen} {result : Except EmitError EmitOutcome}
    (h : Stage seen (.resumes (.emitDone result after))) :
    Stage { seen with outcomes := [result] } .ended

end

variable {run : EmitRun} {after : AfterEmit} {seen : Seen} {e : Onward} {w mid : World} {id : Nat}
  {job : Job}

theorem Settles.posts {result : Except EmitError EmitOutcome} {argument : Json}
    (h : run.Settles seen result argument) : seen.posts = [] := by
  cases h <;> rfl

theorem Settles.outcomes {result : Except EmitError EmitOutcome} {argument : Json}
    (h : run.Settles seen result argument) : seen.outcomes = [] := by
  cases h <;> rfl

theorem Stage.outcomes (h : run.Stage after seen e) (he : e ≠ .ended) : seen.outcomes = [] := by
  cases h with
  | post hpost h => exact h.outcomes
  | posted hpost h _ => exact h.outcomes
  | settled h => exact h.outcomes
  | ended h => exact absurd rfl he
  | _ => rfl

theorem Settles.attempts (h : run.Settles seen result argument) : seen.attempts.length = 1 := by
  cases h <;> rfl

/-- Without a pre-hook an emit is ready until it has gone to the transport. -/
theorem Stage.attempts (h : run.Stage after seen e) (hpre : run.hooks.pre = none) :
    seen.attempts.length = 1 ∨ seen.attempts = [] ∧ ∃ job, e = .resumes job := by
  cases h with
  | due => exact .inr ⟨rfl, _, rfl⟩
  | gate hgate | gated hgate | vetoed hgate =>
    rw [hpre] at hgate
    cases hgate
  | passed hgates => exact .inr ⟨rfl, _, rfl⟩
  | refused | awaiting | answered | rejected => exact .inl rfl
  | post _ hsettles | posted _ hsettles | settled hsettles => exact .inl hsettles.attempts
  | ended hdone =>
    cases hdone with
    | vetoed hgate =>
      rw [hpre] at hgate
      cases hgate
    | refused => exact .inl rfl
    | settled hsettles => exact .inl hsettles.attempts
    | gated _ he => cases he
    | awaiting _ _ _ he => rcases he with he | he <;> cases he
    | posted _ _ he => cases he

/-- An emit goes to the transport as itself. -/
theorem Stage.transmits {sent : EmitRun} {sentAfter : AfterEmit} (h : run.Stage after seen e)
    (he : e.job? = some (.transmit sent sentAfter)) : sent = run := by
  cases h with
  | passed =>
    cases he
    rfl
  | gated _ hreturning | posted _ _ hreturning => cases hreturning <;> cases he
  | awaiting _ _ _ hawaits => rcases hawaits with rfl | rfl <;> cases he
  | _ => cases he

/-! Silent steps -/

/-- A step that nothing shows of. -/
def Unseen (m : Moment) : Prop :=
  m.gate? = none ∧ m.attempt? = none ∧ m.post? = none ∧ m.outcome? = none

/-- A silent step shows by its job alone. -/
theorem Seen.add_silent {m : Moment} (seen : Seen) (h : World.Makes Change.Silent m.world mid)
    (he : mid.onward e = m.after) :
    seen.add m = { seen with
      gates := seen.gates ++ m.gate?.toList, attempts := seen.attempts ++ m.attempt?.toList,
      posts := seen.posts ++ m.post?.toList, outcomes := seen.outcomes ++ m.outcome?.toList } := by
  have hrecorded : m.recorded = fun _ _ => [] := by
    funext scope event
    exact m.recorded_of_silent rfl h he scope event
  simp [add, m.emissions_of_silent h he, hrecorded]

theorem Seen.add_unseen {m : Moment} (seen : Seen) (hunseen : Unseen m)
    (h : World.Makes Change.Silent m.world mid) (he : mid.onward e = m.after) :
    seen.add m = seen := by
  obtain ⟨hgate, hattempt, hpost, houtcome⟩ := hunseen
  simp [seen.add_silent h he, hgate, hattempt, hpost, houtcome]

/-- What a step of the emit comes to. -/
def Leads (run : EmitRun) (after : AfterEmit) (seen : Seen) (m : Moment) : Prop :=
  ∃ mid e, (∃ Q, World.Makes Q m.world mid) ∧ mid.onward e = m.after ∧
    run.Stage after (seen.add m) e

theorem Leads.unseen {m : Moment} (hunseen : Unseen m) (h : World.Makes Change.Basic m.world mid)
    (he : mid.onward e = m.after) (hstage : run.Stage after seen e) : run.Leads after seen m := by
  refine ⟨mid, e, ⟨_, h⟩, he, ?_⟩
  rwa [seen.add_unseen hunseen (h.mono fun _ hc => hc.silent) he]

/-! Hooks -/

/-- A hook that is called is about to return what it says. -/
theorem startHook_returning (w : World) (hook : Hook) (argument : Json) (after : AfterHook) :
    ∃ mid e, World.Makes Change.Basic w mid ∧ mid.onward e = w.startHook hook argument after ∧
      Returning (w.verdict hook argument) after e := by
  obtain ⟨mid, hmid, heq | ⟨reply, hreply, heq⟩⟩ := w.startHook_makes hook argument after
  · exact ⟨mid, .resumes _, hmid, heq.symm, .now⟩
  · rw [heq, World.resumeAfter]
    split
    · exact ⟨mid, _, hmid, rfl, .soon hook reply hreply⟩
    · exact ⟨mid, _, hmid, rfl, .late hook reply hreply _⟩

theorem Leads.resumeHook {m : Moment} (hunseen : Unseen m)
    (hmid : World.Makes Change.Basic m.world mid)
    {hook : Option Hook} {argument : Json} {afterHook : AfterHook} {otherwise : Job}
    (heq : mid.resumeHook hook argument afterHook otherwise = m.after)
    (hsome : ∀ k, hook = some k → run.Stage after seen (.resumes (.hook k argument afterHook)))
    (hnone : hook = none → run.Stage after seen (.resumes otherwise)) : run.Leads after seen m := by
  cases hook with
  | none => exact .unseen (e := .resumes otherwise) hunseen hmid heq (hnone rfl)
  | some k => exact .unseen (e := .resumes _) hunseen hmid heq (hsome k rfl)

/-! One step of each stage -/

variable {gates : List (Hook × Json × Verdict)} {result : Except EmitError EmitOutcome}
  {argument : Json} {hook : Hook} {verdict : Verdict}

theorem emit_leads (run : EmitRun) (after : AfterEmit) (id : Nat) (w : World) :
    run.Leads after {} ⟨⟨id, .emit run after⟩, w⟩ :=
  .resumeHook ⟨rfl, rfl, rfl, rfl⟩ .nothing rfl (fun _ hpre => .gate hpre)
    fun hpre => .passed (.free hpre)

/-- While a handler returns, only the end of its call is seen to matter. -/
theorem returning_leads {called : AfterHook} (he : Returning verdict called e)
    (hjob : e.job? = some job) (hstage : run.Stage after seen (.resumes (.hookDone verdict called)))
    (hdone : run.Leads after seen ⟨⟨id, .hookDone verdict called⟩, w⟩) :
    run.Leads after seen ⟨⟨id, job⟩, w⟩ := by
  have hreturn (hook : Hook) (reply : Reply) (hreply : reply.verdict = verdict) :
      run.Leads after seen ⟨⟨id, .hookEnd hook reply called⟩, w⟩ := by
    obtain ⟨mid, hmid, heq⟩ := w.endHook_makes hook reply called
    rw [hreply] at heq
    exact .unseen (e := .resumes _) ⟨rfl, rfl, rfl, rfl⟩ hmid heq.symm hstage
  cases he with
  | now =>
    obtain rfl := Option.some.inj hjob
    exact hdone
  | soon hook reply hreply =>
    obtain rfl := Option.some.inj hjob
    exact hreturn hook reply hreply
  | late hook reply hreply due =>
    obtain rfl := Option.some.inj hjob
    exact hreturn hook reply hreply

theorem gate_leads (hpre : run.hooks.pre = some hook) :
    run.Leads after {} ⟨⟨id, .hook hook run.payload (.gate run after)⟩, w⟩ := by
  obtain ⟨mid, e, hmid, heq, he⟩ := startHook_returning w hook run.payload (.gate run after)
  refine ⟨mid, e, ⟨_, hmid⟩, heq, ?_⟩
  rw [Seen.add_silent _ (hmid.mono fun _ hc => hc.silent) heq]
  exact .gated hpre he

theorem gated_leads (hpre : run.hooks.pre = some hook) :
    run.Leads after { gates := [(hook, run.payload, verdict)] }
      ⟨⟨id, .hookDone verdict (.gate run after)⟩, w⟩ := by
  have hunseen : Unseen ⟨⟨id, .hookDone verdict (.gate run after)⟩, w⟩ := ⟨rfl, rfl, rfl, rfl⟩
  cases w.finishHook_atGate verdict run after with
  | vetoed hveto heq =>
    exact .unseen (e := .resumes _) hunseen .nothing heq.symm (.vetoed hpre hveto)
  | failed text hveto heq =>
    have hwarn : World.Makes Change.Basic w (w.warn (.preHookFailed run.event text)) :=
      .one (.record _) trivial
    exact .unseen (e := .resumes _) hunseen hwarn heq.symm (.passed (.passed hpre hveto))
  | passed hveto heq =>
    exact .unseen (e := .resumes _) hunseen .nothing heq.symm (.passed (.passed hpre hveto))

/-- An emit that the connection takes is on the wire. -/
theorem add_accepted {sent : World} {e : Onward}
    (htrace : sent.trace = w.trace ++ [run.emission]) (hsockets : sent.sockets = w.sockets)
    (hconnected : w.isConnected run.channel.connection = true)
    (h : World.Makes Change.Routes sent mid) (he : mid.onward e = w.transmit run after) :
    Seen.add { gates } ⟨⟨id, .transmit run after⟩, w⟩ = run.attempted gates true := by
  have hsilent := h.mono fun _ hc => hc.silent
  have hemissions : Moment.emissions ⟨⟨id, .transmit run after⟩, w⟩ = [run.emission] :=
    Moment.emissions_of_sent rfl htrace hsilent he
  have hrecorded : Moment.recorded ⟨⟨id, .transmit run after⟩, w⟩ = fun _ _ => [] := by
    funext scope event
    exact Moment.recorded_of_silent hsockets hsilent he scope event
  simp [Seen.add, attempted, hemissions, hrecorded, Moment.gate?, Moment.attempt?, Moment.post?,
    Moment.outcome?, Moment.job, hconnected]

theorem add_refused {e : Onward} (hconnected : w.isConnected run.channel.connection = false)
    (h : World.Makes Change.Basic w mid) (he : mid.onward e = w.transmit run after) :
    Seen.add { gates } ⟨⟨id, .transmit run after⟩, w⟩ = run.attempted gates false := by
  rw [Seen.add_silent (m := ⟨⟨id, .transmit run after⟩, w⟩) _ (h.mono fun _ hc => hc.silent) he]
  simp [attempted, Moment.gate?, Moment.attempt?, Moment.post?, Moment.outcome?, Moment.job,
    hconnected]

theorem Stage.hear (after : AfterEmit) (h : run.Settles seen result argument) :
    ∃ e, (∀ w : World, w.onward e = w.resumeHook run.hooks.post argument (.settled result after)
      (.emitDone result after)) ∧ run.Stage after seen e := by
  cases hpost : run.hooks.post with
  | none =>
    have hstage : run.Stage after _ _ := .settled h
    rw [hpost] at hstage
    have hseen : { seen with posts := [] } = seen := by rw [← h.posts]
    exact ⟨.resumes _, fun w => rfl, hseen ▸ hstage⟩
  | some hook => exact ⟨.resumes _, fun w => rfl, .post hpost h⟩

theorem transmit_leads (hgates : run.Passes gates) :
    run.Leads after { gates } ⟨⟨id, .transmit run after⟩, w⟩ := by
  have hcell : World.Makes Change.Basic w w.newCell.1 := .one .newCell trivial
  cases w.transmit_atTransport run after with
  | @refused error hack hsend heq =>
    have honward : w.onward (.resumes (.emitDone (.error (.transport error)) after)) =
        w.transmit run after := heq.symm
    refine ⟨w, _, ⟨Change.Basic, .nothing⟩, honward, ?_⟩
    rw [add_refused (World.send_error hsend) .nothing honward]
    exact .refused error hgates hack
  | @sent taken hack hsend heq =>
    obtain ⟨hconnected, hmakes⟩ := World.send_ok hsend
    obtain ⟨e, he, hstage⟩ := Stage.hear after (Settles.sent hgates hack)
    have honward : taken.onward e = w.transmit run after := (he taken).trans heq.symm
    refine ⟨taken, e, ⟨Change.Sends, World.send_makes hsend⟩, honward, ?_⟩
    have htrace : (w.record (.emitted run.channel.connection run.event run.payload false)).trace =
        w.trace ++ [run.emission] := by simp [World.record, emission, hack]
    rw [add_accepted htrace rfl hconnected hmakes honward]
    exact hstage
  | @rejected error hack hsend heq =>
    have honward : w.newCell.1.onward (.resumes (.settle (.error (.transport error)) run after)) =
        w.transmit run after := heq.symm
    refine ⟨w.newCell.1, _, ⟨_, hcell⟩, honward, ?_⟩
    have hconnected : w.newCell.1.isConnected run.channel.connection = false :=
      World.send_error hsend
    rw [add_refused (w := w) hconnected hcell honward]
    exact .rejected hgates hack fun _ _ => rfl
  | @asked taken hack hsend heq =>
    obtain ⟨hconnected, hmakes⟩ := World.send_ok hsend
    have honward : taken.onward (.resumes (.await w.newCell.2 (run.bound.map (taken.now + ·)) run
        after)) = w.transmit run after := heq.symm
    refine ⟨taken, _, ⟨Change.Sends, (hcell.mono fun _ hc => hc.routes.sends).trans
      (World.send_makes hsend)⟩, honward, ?_⟩
    have htrace : (w.newCell.1.record
        (.emitted run.channel.connection run.event run.payload true)).trace =
          w.trace ++ [run.emission] := by simp [World.record, World.newCell, emission, hack]
    rw [add_accepted htrace rfl hconnected hmakes honward]
    exact .awaiting hgates hack (fun hdue => by simpa using hdue) (.inl rfl)

theorem await_leads {cell : CellId} {due : Option Nat} (hgates : run.Passes gates)
    (hack : run.noAck = false) (hdue : due = none → run.bound = none) :
    run.Leads after (run.attempted gates true) ⟨⟨id, .await cell due run after⟩, w⟩ := by
  have hunseen : Unseen ⟨⟨id, .await cell due run after⟩, w⟩ := ⟨rfl, rfl, rfl, rfl⟩
  have hrejected {error : EmitError} (hevent : error.Concerns run.event)
      (heq : w.awaitAnswer cell due run after = w.resume (.settle (.error error) run after)) :
      run.Leads after (run.attempted gates true) ⟨⟨id, .await cell due run after⟩, w⟩ :=
    .unseen (e := .resumes _) hunseen .nothing heq.symm (.rejected hgates hack hevent)
  cases w.awaitAnswer_atCell cell due run after with
  | answered v _ heq =>
    cases hsettle : Ack.settle run.event run.payload v w.stamp with
    | ok answer =>
      rw [hsettle] at heq
      exact .unseen (e := .resumes _) hunseen .nothing heq.symm
        (.answered hgates hack (Ack.settle_ok hsettle).2)
    | error error =>
      rw [hsettle] at heq
      exact hrejected (Ack.settle_error hsettle) heq
  | abandoned _ heq => exact hrejected (fun _ _ => rfl) heq
  | late _ _ _ heq => exact hrejected (fun _ _ => rfl) heq
  | waits _ _ heq =>
    exact .unseen (e := .parks _ _ _) hunseen .nothing heq.symm
      (.awaiting hgates hack hdue (.inr rfl))

theorem answered_leads {v : Json} (hgates : run.Passes gates) (hack : run.noAck = false)
    (hv : Ack.isError v = false) :
    run.Leads after (run.attempted gates true) ⟨⟨id, .settle (.ok v) run after⟩, w⟩ := by
  obtain ⟨e, he, hstage⟩ := Stage.hear after (Settles.acked hgates hack hv)
  exact .unseen ⟨rfl, rfl, rfl, rfl⟩ .nothing (he w) hstage

/-- A rejected emit leaves one record, in the list of its own event. -/
theorem rejected_leads {accepted : Bool} {e : EmitError} (hgates : run.Passes gates)
    (hack : run.noAck = false) (hevent : e.Concerns run.event) :
    run.Leads after (run.attempted gates accepted) ⟨⟨id, .settle (.error e) run after⟩, w⟩ := by
  let m : Moment := ⟨⟨id, .settle (.error e) run after⟩, w⟩
  let record := e.toRecord run.event run.msg w.stamp
  let warned := w.warn (.emitFailed run.event run.channel.scope e.kind e.message)
  let mid := warned.apply (.recordError run.channel.scope record)
  obtain ⟨next, hnext, hstage⟩ :=
    Stage.hear after (Settles.failed accepted e w.stamp hgates hack)
  have heq : mid.onward next = m.after := hnext mid
  have hmakes : World.Makes Change.Settles w mid :=
    .more (.recordError run.channel.scope record) (.one (.record _) trivial) trivial
  have htrace : mid.trace =
      w.trace ++ [.warned (.emitFailed run.event run.channel.scope e.kind e.message)] := rfl
  have hemissions : m.emissions = [] := by
    rw [Moment.emissions, ← heq, World.onward_trace, htrace, List.drop_left]
    rfl
  have hrecorded : m.recorded = run.only record := by
    funext scope event
    have hsockets : mid.sockets = w.sockets.recordError run.channel.scope record := rfl
    have hlist := Moment.recorded_of_recordError (m := m) hsockets heq scope event
    rw [hlist, hevent]
    rfl
  refine ⟨mid, next, ⟨_, hmakes⟩, heq, ?_⟩
  have hadd : (run.attempted gates accepted).add m =
      { run.attempted gates accepted with recorded := run.only record } := by
    simp [Seen.add, attempted, hemissions, hrecorded, m, Moment.gate?, Moment.attempt?,
      Moment.post?, Moment.outcome?, Moment.job]
  rw [hadd]
  exact hstage

theorem post_leads (hpost : run.hooks.post = some hook) (h : run.Settles seen result argument) :
    run.Leads after seen ⟨⟨id, .hook hook argument (.settled result after)⟩, w⟩ := by
  obtain ⟨mid, e, hmid, heq, he⟩ := startHook_returning w hook argument (.settled result after)
  refine ⟨mid, e, ⟨_, hmid⟩, heq, ?_⟩
  have hadd : seen.add ⟨⟨id, .hook hook argument (.settled result after)⟩, w⟩ =
      { seen with posts := [(hook, argument)] } := by
    rw [Seen.add_silent _ (hmid.mono fun _ hc => hc.silent) heq]
    simp [Moment.gate?, Moment.attempt?, Moment.post?, Moment.outcome?, Moment.job, h.posts]
  rw [hadd]
  exact .posted hpost h he

theorem posted_leads (hpost : run.hooks.post = some hook) (h : run.Settles seen result argument) :
    run.Leads after { seen with posts := [(hook, argument)] }
      ⟨⟨id, .hookDone verdict (.settled result after)⟩, w⟩ := by
  have hstage : run.Stage after _ _ := .settled h
  rw [hpost] at hstage
  exact .unseen (e := .resumes _) ⟨rfl, rfl, rfl, rfl⟩ .nothing rfl hstage

theorem done_leads (h : run.Stage after seen (.resumes (.emitDone result after))) :
    run.Leads after seen ⟨⟨id, .emitDone result after⟩, w⟩ := by
  have hmakes := w.finishEmit_finishes result after
  refine ⟨_, .ended, ⟨_, hmakes⟩, rfl, ?_⟩
  have hadd : seen.add ⟨⟨id, .emitDone result after⟩, w⟩ = { seen with outcomes := [result] } := by
    rw [Seen.add_silent (e := .ended) _ (hmakes.mono fun _ hc => hc.silent) rfl]
    simp [Moment.gate?, Moment.attempt?, Moment.post?, Moment.outcome?, Moment.job,
      h.outcomes nofun]
  rw [hadd]
  exact .ended h

/-- Every step of an emit leads from its stage to another. -/
theorem Stage.leads (h : run.Stage after seen e) (hjob : e.job? = some job) :
    run.Leads after seen ⟨⟨id, job⟩, w⟩ := by
  cases h with
  | due =>
    obtain rfl := Option.some.inj hjob
    exact emit_leads ..
  | gate hpre =>
    obtain rfl := Option.some.inj hjob
    exact gate_leads hpre
  | gated hpre he => exact returning_leads he hjob (.gated hpre .now) (gated_leads hpre)
  | vetoed hpre hverdict =>
    obtain rfl := Option.some.inj hjob
    exact done_leads (.vetoed hpre hverdict)
  | passed hgates =>
    obtain rfl := Option.some.inj hjob
    exact transmit_leads hgates
  | refused error hgates hack =>
    obtain rfl := Option.some.inj hjob
    exact done_leads (.refused error hgates hack)
  | awaiting hgates hack hdue he =>
    rcases he with rfl | rfl
    · obtain rfl := Option.some.inj hjob
      exact await_leads hgates hack hdue
    · obtain rfl := Option.some.inj hjob
      exact await_leads hgates hack hdue
  | answered hgates hack hv =>
    obtain rfl := Option.some.inj hjob
    exact answered_leads hgates hack hv
  | rejected hgates hack hevent =>
    obtain rfl := Option.some.inj hjob
    exact rejected_leads hgates hack hevent
  | post hpost h =>
    obtain rfl := Option.some.inj hjob
    exact post_leads hpost h
  | posted hpost h he => exact returning_leads he hjob (.posted hpost h .now) (posted_leads hpost h)
  | settled h =>
    obtain rfl := Option.some.inj hjob
    exact done_leads (.settled h)
  | ended h => cases hjob

/-- Whatever goes on besides, an emit is at one of its stages in every later world. -/
theorem Stage.later {w₁ : World} {log : List Moment} {t : Nat} {e₀ : Onward}
    (h : run.Stage after {} e₀) (hcounted : World.Counted w₁.started w₁.tasks) (ht : t ≤ w₁.started)
    (hstands : w₁.Stands t e₀) (hrun : World.Run w₁ log w) :
    ∃ e, run.Stage after (Seen.of (log.filter (·.task.id == t))) e ∧ w.Stands t e := by
  refine hrun.follow (P := fun own e => run.Stage after (Seen.of own) e) hcounted ht hstands h ?_
  intro own e m hstage hjob
  rw [Seen.of_append]
  exact hstage.leads hjob

end EmitRun

end Patchbay
