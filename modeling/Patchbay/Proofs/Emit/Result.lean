import Patchbay.Proofs.Answers.Told
import Patchbay.Proofs.Emit.Stage

/-!
Where the result of an emit comes from. It is found in one step: in a veto, in what the transport
says, or in what the emit waited for. The steps before that know of no result, and those after it
carry it to the end.
-/

namespace Patchbay

namespace EmitRun

/-- What an emit gets from a connection that is not open. -/
def refusal (run : EmitRun) : EmitError :=
  .transport (.notConnected (ConnectionId.opened run.channel.connection).text run.event)

end EmitRun

/-- The result that an emit finds in this step. -/
def Moment.found? (m : Moment) : Option (Except EmitError EmitOutcome) :=
  match m.job with
  | .hookDone verdict (.gate _ _) => if verdict.isVeto then some (.ok .vetoed) else none
  | .transmit run _ =>
    if m.world.isConnected run.channel.connection then if run.noAck then some (.ok .sent) else none
    else some (.error run.refusal)
  | .await cell due run _ =>
    (m.world.settlement? cell due).map fun s => (s.result run m.world.stamp).map .acked
  | _ => none

/-- The answer that an emit finds in this step. -/
def Moment.answer? (m : Moment) : Option Json :=
  match m.job with
  | .await cell _ _ _ => match m.world.cell cell with
    | .answered v => some v
    | _ => none
  | _ => none

theorem Moment.answer?_eq_some {m : Moment} {v : Json} (h : m.answer? = some v) :
    ∃ cell due run after, m.job = .await cell due run after ∧ m.world.cell cell = .answered v := by
  unfold answer? at h
  split at h
  · rename_i cell due run after hjob
    split at h
    · rename_i hcell
      obtain rfl := Option.some.inj h
      exact ⟨cell, due, run, after, hjob, hcell⟩
    · cases h
  · cases h

theorem World.resumeAfter_onward (w : World) (delay : Option Nat) (job : Job) :
    ∃ e, w.onward e = w.resumeAfter delay job ∧ e.job? = some job := by
  unfold resumeAfter
  by_cases hnow : delay.getD 0 = 0
  · exact ⟨.resumes job, (if_pos hnow).symm, rfl⟩
  · exact ⟨.parks job [] (some (w.now + delay.getD 0)), (if_neg hnow).symm, rfl⟩

theorem World.send_error_eq {w : World} {serial : Nat} {event : String} {payload : Json}
    {ack : Option CellId} {e : TransportError} (h : w.send serial event payload ack = .error e) :
    e = .notConnected (ConnectionId.opened serial).text event := by
  unfold send at h
  split at h
  · cases h
    rfl
  · split at h
    · cases h
      rfl
    · cases ack <;> cases h

namespace EmitRun

/-- The jobs of one emit, each with the result that is known when it is done. -/
inductive Course (run : EmitRun) (after : AfterEmit) :
    Option (Except EmitError EmitOutcome) → Job → Prop
  | emit : Course run after none (.emit run after)
  | gate {hook : Hook} (hpre : run.hooks.pre = some hook) (argument : Json) :
    Course run after none (.hook hook argument (.gate run after))
  | gateEnd {hook : Hook} (hpre : run.hooks.pre = some hook) (reply : Reply) :
    Course run after none (.hookEnd hook reply (.gate run after))
  | gated (verdict : Verdict) : Course run after none (.hookDone verdict (.gate run after))
  | transmit : Course run after none (.transmit run after)
  | await (cell : CellId) (due : Option Nat) : Course run after none (.await cell due run after)
  | settle (result : Except EmitError Json) :
    Course run after (some (result.map .acked)) (.settle result run after)
  | post {hook : Hook} (hpost : run.hooks.post = some hook) (argument : Json)
    (result : Except EmitError EmitOutcome) :
    Course run after (some result) (.hook hook argument (.settled result after))
  | postEnd {hook : Hook} (hpost : run.hooks.post = some hook) (reply : Reply)
    (result : Except EmitError EmitOutcome) :
    Course run after (some result) (.hookEnd hook reply (.settled result after))
  | posted (verdict : Verdict) (result : Except EmitError EmitOutcome) :
    Course run after (some result) (.hookDone verdict (.settled result after))
  | done (result : Except EmitError EmitOutcome) :
      Course run after (some result) (.emitDone result after)

variable {run : EmitRun} {after : AfterEmit} {known : Option (Except EmitError EmitOutcome)}
  {job : Job} {result : Except EmitError EmitOutcome} {w mid : World} {id : Nat} {m : Moment}

/-- The job waits for the cell that was made when the emit went to the transport, or for the same as
the job before it. -/
def Keeps (m : Moment) (next : Job) : Prop :=
  ∀ cell due run after, next = .await cell due run after →
    m.job = .transmit run after ∧ m.world.cells.length = cell ∨
      ∃ due', m.job = .await cell due' run after

theorem Keeps.of_silent {next : Job} (h : next.mention? = none) : Keeps m next := by
  rintro cell due run after rfl
  cases h

/-- The step goes on along the course, with what was known or is found now. -/
def GoesOn (run : EmitRun) (after : AfterEmit) (known : Option (Except EmitError EmitOutcome))
    (m : Moment) : Prop :=
  ∃ mid e, (∃ Q, World.Makes Q m.world mid) ∧ mid.onward e = m.after ∧
    ∃ next, e.job? = some next ∧ run.Course after (known.or m.found?) next ∧ Keeps m next

theorem GoesOn.of_resume {Q : Change → Prop} {next : Job} (hmid : World.Makes Q m.world mid)
    (heq : mid.resume next = m.after) (hnext : run.Course after (known.or m.found?) next)
    (hkeeps : Keeps m next) : run.GoesOn after known m :=
  ⟨mid, .resumes next, ⟨Q, hmid⟩, heq, next, rfl, hnext, hkeeps⟩

theorem GoesOn.of_next {next : Job} (heq : m.world.resume next = m.after)
    (hnext : run.Course after (known.or m.found?) next) (hkeeps : Keeps m next) :
    run.GoesOn after known m :=
  .of_resume (Q := Change.Basic) .nothing heq hnext hkeeps

theorem GoesOn.of_resumeHook {Q : Change → Prop} {hook : Option Hook} {argument : Json}
    {called : AfterHook} {otherwise : Job} (hmid : World.Makes Q m.world mid)
    (heq : mid.resumeHook hook argument called otherwise = m.after)
    (hcalled : ∀ k, hook = some k → run.Course after (known.or m.found?) (.hook k argument called))
    (hotherwise : run.Course after (known.or m.found?) otherwise) (hkeeps : Keeps m otherwise) :
    run.GoesOn after known m := by
  cases hook with
  | none => exact .of_resume hmid heq hotherwise hkeeps
  | some k => exact .of_resume hmid heq (hcalled k rfl) fun _ _ _ _ => nofun

/-- A hook that is called goes on to its end, and a hook at its end to what it says. -/
theorem GoesOn.of_hook {hook : Hook} {argument : Json} {called : AfterHook}
    (hjob : m.job = .hook hook argument called)
    (hend : ∀ reply, run.Course after (known.or m.found?) (.hookEnd hook reply called))
    (hdone : ∀ verdict, run.Course after (known.or m.found?) (.hookDone verdict called)) :
    run.GoesOn after known m := by
  have hafter : m.after = m.world.startHook hook argument called := by
    rw [Moment.after, ← Moment.job, hjob]
    rfl
  obtain ⟨mid, hmid, heq | ⟨reply, -, heq⟩⟩ := m.world.startHook_makes hook argument called
  · refine .of_resume hmid (heq.symm.trans hafter.symm) (hdone _) ?_
    rintro _ _ _ _ ⟨⟩
  · obtain ⟨e, honward, hnext⟩ := mid.resumeAfter_onward reply.delay (.hookEnd hook reply called)
    refine ⟨mid, e, ⟨_, hmid⟩, honward.trans (heq.symm.trans hafter.symm), _, hnext, hend reply, ?_⟩
    rintro _ _ _ _ ⟨⟩

theorem transmit_goes_on (run : EmitRun) (after : AfterEmit) (id : Nat) (w : World) :
    run.GoesOn after none ⟨⟨id, .transmit run after⟩, w⟩ := by
  let m : Moment := ⟨⟨id, .transmit run after⟩, w⟩
  have hfound : m.found? = if w.isConnected run.channel.connection then
      if run.noAck then some (.ok .sent) else none else some (.error run.refusal) := rfl
  have hcell : World.Makes Change.Basic w w.newCell.1 := .one .newCell trivial
  cases w.transmit_atTransport run after with
  | refused _ hsend heq =>
    obtain rfl := World.send_error_eq hsend
    have hknown : m.found? = some (.error run.refusal) := by
      simp [hfound, World.send_error hsend]
    refine .of_next heq.symm ?_ (.of_silent rfl)
    rw [hknown]
    exact .done _
  | sent hack hsend heq =>
    have hknown : m.found? = some (.ok .sent) := by simp [hfound, World.send_ok hsend, hack]
    refine .of_resumeHook (World.send_makes hsend) heq.symm ?_ ?_ (.of_silent rfl)
    · rw [hknown]
      exact fun k hpost => .post hpost _ _
    · rw [hknown]
      exact .done _
  | rejected _ hsend heq =>
    obtain rfl := World.send_error_eq hsend
    have hclosed : w.isConnected run.channel.connection = false :=
      World.send_error (w := w.newCell.1) hsend
    have hknown : m.found? = some (.error run.refusal) := by simp [hfound, hclosed]
    refine .of_resume hcell heq.symm ?_ (.of_silent rfl)
    rw [hknown]
    exact .settle (.error _)
  | asked hack hsend heq =>
    have hconnected : w.isConnected run.channel.connection = true :=
      (World.send_ok (w := w.newCell.1) hsend).1
    have hknown : m.found? = none := by simp [hfound, hconnected, hack]
    refine .of_resume
      ((hcell.mono fun _ hc => hc.routes.sends).trans (World.send_makes hsend)) heq.symm ?_ ?_
    · rw [hknown]
      exact .await _ _
    · intro cell due _ _ hnext
      cases hnext
      exact .inl ⟨rfl, rfl⟩

theorem await_goes_on (run : EmitRun) (after : AfterEmit) (cell : CellId) (due : Option Nat)
    (id : Nat) (w : World) : run.GoesOn after none ⟨⟨id, .await cell due run after⟩, w⟩ := by
  let m : Moment := ⟨⟨id, .await cell due run after⟩, w⟩
  have hwaits : (Job.await cell due run after).waitsFor cell = true := by
    simp [Job.waitsFor, Job.mention?]
  have hfound : m.found? = (w.settlement? cell due).map fun s =>
      (s.result run w.stamp).map .acked := rfl
  rcases World.exec_of_waitsFor w hwaits with ⟨s, hsettled, heq⟩ | ⟨hnone, -, heq⟩
  · have hsettled' : w.settlement? cell due = some s := hsettled
    have hafter : w.resume (.settle (s.result run w.stamp) run after) = m.after := heq.symm
    refine .of_next hafter ?_ (.of_silent rfl)
    rw [hfound, hsettled']
    exact .settle _
  · have hnone' : w.settlement? cell due = none := hnone
    let e : Onward := .parks (.await cell due run after) [.cell cell] due
    refine ⟨w, e, ⟨Change.Basic, .nothing⟩, heq.symm, _, rfl, ?_, ?_⟩
    · rw [hfound, hnone']
      exact .await cell due
    · intro _ _ _ _ hnext
      cases hnext
      exact .inr ⟨due, rfl⟩

theorem gated_goes_on (run : EmitRun) (after : AfterEmit) (verdict : Verdict) (id : Nat)
    (w : World) :
    run.GoesOn after none ⟨⟨id, .hookDone verdict (.gate run after)⟩, w⟩ := by
  let m : Moment := ⟨⟨id, .hookDone verdict (.gate run after)⟩, w⟩
  have hfound : m.found? = if verdict.isVeto then some (.ok .vetoed) else none := rfl
  have hnext (hveto : verdict.isVeto = false) :
      run.Course after (Option.or none m.found?) (.transmit run after) := by
    have hknown : m.found? = none := by simp [hfound, hveto]
    rw [hknown]
    exact .transmit
  cases w.finishHook_atGate verdict run after with
  | vetoed hveto heq =>
    have hknown : m.found? = some (.ok .vetoed) := by simp [hfound, hveto]
    refine .of_next heq.symm ?_ (.of_silent rfl)
    rw [hknown]
    exact .done _
  | failed text hveto heq =>
    have hwarn : World.Makes Change.Basic w (w.warn (.preHookFailed run.event text)) :=
      .one (.record _) trivial
    exact .of_resume (m := m) hwarn heq.symm (hnext hveto) (.of_silent rfl)
  | passed hveto heq => exact .of_next heq.symm (hnext hveto) (.of_silent rfl)

theorem settle_goes_on (run : EmitRun) (after : AfterEmit) (result : Except EmitError Json)
    (id : Nat) (w : World) :
    run.GoesOn after (some (result.map .acked)) ⟨⟨id, .settle result run after⟩, w⟩ := by
  cases result with
  | ok v =>
    exact .of_resumeHook (Q := Change.Basic) .nothing rfl (fun k hpost => .post hpost _ _) (.done _)
      (.of_silent rfl)
  | error e =>
    have hmakes :
        World.Makes Change.Settles w
          ((w.warn (.emitFailed run.event run.channel.scope e.kind e.message)).apply
            (.recordError run.channel.scope (e.toRecord run.event run.msg w.stamp))) :=
      .more (.recordError _ _) (.one (.record _) trivial) trivial
    exact .of_resumeHook hmakes rfl (fun k hpost => .post hpost _ _) (.done _) (.of_silent rfl)

/-- Each step of an emit but the last goes on along its course. -/
theorem Course.goes_on (h : run.Course after known job)
    (hjob : ∀ result after, job ≠ .emitDone result after)
    (id : Nat) (w : World) : run.GoesOn after known ⟨⟨id, job⟩, w⟩ := by
  cases h with
  | emit =>
    exact .of_resumeHook (Q := Change.Basic) .nothing rfl (fun k hpre => .gate hpre _) .transmit
      (.of_silent rfl)
  | gate hpre argument => exact .of_hook rfl (.gateEnd hpre) .gated
  | @gateEnd hook hpre reply =>
    obtain ⟨mid, hmid, heq⟩ := w.endHook_makes hook reply (.gate run after)
    exact .of_resume hmid heq.symm (.gated _) (.of_silent rfl)
  | gated verdict => exact gated_goes_on ..
  | transmit => exact transmit_goes_on ..
  | await cell due => exact await_goes_on ..
  | settle result => exact settle_goes_on ..
  | post hpost argument result => exact .of_hook rfl (.postEnd hpost · _) (.posted · _)
  | @postEnd hook hpost reply result =>
    obtain ⟨mid, hmid, heq⟩ := w.endHook_makes hook reply (.settled result after)
    exact .of_resume hmid heq.symm (.posted _ _) (.of_silent rfl)
  | posted verdict result => exact .of_next rfl (.done _) (.of_silent rfl)
  | done result => exact absurd rfl (hjob _ _)

/-- The hooks of an emit are the ones it was given. -/
theorem Course.hook_of_end {hook : Hook} {reply : Reply} {called : AfterHook}
    (h : run.Course after known (.hookEnd hook reply called)) :
    run.hooks.pre = some hook ∨ run.hooks.post = some hook := by
  cases h with
  | gateEnd hpre => exact .inl hpre
  | postEnd hpost => exact .inr hpost

theorem Course.sent_eq {sent : EmitRun} {sentAfter : AfterEmit}
    (h : run.Course after known (.transmit sent sentAfter)) : sent = run := by
  cases h
  rfl

/-- How an emit comes to its result in a step. What is in its cell decides then, and only while
there is nothing in it the time. -/
inductive Finds (run : EmitRun) (after : AfterEmit) (m : Moment) :
    Except EmitError EmitOutcome → Prop
  | vetoed {verdict : Verdict} (hjob : m.job = .hookDone verdict (.gate run after))
    (hveto : verdict.isVeto = true) : Finds run after m (.ok .vetoed)
  | sent (hjob : m.job = .transmit run after) (hack : run.noAck = true) :
      Finds run after m (.ok .sent)
  | refused (hjob : m.job = .transmit run after)
    (hclosed : m.world.isConnected run.channel.connection = false) :
    Finds run after m (.error run.refusal)
  | disconnected {cell : CellId} {due : Option Nat} (hjob : m.job = .await cell due run after)
    (hcell : m.world.cell cell = .abandoned) : Finds run after m (.error (.disconnected run.event))
  | timeout {cell : CellId} {due : Nat} (hjob : m.job = .await cell (some due) run after)
    (hcell : m.world.cell cell = .empty) (hlate : due ≤ m.world.now) :
    Finds run after m (.error (.timeout run.event (run.bound.getD 0)))
  | answered {v : Json} {result : Except EmitError EmitOutcome} (hanswer : m.answer? = some v)
    (hsettled : (Ack.settle run.event run.payload v m.world.stamp).map .acked = result) :
    Finds run after m result

theorem Course.finds (h : run.Course after known m.job) (hfound : m.found? = some result) :
    run.Finds after m result := by
  obtain ⟨⟨id, job⟩, w⟩ := m
  cases h with
  | gated verdict =>
    simp only [Moment.found?, Moment.job] at hfound
    split at hfound
    · rename_i hveto
      obtain rfl := Option.some.inj hfound
      exact .vetoed rfl hveto
    · cases hfound
  | transmit =>
    simp only [Moment.found?, Moment.job] at hfound
    split at hfound
    · split at hfound
      · rename_i hack
        obtain rfl := Option.some.inj hfound
        exact .sent rfl hack
      · cases hfound
    · rename_i hclosed
      obtain rfl := Option.some.inj hfound
      exact .refused rfl (eq_false_of_ne_true hclosed)
  | await cell due =>
    obtain ⟨s, hsettled, rfl⟩ := Option.map_eq_some_iff.1 hfound
    rcases World.settlement?_cases hsettled with
      ⟨v, rfl, hcell⟩ | ⟨rfl, hcell⟩ | ⟨rfl, hcell, t, hdue, hlate⟩
    · exact .answered (v := v) (by simp only [Moment.answer?, Moment.job, hcell]) rfl
    · exact .disconnected rfl hcell
    · obtain rfl := Option.mem_def.1 hdue
      exact .timeout rfl hcell hlate
  | _ => cases hfound

/-- Once it is known, a result is not found again. -/
theorem Course.found? (h : run.Course after (some result) job) (id : Nat) (w : World) :
    Moment.found? ⟨⟨id, job⟩, w⟩ = none := by
  cases h <;> rfl

theorem Course.outcome? (h : run.Course after known job)
    (hjob : ∀ result after, job ≠ .emitDone result after)
    (id : Nat) (w : World) : Moment.outcome? ⟨⟨id, job⟩, w⟩ = none := by
  cases h with
  | done => exact absurd rfl (hjob _ _)
  | _ => rfl

/-- What the steps of an emit have come to: they have found a result or not, and what they end with
is what they have found. -/
structure Ran (run : EmitRun) (after : AfterEmit) (own : List Moment) (e : Onward)
    (known : Option (Except EmitError EmitOutcome)) : Prop where
  found : own.filterMap Moment.found? = known.toList
  course : ∀ m ∈ own, ∃ known, run.Course after known m.job
  pending : ∀ job, e.job? = some job → run.Course after known job ∧
    own.filterMap Moment.outcome? = []
  /-- The cell that it waits for was made when it went to the transport. -/
  cell : ∀ cell due, (e.job? = some (.await cell due run after) ∨
    ∃ m ∈ own, m.job = .await cell due run after) →
      ∃ m ∈ own, m.job = .transmit run after ∧ m.world.cells.length = cell
  ended : e.job? = none → own.filterMap Moment.outcome? = known.toList

variable {own : List Moment} {e : Onward}

theorem Ran.start (run : EmitRun) (after : AfterEmit) :
    run.Ran after [] (.resumes (.emit run after)) none where
  found := rfl
  course := List.forall_mem_nil _
  pending job hjob := by
    obtain rfl := Option.some.inj hjob
    exact ⟨.emit, rfl⟩
  cell cell due hawaits := by
    rcases hawaits with hnext | ⟨m, hm, -⟩
    · cases hnext
    · cases hm
  ended hnone := nomatch hnone

/-- A cell that is waited for next was made before, or just now. -/
theorem Ran.cell_of_keeps (h : run.Ran after own e known) (hjob : e.job? = some m.job) {next : Job}
    (hkeeps : Keeps m next) {cell : CellId} {due : Option Nat}
    (hnext : next = .await cell due run after) :
    ∃ m' ∈ own ++ [m], m'.job = .transmit run after ∧ m'.world.cells.length = cell := by
  rcases hkeeps cell due run after hnext with ⟨hsent, hcell⟩ | ⟨due', hawaits⟩
  · exact ⟨m, List.mem_append_right _ (.head _), hsent, hcell⟩
  · obtain ⟨m', hm', hsent⟩ := h.cell cell due' (.inl (hawaits ▸ hjob))
    exact ⟨m', List.mem_append_left _ hm', hsent⟩

theorem Ran.course_concat (h : run.Ran after own e known) (hjob : e.job? = some m.job) :
    ∀ m' ∈ own ++ [m], ∃ known, run.Course after known m'.job := by
  intro m' hm'
  rcases List.mem_append.1 hm' with hold | hlast
  · exact h.course m' hold
  · rw [List.mem_singleton.1 hlast]
    exact ⟨known, (h.pending m.job hjob).1⟩

/-- A cell that it waited for up to this step was made before. -/
theorem Ran.cell_concat (h : run.Ran after own e known) (hjob : e.job? = some m.job) {cell : CellId}
    {due : Option Nat} (hawaits : ∃ m' ∈ own ++ [m], m'.job = .await cell due run after) :
    ∃ m' ∈ own ++ [m], m'.job = .transmit run after ∧ m'.world.cells.length = cell := by
  have hbefore : e.job? = some (.await cell due run after) ∨
      ∃ m' ∈ own, m'.job = .await cell due run after := by
    obtain ⟨m', hm', hawaits⟩ := hawaits
    rcases List.mem_append.1 hm' with hold | hlast
    · exact .inr ⟨m', hold, hawaits⟩
    · rw [List.mem_singleton.1 hlast] at hawaits
      exact .inl (hjob.trans (congrArg some hawaits))
  obtain ⟨m', hm', hsent⟩ := h.cell cell due hbefore
  exact ⟨m', List.mem_append_left _ hm', hsent⟩

/-- The last step ends the emit with what it has found. -/
theorem Ran.done {after' : AfterEmit} (h : run.Ran after own e known) (hjob : e.job? = some m.job)
    (hdone : m.job = .emitDone result after') :
    run.Ran after (own ++ [m]) .ended (some result) := by
  obtain ⟨hcourse, hopen⟩ := h.pending m.job hjob
  have hknown : known = some result := by
    rw [hdone] at hcourse
    cases hcourse
    rfl
  have hfinds : m.found? = none := by
    rw [Moment.found?, hdone]
  have hends : m.outcome? = some result := by
    rw [Moment.outcome?, hdone]
  exact {
    found := by rw [filterMap_concat, h.found, hknown, hfinds]; rfl
    course := h.course_concat hjob
    pending := fun _ hnext => absurd hnext.symm (Option.some_ne_none _)
    cell :=
      fun _ _ hawaits => h.cell_concat hjob (hawaits.resolve_left (Option.some_ne_none _).symm)
    ended := fun _ => by rw [filterMap_concat, hopen, hends]; rfl }

/-- Any other step goes on, with a result if one was known or is found now. -/
theorem Ran.next {next : Job} {e' : Onward} (h : run.Ran after own e known)
    (hjob : e.job? = some m.job) (hother : ∀ result after, m.job ≠ .emitDone result after)
    (hnext : e'.job? = some next) (hlater : run.Course after (known.or m.found?) next)
    (hkeeps : Keeps m next) : run.Ran after (own ++ [m]) e' (known.or m.found?) := by
  obtain ⟨hcourse, hopen⟩ := h.pending m.job hjob
  constructor
  case found =>
    rw [filterMap_concat, h.found]
    cases known with
    | none => rfl
    | some result =>
      have hknown : m.found? = none := hcourse.found? m.task.id m.world
      rw [hknown]
      rfl
  case course => exact h.course_concat hjob
  case pending =>
    intro job' hjob'
    obtain rfl := Option.some.inj (hnext.symm.trans hjob')
    refine ⟨hlater, ?_⟩
    have hquiet : m.outcome? = none := hcourse.outcome? hother m.task.id m.world
    rw [filterMap_concat, hopen, hquiet]
    rfl
  case cell =>
    intro cell due hawaits
    rcases hawaits with hawaits | hawaits
    · exact h.cell_of_keeps hjob hkeeps (Option.some.inj (hnext.symm.trans hawaits))
    · exact h.cell_concat hjob hawaits
  case ended =>
    intro hnone
    cases hnext.symm.trans hnone

theorem Ran.leads (h : run.Ran after own e known) (hjob : e.job? = some m.job) :
    ∃ mid e', (∃ Q, World.Makes Q m.world mid) ∧ mid.onward e' = m.after ∧
      ∃ known', run.Ran after (own ++ [m]) e' known' := by
  by_cases hdone : ∃ result after, m.job = .emitDone result after
  · obtain ⟨result, after', hdone⟩ := hdone
    have hafter : m.world.finishEmit result after' = m.after := (congrArg m.world.exec hdone).symm
    exact ⟨_, .ended, ⟨_, m.world.finishEmit_finishes result after'⟩, hafter, _, h.done hjob hdone⟩
  · have hother (result : Except EmitError EmitOutcome) (after : AfterEmit) :
        m.job ≠ .emitDone result after := fun heq => hdone ⟨result, after, heq⟩
    obtain ⟨mid, e', hmakes, heq, next, hnext, hlater, hkeeps⟩ :=
      (h.pending m.job hjob).1.goes_on hother m.task.id m.world
    exact ⟨mid, e', hmakes, heq, _, h.next hjob hother hnext hlater hkeeps⟩

/-- What an emit ends with is all that it has found. -/
theorem Ran.outcomes_found (h : run.Ran after own e known)
    (hresult : result ∈ (Seen.of own).outcomes) :
    own.filterMap Moment.found? = [result] := by
  rw [Seen.outcomes_of] at hresult
  cases hjob : e.job? with
  | none =>
    rw [h.ended hjob, Option.mem_toList] at hresult
    rw [h.found, hresult]
    rfl
  | some job =>
    rw [(h.pending job hjob).2] at hresult
    cases hresult

theorem Ran.finds (h : run.Ran after own e known) (hresult : result ∈ (Seen.of own).outcomes) :
    ∃ m ∈ own, run.Finds after m result := by
  obtain ⟨m, hm, hfound⟩ : ∃ m ∈ own, m.found? = some result := by
    refine List.mem_filterMap.1 ?_
    rw [h.outcomes_found hresult]
    exact List.mem_singleton_self _
  obtain ⟨_, hcourse⟩ := h.course m hm
  exact ⟨m, hm, hcourse.finds hfound⟩

end EmitRun

namespace World

/-- Whatever goes on besides, an emit ends with the result that it has found. -/
theorem Run.ran {run : EmitRun} {after : AfterEmit} {w₁ w : World} {log : List Moment} {t : Nat}
    (hcounted : Counted w₁.started w₁.tasks) (hdue : ⟨t, .emit run after⟩ ∈ w₁.ready)
    (hrun : Run w₁ log w) :
    ∃ e known, run.Ran after (log.filter (·.task.id == t)) e known ∧ w.Stands t e := by
  have hgiven : t ≤ w₁.started := hcounted.2 _ (List.mem_append_left _ hdue)
  obtain ⟨e, ⟨known, hran⟩, hstands⟩ :=
    hrun.follow (P := fun own e => ∃ known, run.Ran after own e known)
    hcounted hgiven (.of_ready hcounted hdue) ⟨none, .start run after⟩
    fun _ _ _ ⟨_, h⟩ hjob => h.leads hjob
  exact ⟨e, known, hran, hstands⟩

end World

end Patchbay
