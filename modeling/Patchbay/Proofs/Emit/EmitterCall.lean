import Patchbay.Proofs.Answers.Correlation
import Patchbay.Proofs.Emit.Writes
import Patchbay.Proofs.Negotiation.Callables
import Patchbay.Proofs.State.Defaults

/-!
A call of an emitter from end to end. It reads its source once, offers one payload to the pre-hook
and to the transport, and returns what comes of it; of the data it changes what its target is
related to, and only when it returns a good answer.
-/

namespace Patchbay

/-! ### The payload -/

/-- The payload of a call, by its argument and the value at the source. -/
inductive Offered : Option Json → Option Json → Json → Prop
  /-- The fields of the argument lie over those of the source. -/
  | merged {fields base members : Fields Json}
    (hlookup : fields.Sorted → ∀ key, members.get? key = (fields.get? key).or (base.get? key))
    (hsorted : base.Sorted → members.Sorted) :
    Offered (some (.obj fields)) (some (.obj base)) (.obj members)
  | argument {v : Json} {source : Option Json}
    (happart : ∀ fields base, v = .obj fields → source ≠ some (.obj base)) :
      Offered (some v) source v
  | source (v : Json) : Offered none (some v) v
  | nothing : Offered none none (.obj [])

theorem offered_emitterPayload (argument source : Option Json) :
    Offered argument source (World.emitterPayload argument source) := by
  unfold World.emitterPayload
  split
  · exact .merged (fun hsorted => Fields.get?_overlay _ hsorted) (Fields.sorted_overlay _)
  · rename_i happart
    exact .argument fun fields base hv hsource => happart fields base hsource hv
  · exact .source _
  · exact .nothing

namespace EmitRun

variable {run : EmitRun} {after : AfterEmit} {known : Option (Except EmitError EmitOutcome)}
  {seen : Seen}
  {e : Onward} {own : List Moment} {m : Moment} {v : Json} {result : Except EmitError EmitOutcome}

/-! ### What the stages tell -/

theorem Settles.asked {argument : Json} (h : run.Settles seen result argument) :
    seen.gates.map (fun call => (call.1, call.2.1)) =
      run.hooks.pre.toList.map (·, run.payload) := by
  cases h with
  | sent hgates | acked hgates | failed _ _ _ hgates => exact hgates.asked

/-- The pre-hook is asked about the payload, and once at most. -/
theorem Stage.asked (h : run.Stage after seen e) :
    seen.gates.map (fun call => (call.1, call.2.1)) <+:
      run.hooks.pre.toList.map (·, run.payload) := by
  have hasked {hook : Hook} (verdict : Verdict) (hpre : run.hooks.pre = some hook) :
      [(hook, run.payload, verdict)].map (fun call => (call.1, call.2.1)) <+:
        run.hooks.pre.toList.map (·, run.payload) := by
    rw [hpre]
    exact List.prefix_refl _
  cases h with
  | due | gate => exact List.nil_prefix
  | gated hpre | vetoed hpre => exact hasked _ hpre
  | passed hgates | refused _ hgates | awaiting hgates | answered hgates | rejected hgates =>
    exact hgates.asked ▸ List.prefix_refl _
  | post _ hsettles | posted _ hsettles | settled hsettles =>
    exact hsettles.asked ▸ List.prefix_refl _
  | ended hdone =>
    cases hdone with
    | gated hpre | vetoed hpre => exact hasked _ hpre
    | refused _ hgates | awaiting hgates => exact hgates.asked ▸ List.prefix_refl _
    | posted _ hsettles | settled hsettles => exact hsettles.asked ▸ List.prefix_refl _

/-- An emit parks until the delay of a hook is over, or for its answer. -/
theorem Stage.parks {job : Job} {signals : List Signal} {due : Option Nat}
    (h : run.Stage after seen (.parks job signals due)) :
    (∃ hook reply called, job = .hookEnd hook reply called ∧ due.isSome = true) ∨
      ∃ cell due, job = .await cell due run after := by
  cases h with
  | gated _ hreturning | posted _ _ hreturning =>
    cases hreturning
    exact .inl ⟨_, _, _, rfl, rfl⟩
  | awaiting _ _ _ he =>
    rcases he with he | he <;> cases he
    exact .inr ⟨_, _, rfl⟩

/-! ### What the steps tell -/

/-- What an emit ends with is what it finds in any of its steps. -/
theorem Ran.eq_of_found (h : run.Ran after own e known) (hresult : result ∈ (Seen.of own).outcomes)
    (hm : m ∈ own) {result' : Except EmitError EmitOutcome} (hfound : m.found? = some result') :
    result = result' := by
  have hmem : result' ∈ own.filterMap Moment.found? := List.mem_filterMap.2 ⟨m, hm, hfound⟩
  rw [h.outcomes_found hresult] at hmem
  exact (List.mem_singleton.1 hmem).symm

/-- An emit reads its own cell. -/
theorem Ran.awaited (h : run.Ran after own e known) (hm : m ∈ own) (hanswer : m.answer? = some v) :
    (∃ cell due, m.job = .await cell due run after ∧ m.world.cell cell = .answered v) ∧
      ∃ m' ∈ own, m'.job = .transmit run after ∧
        m.world.cell m'.world.cells.length = .answered v := by
  obtain ⟨cell, due, run', after', hjob, hcell⟩ := Moment.answer?_eq_some hanswer
  obtain ⟨_, hcourse⟩ := h.course m hm
  rw [hjob] at hcourse
  cases hcourse
  obtain ⟨m', hm', hsent, rfl⟩ := h.cell cell due (.inr ⟨m, hm, hjob⟩)
  exact ⟨⟨_, due, hjob, hcell⟩, m', hm', hsent, hcell⟩

/-- A good answer is what the emit ends with. -/
theorem Ran.answered (h : run.Ran after own e known) (hm : m ∈ own) (hanswer : m.answer? = some v)
    (hgood : Ack.isError v = false) :
    ∀ result ∈ (Seen.of own).outcomes, result = .ok (.acked v) := by
  intro result hresult
  obtain ⟨⟨cell, due, hjob, hcell⟩, -⟩ := h.awaited hm hanswer
  refine h.eq_of_found hresult hm ?_
  simp only [Moment.found?, hjob, World.settlement?, hcell, Option.map_some, Settlement.result,
    Ack.settle_of_not_isError hgood]
  rfl

/-- An answer that an emit finds is a good one. -/
theorem Finds.acked (h : run.Finds after m (.ok (.acked v))) :
    m.answer? = some v ∧ Ack.isError v = false := by
  generalize hresult : Except.ok (EmitOutcome.acked v) = result at h
  cases h with
  | @answered v' _ hanswer hsettled =>
    rw [← hresult] at hsettled
    cases hread : Ack.settle run.event run.payload v' m.world.stamp with
    | error e =>
      rw [hread] at hsettled
      cases hsettled
    | ok v'' =>
      rw [hread] at hsettled
      cases hsettled
      obtain ⟨rfl, hgood⟩ := Ack.settle_ok hread
      exact ⟨hanswer, hgood⟩
  | _ => cases hresult

/-- In this step a hook of the emit ends and writes to a path that the name is related to. -/
def HookWrites (run : EmitRun) (m : Moment) (place : Place) (name : String) : Prop :=
  ∃ hook reply called path v, m.job = .hookEnd hook reply called ∧
    (run.hooks.pre = some hook ∨ run.hooks.post = some hook) ∧ place = .component hook.owner ∧
      reply.write = some (path, v) ∧ Path.related (.ofString name) (.ofString path) = true

/-- On its way an emit reports nothing and writes nothing, but for its hooks. -/
theorem Course.writes (h : run.Course after known m.job) (hopen : m.outcome? = none) :
    m.after.outcomes = m.world.outcomes ∧ ∀ place name,
      (m.after.tree place).get? name = (m.world.tree place).get? name ∨
        run.HookWrites m place name := by
  obtain ⟨⟨id, job⟩, w⟩ := m
  have hdone (result : Except EmitError EmitOutcome) (after : AfterEmit) :
      job ≠ .emitDone result after := by
    rintro rfl
    cases hopen
  by_cases hends : ∃ hook reply called, job = .hookEnd hook reply called
  · obtain ⟨hook, reply, called, rfl⟩ := hends
    refine ⟨w.endHook_outcomes hook reply called, fun place name => ?_⟩
    refine (w.get?_endHook_or hook reply called place name).imp_right ?_
    rintro ⟨hplace, path, v, hwrite, hrelated⟩
    exact ⟨hook, reply, called, path, v, rfl, h.hook_of_end, hplace, hwrite, hrelated⟩
  · have huntouched : w.Untouched (w.exec job) :=
      h.untouched (fun hook reply called heq => hends ⟨hook, reply, called, heq⟩) hdone w
    exact ⟨huntouched.outcomes,
      fun place name => .inl (congrArg (·.get? name) (huntouched.tree place))⟩

/-! ### The emit of a call -/

/-- What the emit of an emitter's call has come to, by the steps of its own. -/
structure Emits (run : EmitRun) (owner : ComponentId) (target : Option String) (ticket t : Nat)
    (own : List Moment) (u : World) : Prop where
  lawful : run.Lawful (.of own)
  /-- The pre-hook is asked about the payload, once at most. -/
  asked : (Seen.of own).gates.map (fun call => (call.1, call.2.1)) <+:
    run.hooks.pre.toList.map (·, run.payload)
  /-- What goes to the transport is this emit, once at most by the law. -/
  sent : ∀ m ∈ own, ∀ sent after, m.job = .transmit sent after → sent = run
  /-- The answer is read in the cell that was made when the emit went to the transport. -/
  awaited : ∀ m ∈ own, ∀ v, m.answer? = some v → ∃ m' ∈ own, ∃ after, m'.job = .transmit run after ∧
    m.world.cell m'.world.cells.length = .answered v
  answered : ∀ m ∈ own, ∀ v, m.answer? = some v → Ack.isError v = false →
    ∀ result ∈ (Seen.of own).outcomes, result = .ok (.acked v)
  /-- Its result comes of one of its steps. -/
  found : ∀ result ∈ (Seen.of own).outcomes, ∃ m ∈ own, ∃ after, run.Finds after m result
  acked : ∀ v, .ok (.acked v) ∈ (Seen.of own).outcomes →
    Ack.isError v = false ∧ ∃ m ∈ own, m.answer? = some v
  returns : ∀ m ∈ own, ∀ result, m.outcome? = some result →
    World.Returns owner target ticket result m.world m.after
  writes : ∀ m ∈ own, m.outcome? = none → m.after.outcomes = m.world.outcomes ∧ ∀ place name,
    (m.after.tree place).get? name = (m.world.tree place).get? name ∨ run.HookWrites m place name
  /-- Where nothing is ready, a call that has not returned waits for a hook or for its answer, which
  has not come. -/
  waits : u.ready = [] → (Seen.of own).outcomes = [] → ∃ p ∈ u.parked, p.task.id = t ∧
    ((∃ hook reply called, p.task.job = .hookEnd hook reply called ∧ p.due.isSome = true) ∨
      ∃ cell due after, p.task.job = .await cell due run after ∧ u.cell cell = .empty ∧
        ∃ m ∈ own, m.job = .transmit run after ∧ m.world.cells.length = cell)

theorem Ran.emits {owner : ComponentId} {target : Option String} {ticket t : Nat} {e' : Onward}
    {u : World} (h : run.Ran (.emitter owner target ticket) own e known) (hstands : u.Stands t e)
    (hstage : run.Stage (.emitter owner target ticket) (.of own) e') (hstands' : u.Stands t e')
    (hroused : u.Roused) : run.Emits owner target ticket t own u where
  lawful := hstage.lawful
  asked := hstage.asked
  sent m hm sent after hjob := by
    obtain ⟨_, hcourse⟩ := h.course m hm
    rw [hjob] at hcourse
    exact hcourse.sent_eq
  awaited m hm v hanswer := by
    obtain ⟨-, m', hm', hsent, hcell⟩ := h.awaited hm hanswer
    exact ⟨m', hm', _, hsent, hcell⟩
  answered m hm v hanswer hgood := h.answered hm hanswer hgood
  found result hresult := by
    obtain ⟨m, hm, hfinds⟩ := h.finds hresult
    exact ⟨m, hm, _, hfinds⟩
  acked v hresult := by
    obtain ⟨m, hm, hfinds⟩ := h.finds hresult
    exact ⟨hfinds.acked.2, m, hm, hfinds.acked.1⟩
  returns m hm result hresult := by
    obtain ⟨_, hcourse⟩ := h.course m hm
    obtain ⟨⟨id, job⟩, w⟩ := m
    cases hcourse <;> cases hresult
    exact w.finishEmit_returns result owner target ticket
  writes m hm hopen := by
    obtain ⟨_, hcourse⟩ := h.course m hm
    exact hcourse.writes hopen
  waits hidle hopen := by
    obtain ⟨job, hjob⟩ := hstage.goes_on hopen
    have hstill : e.job? = some job := (hstands.task job).1 ((hstands'.task job).2 hjob)
    rcases hstands'.ready_or_parked hjob with hready | ⟨signals, due, rfl, hparked⟩
    · rw [hidle] at hready
      cases hready
    · refine ⟨_, hparked, rfl, ?_⟩
      rcases hstage.parks with hhook | ⟨cell, due', rfl⟩
      · exact .inl hhook
      · exact .inr ⟨cell, due', _, rfl, (hroused _ hparked cell rfl).2,
          h.cell cell due' (.inl hstill)⟩

end EmitRun

namespace World

variable {w₀ w u : World} {log₀ log : List Moment} {owner : ComponentId} {name : String}
  {ticket : Nat} {channel : Channel} {b : Binding} {hooks : Hooks}

/-- A call of an emitter, from end to end. Its first step reads the source, decides on the payload
and changes nothing. All other steps are those of one emit of that payload, whose result the call
returns: a good answer, which its target holds then; `null` after a veto; or the error. Only a good
answer changes data, and only what the target is related to; the other writes of its steps are those
of the hooks. -/
theorem emitter_call_returns (hfresh : w₀.Fresh) (hreached : Run w₀ log₀ w)
    (hemitter : w.callable? owner name = some (.emitter channel b hooks)) (argument : Option Json)
    (hrun : Run (w.perform ticket (.call owner name argument)).1 log u) :
    let t := w.started + 1
    let call := Job.call ticket owner (.emitter channel b hooks) argument
    let own := log.filter (·.task.id == t)
    own = [] ∧ ⟨t, call⟩ ∈ u.ready ∨
      ∃ first rest payload, own = first :: rest ∧ first.job = call ∧
        first.world.Untouched first.after ∧
        Offered argument (b.source.bind (first.world.tree (.component owner)).get?) payload ∧
        EmitRun.Emits { channel, event := b.action, msg := some payload, hooks } owner
          b.target ticket t rest u := by
  intro t call own
  have hstarts : w.perform ticket (.call owner name argument) = (w.spawn call, .later) :=
    perform_call hemitter ticket argument
  have hcommand : ∀ ms, Command.call owner name argument ≠ .wait ms := by simp
  have hcalled : Run w₀ log₀ (w.perform ticket (.call owner name argument)).1 :=
    hreached.command ticket hcommand
  rw [hstarts] at hrun hcalled
  have hcounted := hcalled.counted hfresh.counted
  have hdue : ⟨t, call⟩ ∈ (w.spawn call).ready := List.mem_append_right _ List.mem_cons_self
  cases hown : own with
  | nil => exact .inl ⟨rfl, hrun.ready_of_idle hcounted hdue hown⟩
  | cons first rest =>
    obtain ⟨htask, before, later, v, others, rfl, hbefore, hready, hworld, hlater, hrest⟩ :=
      hrun.first_step hcounted hdue hown
    let payload :=
      emitterPayload argument (b.source.bind (first.world.tree (.component owner)).get?)
    let run : EmitRun := { channel, event := b.action, msg := some payload, hooks }
    have hafter :
        first.after = first.world.resume (.emit run (.emitter owner b.target ticket)) := by
      rw [Moment.after, htask]
      rfl
    have hrunning : first.world.running = t := by
      rw [hworld, htask]
      rfl
    have hbegun : ⟨t, .emit run (.emitter owner b.target ticket)⟩ ∈ first.after.ready := by
      rw [hafter, ← hrunning]
      exact List.mem_cons_self
    have hcounted' : Counted first.after.started first.after.tasks := by
      have hstep := (hbefore.step hready).counted hcounted
      rw [← hworld] at hstep
      exact hstep
    obtain ⟨e, known, hran, hstands⟩ := hlater.ran hcounted' hbegun
    have hgiven : t ≤ first.after.started := hcounted'.2 _ (List.mem_append_left _ hbegun)
    obtain ⟨e', hstage, hstands'⟩ :=
      EmitRun.Stage.later .due hcounted' hgiven (.of_ready hcounted' hbegun) hlater
    have hroused : u.Roused := (hcalled.trans hrun).roused hfresh.roused
    rw [hrest] at hran hstage
    refine .inr ⟨first, rest, payload, rfl, by rw [Moment.job, htask], ?_,
      offered_emitterPayload _ _, hran.emits hstands hstage hstands' hroused⟩
    rw [hafter]
    exact .of_same rfl rfl rfl

/-! A desk that orders what is in its basket, and keeps the receipt there -/

def basket : Fields Json := [("apples", .int 2), ("pears", .int 1)]

def ordering : Binding where
  role := .emitter
  action := "order"
  source := some "basket"
  target := some "basket.receipt"
  pre := some "check"
  post := none

def orderDesk : World :=
  { settings := {}
    servers := [{
      namespaceName := "/"
      event := "order"
      reply := fun _ _ => { delay := some 5, answer := .value (.str "thanks") } }]
    components := [("desk", {
      data := .ofJson (.obj [("basket", .obj basket)])
      handlers := [("check", { reply := fun _ _ => { verdict := .ok .null } })]
      callables :=
        [("order", .emitter ⟨1, "shop/", none⟩ ordering ⟨some ⟨⟨"desk"⟩, "check"⟩, none⟩)] })] }

/-- The shop is open. -/
def orderReady : List Moment × World :=
  orderDesk.play [.command 0 (.openBare "h" "http://shop" "/" [])]

/-- The desk calls its emitter. -/
def orderDone : List Moment × World :=
  (orderReady.2.perform 1 (.call ⟨"desk"⟩ "order" (some (.obj [("apples", .int 3)])))).1.play
    [.steps 10, .pass 5, .steps 20]

/-- The steps of the call. -/
def orderOwn : List Moment := orderDone.1.filter (·.task.id == 1)

theorem order_merged_and_returned : ∃ members m, m ∈ orderOwn ∧
    (∀ key, Fields.get? key members =
      (Fields.get? key [("apples", .int 3)]).or (Fields.get? key basket)) ∧
    (EmitRun.Seen.of orderOwn.tail).emissions = [.emitted 1 "order" (.obj members) true] ∧
    Returns ⟨"desk"⟩ (some "basket.receipt") 1 (.ok (.acked (.str "thanks"))) m.world m.after := by
  have hfresh : orderDesk.Fresh := .of_unwatched rfl (List.forall_mem_singleton.2 rfl)
  have hreached : Run orderDesk orderReady.1 orderReady.2 := .of_play _ rfl
  have hemitter : orderReady.2.callable? ⟨"desk"⟩ "order" =
      some (.emitter ⟨1, "shop/", none⟩ ordering ⟨some ⟨⟨"desk"⟩, "check"⟩, none⟩) := rfl
  have hrun :
      Run (orderReady.2.perform 1 (.call ⟨"desk"⟩ "order" (some (.obj [("apples", .int 3)])))).1
      orderDone.1 orderDone.2 := .of_play _ rfl
  rcases emitter_call_returns hfresh hreached hemitter (some (.obj [("apples", .int 3)])) hrun with
    ⟨hnone, -⟩ | ⟨first, rest, payload, hown, -, -, hoffered, hemits⟩
  · cases hnone
  · have hown' : orderOwn = first :: rest := hown
    have hsource :
        orderOwn.head?.map (fun m => (m.world.tree (.component ⟨"desk"⟩)).get? "basket") =
        some (some (.obj basket)) := rfl
    have hattempts : (EmitRun.Seen.of orderOwn.tail).attempts = [true] := rfl
    have hends : orderOwn.tail.getLast?.bind Moment.outcome? =
        some (.ok (.acked (.str "thanks"))) := rfl
    rw [hown'] at hsource hattempts hends ⊢
    have hfound : (ordering.source.bind (first.world.tree (.component ⟨"desk"⟩)).get?) =
      some (.obj basket) := Option.some.inj hsource
    rw [hfound] at hoffered
    obtain ⟨m, hlast, hresult⟩ := Option.bind_eq_some_iff.1 hends
    have hm : m ∈ rest := List.mem_of_getLast? hlast
    have hemissions := hemits.lawful.wire.2
    rw [List.tail_cons] at hattempts
    rw [hattempts] at hemissions
    cases hoffered with
    | argument happart => exact absurd rfl (happart _ _ rfl)
    | @merged _ _ members hlookup _ =>
      have hsorted : Fields.Sorted [("apples", Json.int 3)] := List.pairwise_singleton ..
      exact ⟨members, m, List.mem_cons_of_mem _ hm, hlookup hsorted, hemissions,
        hemits.returns m hm _ hresult⟩

end World

end Patchbay
