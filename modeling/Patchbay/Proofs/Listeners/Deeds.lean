import Patchbay.Proofs.Engine.Follow
import Patchbay.Proofs.Engine.Trees
import Patchbay.Proofs.Engine.Workers
import Patchbay.Proofs.State.Presence

/-!
The deeds of a worker: what is seen of it at its work, and what each deed does to the world. A
payload that is brought to its target is written there, committed to the store, or dispatched to it
by the next step of the worker's task.
-/

namespace Patchbay

/-- What is seen of a worker at its work. -/
inductive Deed where
  /-- The pre-hook is called. -/
  | asks (hook : Hook) (payload : Json)
  /-- The pre-hook has returned. -/
  | judged (payload : Json) (verdict : Verdict)
  /-- The payload goes to its target. -/
  | applies (sink : Sink) (target : String) (payload : Json)
  /-- It has been applied, or failed to be. -/
  | applied (payload : Json)
  /-- The post-hook is called. -/
  | tells (hook : Hook) (payload : Json)
  /-- The post-hook has returned. -/
  | told

/-- The payload that goes to its target. -/
def Deed.given? : Deed → Option Json
  | .applies _ _ payload => some payload
  | _ => none

namespace Moment

/-- The deed of a job, if it is one of a worker. -/
def deed (m : Moment) : Option Deed :=
  match m.job with
  | .hook hook payload (.admitted ..) => some (.asks hook payload)
  | .hookDone verdict (.admitted _ payload) => some (.judged payload verdict)
  | .apply worker payload => m.world.workers[worker]?.map fun x => .applies x.sink x.target payload
  | .applied _ payload => some (.applied payload)
  | .hook hook payload (.applied _) => some (.tells hook payload)
  | .hookDone _ (.applied _) => some .told
  | _ => none

/-- The deed of that worker. -/
def deed? (i : Nat) (m : Moment) : Option Deed :=
  if m.job.worker? = some i then m.deed else none

/-- The step hands an action to the store, which takes it up if it knows it. -/
structure Dispatches (m : Moment) (action : String) (payload : Json) (after : AfterAction) :
    Prop where
  job : m.job = .dispatch action payload after
  known : Fields.contains action m.world.store.actions = true →
    m.after.trace = m.world.trace ++ [.acted action payload]
  unknown : Fields.contains action m.world.store.actions = false →
    m.after = m.world.resume (.actionDone (.error (.unknownAction action)) after)

theorem dispatches {m : Moment} {action : String} {payload : Json} {after : AfterAction}
    (hjob : m.job = .dispatch action payload after) : m.Dispatches action payload after := by
  have hafter : m.after = m.world.startAction action payload after := by
    rw [Moment.after, show m.task.job = _ from hjob]
    rfl
  refine ⟨hjob, ?_, ?_⟩
  · intro hknown
    obtain ⟨plan, hplan⟩ := Option.isSome_iff_exists.1 hknown
    rw [hafter]
    simp only [World.startAction, hplan, World.resumeAfter]
    split <;> rfl
  · intro hunknown
    have hplan : Fields.get? action m.world.store.actions = none := by
      simpa [Fields.contains] using hunknown
    rw [hafter]
    simp only [World.startAction, hplan]

/-- The step ends the dispatch for a worker; a failure is warned of. -/
theorem warns_of_failed_dispatch (m : Moment) {i : Nat} {p : Json} {x : Worker} {e : StoreError}
    (hjob : m.job = .actionDone (.error e) (.applied i p)) (hx : m.world.workers[i]? = some x) :
    m.after = (m.world.warn (.dispatchFailed x.target e.message)).resume (.applied i p) := by
  rw [Moment.after, show m.task.job = _ from hjob]
  simp only [World.exec, World.finishAction, hx]
  rfl

end Moment

/-- What comes of a payload at its target. It stands at the path of the component; or the mutation
has worked it into the store, and a mutation that is not there is warned of; or the next step of the
task hands it to the store as an action. -/
inductive Sink.Takes (i : Nat) (target : String) (p : Json) (m : Moment) (later : List Moment) :
    Sink → Prop
  | data {owner : ComponentId} (hread : (m.after.tree (.component owner)).get? target = some p)
    (htree : m.after.tree (.component owner) = (m.world.tree (.component owner)).set target p)
    (htrace : m.after.trace =
      m.world.trace ++ [.wrote (.component owner) (m.after.tree (.component owner)).root]) :
    Takes i target p m later (.data owner)
  | commits {mutation : Mutation}
    (hmutation : Fields.get? target m.world.store.mutations = some mutation)
    (htree : m.after.store.tree = mutation.apply p m.world.store.tree) :
    Takes i target p m later .commit
  | refuses (hmutation : Fields.get? target m.world.store.mutations = none)
    (hstore : m.after.store = m.world.store)
    (htrace : m.after.trace = m.world.trace ++
      [.warned (.commitFailed target (StoreError.unknownMutation target).message)]) :
    Takes i target p m later .commit
  | dispatches (hready : ⟨m.task.id, .dispatch target p (.applied i p)⟩ ∈ m.after.ready)
    (hnext : ∀ next ∈ (later.filter (·.task.id == m.task.id)).head?,
      next.Dispatches target p (.applied i p)) : Takes i target p m later .dispatch

/-- What a deed does to the world. -/
def Deed.Does (i : Nat) (m : Moment) (later : List Moment) : Deed → Prop
  | .asks hook p => m.Calls hook p
  | .judged p verdict => m.after = m.world.resume (if verdict.isVeto then .work i else .apply i p)
  | .applies sink target p => sink.Takes i target p m later
  | .applied p => ∀ x, m.world.workers[i]? = some x →
      m.after = m.world.resumeHook x.hooks.post p (.applied i) (.work i)
  | .tells hook p => m.Calls hook p
  | .told => m.after = m.world.resume (.work i)

namespace World

variable {w₀ w : World} {before later : List Moment} {m : Moment} {i : Nat} {p : Json}

/-- What a write leaves at its place. -/
theorem set_reads (w : World) (place : Place) (path : String) (v : Json) :
    (w.set place path v).tree place = (w.tree place).set path v ∧
      (w.set place path v).trace =
        w.trace ++ [.wrote place ((w.set place path v).tree place).root] := by
  have hwoken := writeTree_woken w place ((w.tree place).set path v)
  have hrecord (w : World) (event : Event) : (w.record event).tree place = w.tree place := by
    cases place <;> rfl
  have htree : (w.set place path v).tree place = (w.tree place).set path v := by
    refine (hwoken.tree place).trans ?_
    rw [hrecord, tree_setTree, if_pos rfl]
  refine ⟨htree, ?_⟩
  rw [htree]
  refine hwoken.trace.trans ?_
  cases place <;> rfl

section Targets

variable {x : Worker} (hjob : m.job = .apply i p) (hx : m.world.workers[i]? = some x)
include hjob

theorem after_eq_applyPayload : m.after = m.world.applyPayload i p := by
  rw [Moment.after, show m.task.job = _ from hjob]
  rfl

include hx

theorem takes_data {owner : ComponentId} (hsink : x.sink = .data owner) :
    Sink.Takes i x.target p m later (.data owner) := by
  have hgoes : m.after = (m.world.set (.component owner) x.target p).resume (.applied i p) := by
    rw [after_eq_applyPayload hjob]
    simp only [applyPayload, hx, hsink]
  obtain ⟨htree, htrace⟩ := m.world.set_reads (.component owner) x.target p
  have hsame : m.after.tree (.component owner) =
      (m.world.set (.component owner) x.target p).tree (.component owner) := by
    rw [hgoes]
    rfl
  refine .data ?_ (hsame.trans htree) ?_
  · rw [hsame, htree]
    exact Json.at?_put_self p _ _
  · rw [hsame, ← htrace, hgoes]
    rfl

theorem takes_commit (hsink : x.sink = .commit) : Sink.Takes i x.target p m later .commit := by
  cases hmutation : Fields.get? x.target m.world.store.mutations with
  | none =>
    have hgoes : m.after = (m.world.warn (.commitFailed x.target
        (StoreError.unknownMutation x.target).message)).resume (.applied i p) := by
      rw [after_eq_applyPayload hjob]
      simp only [applyPayload, hx, hsink, World.commit, hmutation]
    refine .refuses hmutation ?_ ?_
    · rw [hgoes]
      rfl
    · rw [hgoes]
      rfl
  | some mutation =>
    refine .commits hmutation ?_
    rw [after_eq_applyPayload hjob]
    simp only [applyPayload, hx, hsink, World.commit, hmutation]
    exact ((writeTree_woken ..).tree .store).trans (by simp only [tree]; split <;> rfl)

/-- The action is the next step of the worker's task. -/
theorem Run.takes_dispatch (h : Run w₀ (before ++ m :: later) w)
    (hcounted : Counted w₀.started w₀.tasks) (hsink : x.sink = .dispatch) :
    Sink.Takes i x.target p m later .dispatch := by
  obtain ⟨v, rest, hbefore, hready, hworld, hrun⟩ := h.split
  have hgoes : m.after = m.world.resume (.dispatch x.target p (.applied i p)) := by
    rw [after_eq_applyPayload hjob]
    simp only [applyPayload, hx, hsink]
  have hdue : ⟨m.task.id, .dispatch x.target p (.applied i p)⟩ ∈ m.after.ready := by
    rw [hgoes, hworld]
    exact List.mem_cons_self
  have hcounted' : Counted m.after.started m.after.tasks := by
    have hstep := hbefore.step hready
    rw [← hworld] at hstep
    exact hstep.counted hcounted
  refine .dispatches hdue fun next hnext => ?_
  obtain ⟨own, hown⟩ := List.head?_eq_some_iff.1 hnext
  obtain ⟨htask, -⟩ := hrun.first_step hcounted' hdue hown
  exact next.dispatches (congrArg Task.job htask)

/-- A worker's payload gets to its target. -/
theorem Run.takes (h : Run w₀ (before ++ m :: later) w)
    (hcounted : Counted w₀.started w₀.tasks) : x.sink.Takes i x.target p m later := by
  cases hsink : x.sink with
  | data owner => exact takes_data hjob hx hsink
  | commit => exact takes_commit hjob hx hsink
  | dispatch => exact Run.takes_dispatch hjob hx h hcounted hsink

end Targets

/-- Every deed of a run does what it says. -/
theorem Run.deed_does {d : Deed} (h : Run w₀ (before ++ m :: later) w)
    (hcounted : Counted w₀.started w₀.tasks) (hdeed : m.deed? i = some d) : d.Does i m later := by
  have hown : m.job.worker? = some i := by
    by_contra hother
    rw [Moment.deed?, if_neg hother] at hdeed
    cases hdeed
  rw [Moment.deed?, if_pos hown] at hdeed
  have hafter : m.after = m.world.exec m.job := rfl
  unfold Moment.deed at hdeed
  split at hdeed
  case h_1 hook payload k q hjob =>
    obtain rfl := Option.some.inj hdeed
    exact m.calls_of_hook hjob
  case h_2 verdict k payload hjob =>
    obtain rfl := Option.some.inj hdeed
    rw [hjob] at hown hafter
    obtain rfl := Option.some.inj hown
    rw [Deed.Does, hafter]
    simp only [exec, finishHook]
    split <;> rfl
  case h_3 k payload hjob =>
    obtain ⟨x, hx, rfl⟩ := Option.map_eq_some_iff.1 hdeed
    rw [hjob] at hown
    obtain rfl := Option.some.inj hown
    exact Run.takes hjob hx h hcounted
  case h_4 k payload hjob =>
    obtain rfl := Option.some.inj hdeed
    rw [hjob] at hown hafter
    obtain rfl := Option.some.inj hown
    intro x hx
    rw [hafter]
    simp only [exec, afterApply, hx]
  case h_5 hook payload k hjob =>
    obtain rfl := Option.some.inj hdeed
    exact m.calls_of_hook hjob
  case h_6 verdict k hjob =>
    obtain rfl := Option.some.inj hdeed
    rw [hjob] at hown hafter
    obtain rfl := Option.some.inj hown
    exact hafter
  case h_7 => cases hdeed

end World

end Patchbay
