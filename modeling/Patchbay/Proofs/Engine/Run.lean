import Patchbay.Proofs.Engine.Tasks

/-!
Runs of an engine: commands, steps of tasks and time in any order, with a log of the jobs that
were done.
-/

namespace Patchbay

/-- A task with the world it finds when it does its job; it has left the queue by then. -/
structure Moment where
  task : Task
  world : World

namespace Moment

def job (m : Moment) : Job := m.task.job

/-- The world when the job is done. -/
def after (m : Moment) : World := m.world.exec m.task.job

/-- The step calls a handler. If the component has it, the trace shows the call with its
argument. -/
def Calls (m : Moment) (hook : Hook) (argument : Json) : Prop :=
  Fields.contains hook.handler (m.world.component hook.owner).handlers = true →
    ∃ peek, m.after.trace =
      m.world.trace ++ [.called hook.owner.text hook.handler argument peek]

theorem calls_of_hook {m : Moment} {hook : Hook} {argument : Json} {after : AfterHook}
    (hjob : m.job = .hook hook argument after) : m.Calls hook argument := by
  intro hthere
  obtain ⟨handler, hget⟩ := Option.isSome_iff_exists.1 hthere
  have hafter : m.after = m.world.startHook hook argument after := by
    rw [Moment.after, show m.task.job = _ from hjob]
    rfl
  rw [hafter]
  simp only [World.startHook, hget, World.resumeAfter]
  split <;> exact ⟨_, rfl⟩

end Moment

/-- What is seen of a log when one moment is added to it. -/
theorem filterMap_concat {α : Type} (f : Moment → Option α) (log : List Moment) (m : Moment) :
    (log ++ [m]).filterMap f = log.filterMap f ++ (f m).toList := by
  cases h : f m <;> simp [h]

namespace World

/-- The task leaves the queue and runs. -/
def begin (w : World) (task : Task) (rest : List Task) : World :=
  { w with ready := rest, running := task.id }

/-- What makes an engine go on: a command, some steps of ready tasks, or time. -/
inductive Move where
  | command (ticket : Nat) (c : Command)
  | steps (n : Nat)
  | pass (ms : Nat)

/-- Waiting is no command by itself: it is time that passes and steps. -/
def Move.waits : Move → Bool
  | .command _ (.wait _) => true
  | _ => false

def steps : Nat → World → List Moment × World
  | 0, w => ([], w)
  | n + 1, w =>
    match w.ready with
    | [] => ([], w)
    | task :: rest =>
      let (log, w') := steps n ((w.begin task rest).exec task.job)
      (⟨task, w.begin task rest⟩ :: log, w')

/-- What the moves come to, with the jobs done on the way. -/
def play (w : World) : List Move → List Moment × World
  | [] => ([], w)
  | .command ticket c :: rest => play (w.perform ticket c).1 rest
  | .steps n :: rest =>
    let (log, w) := w.steps n
    let (more, w) := play w rest
    (log ++ more, w)
  | .pass ms :: rest => play (wakeDue { w with now := w.now + ms }) rest

/-- What a world can come to, and the jobs done on the way, in order. Ready tasks run first in,
first out. Where a task waits for one of several things and more than one of them is there, the
order is that of `work` and `watchNext`: a task that is stopped takes nothing more, so a payload or
a change that came with its cancellation is left. The program leaves this choice open; commands and
time may fall between any two steps. -/
inductive Run (w₀ : World) : List Moment → World → Prop
  | start : Run w₀ [] w₀
  | step {log : List Moment} {w : World} {task : Task} {rest : List Task} (h : Run w₀ log w)
      (hready : w.ready = task :: rest) :
      Run w₀ (log ++ [⟨task, w.begin task rest⟩]) ((w.begin task rest).exec task.job)
  | command {log : List Moment} {w : World} (h : Run w₀ log w) (ticket : Nat) {c : Command}
      (hc : ∀ ms, c ≠ .wait ms) : Run w₀ log (w.perform ticket c).1
  | pass {log : List Moment} {w : World} (h : Run w₀ log w) {t : Nat} (ht : w.now ≤ t) :
      Run w₀ log { w with now := t }
  | wake {log : List Moment} {w : World} (h : Run w₀ log w) : Run w₀ log w.wakeDue

namespace Run

variable {w₀ w₁ w w' : World} {log log₁ log₂ : List Moment}

theorem trans (h₁ : Run w₀ log₁ w₁) (h₂ : Run w₁ log₂ w) : Run w₀ (log₁ ++ log₂) w := by
  induction h₂ with
  | start => simpa using h₁
  | step _ hready ih =>
    rw [← List.append_assoc]
    exact .step ih hready
  | command _ ticket hc ih => exact .command ih ticket hc
  | pass _ ht ih => exact .pass ih ht
  | wake _ ih => exact .wake ih

theorem steps (h : Run w₀ log w) (n : Nat) : Run w₀ (log ++ (w.steps n).1) (w.steps n).2 := by
  induction n generalizing log w with
  | zero => simpa [World.steps] using h
  | succ n ih =>
    unfold World.steps
    split
    · simpa using h
    · rename_i task rest hready
      have hrest := ih (h.step hready)
      rw [List.append_assoc] at hrest
      exact hrest

theorem play (h : Run w₀ log w) {moves : List Move} (hmoves : moves.all (!·.waits) = true) :
    Run w₀ (log ++ (w.play moves).1) (w.play moves).2 := by
  induction moves generalizing log w with
  | nil => simpa [World.play] using h
  | cons move rest ih =>
    obtain ⟨hmove, hrest⟩ := Bool.and_eq_true_iff.1 hmoves
    cases move with
    | command ticket c =>
      have hc : ∀ ms, c ≠ .wait ms := by
        rintro ms rfl
        cases hmove
      exact ih (h.command ticket hc) hrest
    | steps n =>
      have hplayed := ih (h.steps n) hrest
      rw [List.append_assoc] at hplayed
      exact hplayed
    | pass ms => exact ih (h.pass (Nat.le_add_right _ _)).wake hrest

/-- Playing moves is a run. -/
theorem of_play (w : World) {moves : List Move} (hmoves : moves.all (!·.waits) = true) :
    Run w (w.play moves).1 (w.play moves).2 := by
  simpa using start.play hmoves

/-- A job that was done stands between the run up to it and the run that goes on from it. -/
theorem split {m : Moment} (h : Run w₀ (log₁ ++ m :: log₂) w) :
    ∃ v rest, Run w₀ log₁ v ∧ v.ready = m.task :: rest ∧ m.world = v.begin m.task rest ∧
      Run m.after log₂ w := by
  generalize hlog : log₁ ++ m :: log₂ = log at h
  induction h generalizing log₂ with
  | start => simp at hlog
  | @step log w task rest h hready ih =>
    rcases List.eq_nil_or_concat log₂ with rfl | ⟨earlier, last, rfl⟩
    · obtain ⟨rfl, hlast⟩ := List.append_inj' hlog rfl
      obtain rfl := (List.cons.inj hlast).1
      exact ⟨w, rest, h, hready, rfl, .start⟩
    · rw [List.concat_eq_append, ← List.cons_append, ← List.append_assoc] at hlog
      obtain ⟨rfl, hlast⟩ := List.append_inj' hlog rfl
      obtain ⟨v, rest', hbefore, hbegin, hworld, hafter⟩ := ih rfl
      obtain rfl := (List.cons.inj hlast).1
      rw [List.concat_eq_append]
      exact ⟨v, rest', hbefore, hbegin, hworld, hafter.step hready⟩
  | command _ ticket hc ih =>
    obtain ⟨v, rest, hbefore, hbegin, hworld, hafter⟩ := ih hlog
    exact ⟨v, rest, hbefore, hbegin, hworld, hafter.command ticket hc⟩
  | pass _ ht ih =>
    obtain ⟨v, rest, hbefore, hbegin, hworld, hafter⟩ := ih hlog
    exact ⟨v, rest, hbefore, hbegin, hworld, hafter.pass ht⟩
  | wake _ ih =>
    obtain ⟨v, rest, hbefore, hbegin, hworld, hafter⟩ := ih hlog
    exact ⟨v, rest, hbefore, hbegin, hworld, hafter.wake⟩

end Run

/-- Nothing was done yet: no connection, no task, no watch. -/
structure Fresh (w : World) : Prop where
  connections : w.connections = []
  persisted : w.persisted = []
  tokens : w.tokens = 0
  cancelled : w.cancelled = []
  started : w.started = 0
  ready : w.ready = []
  parked : w.parked = []
  trace : w.trace = []
  watches : ∀ place, (w.tree place).watches = []

/-- A world of servers, components and a store is fresh when nothing of them is watched. -/
theorem Fresh.of_unwatched {settings : Settings} {servers : List Server}
    {components : Fields Component} {store : Store} (hstore : store.tree.watches = [])
    (hcomponents : ∀ entry ∈ components, entry.2.data.watches = []) :
    Fresh { settings, servers, components, store } where
  connections := rfl
  persisted := rfl
  tokens := rfl
  cancelled := rfl
  started := rfl
  ready := rfl
  parked := rfl
  trace := rfl
  watches place := by
    cases place with
    | store => exact hstore
    | component id =>
      simp only [tree, component]
      cases hget : components.get? id.text with
      | none => rfl
      | some c => exact hcomponents _ (Fields.mem_of_get? hget)

/-- What every change keeps holds in every world of a run. -/
theorem Run.keeps {w₀ w : World} {log : List Moment} {I : World → Prop}
    (hchange : ∀ w c, I w → I (w.apply c))
    (hidle : ∀ (w : World) (ready : List Task) (parked : List Parked) (running now : Nat), I w →
      I { w with ready, parked, running, now })
    (h : Run w₀ log w) (h₀ : I w₀) : I w := by
  have hmakes {P : Change → Prop} {w w' : World} (h : Makes P w w') (hw : I w) : I w' :=
    h.keeps (fun w c _ => hchange w c) hw
  induction h with
  | start => exact h₀
  | @step log w task rest _ hready ih =>
    obtain ⟨mid, e, hmid, -, heq⟩ := exec_does (w.begin task rest) task.job
    have hbegun : I (w.begin task rest) := hidle w rest w.parked task.id w.now ih
    rw [← heq]
    cases e <;> exact hidle mid _ _ mid.running mid.now (hmakes hmid hbegun)
  | command _ ticket hc ih => exact hmakes (perform_makes _ ticket hc) ih
  | @pass log w _ t _ ih => exact hidle w w.ready w.parked w.running t ih
  | @wake log w _ ih => exact hidle w _ _ w.running w.now ih

/-! The numbers of tasks -/

/-- No two tasks have one number, and all numbers were given out. -/
def Counted (started : Nat) (tasks : List Task) : Prop :=
  (tasks.map (·.id)).Nodup ∧ ∀ task ∈ tasks, task.id ≤ started

theorem Counted.of_perm {started : Nat} {tasks tasks' : List Task} (h : Counted started tasks)
    (hperm : tasks'.Perm tasks) : Counted started tasks' :=
  ⟨(hperm.map _).nodup_iff.2 h.1, fun task htask => h.2 task (hperm.subset htask)⟩

/-- New tasks get new numbers. -/
theorem Counted.append_numbered {started : Nat} {tasks : List Task} (h : Counted started tasks)
    (new : List Job) : Counted (started + new.length) (tasks ++ Task.numbered started new) := by
  constructor
  · rw [List.map_append, List.nodup_append]
    refine ⟨h.1, Task.nodup_numbered _ _, ?_⟩
    intro a ha b hb
    obtain ⟨old, hold, rfl⟩ := List.mem_map.1 ha
    obtain ⟨task, htask, rfl⟩ := List.mem_map.1 hb
    have hlow := h.2 old hold
    have hhigh := (Task.mem_numbered htask).1
    omega
  · intro task htask
    rcases List.mem_append.1 htask with htask | htask
    · exact Nat.le_add_right_of_le (h.2 task htask)
    · exact (Task.mem_numbered htask).2.1

/-- The task at the head may go on with another job, or end. -/
theorem Counted.go_on {started : Nat} {task : Task} {tasks : List Task}
    (h : Counted started (task :: tasks)) (next : Option Job) :
    Counted started (tasks ++ next.toList.map (Task.mk task.id)) := by
  obtain ⟨hnodup, hgiven⟩ := h
  cases next with
  | none =>
    rw [Option.toList_none, List.map_nil, List.append_nil]
    exact ⟨(List.nodup_cons.1 hnodup).2, fun t ht => hgiven t (List.mem_cons_of_mem _ ht)⟩
  | some job =>
    have hnext : Counted started (⟨task.id, job⟩ :: tasks) := by
      refine ⟨hnodup, ?_⟩
      intro t ht
      rcases List.mem_cons.1 ht with rfl | ht
      · exact hgiven task List.mem_cons_self
      · exact hgiven t (List.mem_cons_of_mem _ ht)
    exact hnext.of_perm (List.perm_append_singleton _ _)

/-- What the step of a task makes of all tasks: it goes on under its number or ends, and new tasks
have new numbers. -/
theorem exec_tasks (w : World) (job : Job) :
    ∃ new, ∃ next : Option Job, (w.exec job).tasks.Perm
        (w.tasks ++ Task.numbered w.started new ++ next.toList.map (Task.mk w.running)) ∧
      (w.exec job).started = w.started + new.length ∧ ∀ job' ∈ next, job.Leads job' := by
  obtain ⟨mid, e, hmid, hleads, heq⟩ := exec_does w job
  obtain ⟨new, hnew⟩ := hmid.schedules
  refine ⟨new, e.job?, ?_, ?_, hleads⟩
  · rw [← heq, ← hnew.running]
    exact (onward_tasks mid e).trans (hnew.tasks.append_right _)
  · rw [← heq, ← hnew.started]
    cases e <;> rfl

theorem begin_tasks {w : World} {task : Task} {rest : List Task} (h : w.ready = task :: rest) :
    w.tasks = task :: (w.begin task rest).tasks := by
  simp [tasks, begin, h]

theorem begin_pick {α : Type} {w : World} {task : Task} {rest : List Task}
    (h : w.ready = task :: rest) (f : Job → Option α) :
    w.jobs.filterMap f = (f task.job).toList ++ (w.begin task rest).jobs.filterMap f := by
  have hjobs : w.jobs = task.job :: (w.begin task rest).jobs := by
    rw [jobs, begin_tasks h]
    rfl
  rw [hjobs, List.filterMap_cons]
  cases f task.job <;> rfl

theorem Fresh.counted {w : World} (h : w.Fresh) : Counted w.started w.tasks := by
  have htasks : w.tasks = [] := by simp [tasks, h.ready, h.parked]
  rw [htasks]
  exact ⟨List.nodup_nil, fun task htask => absurd htask List.not_mem_nil⟩

theorem Run.counted {w₀ w : World} {log : List Moment} (h : Run w₀ log w)
    (h₀ : Counted w₀.started w₀.tasks) : Counted w.started w.tasks := by
  induction h with
  | start => exact h₀
  | @step log w task rest _ hready ih =>
    obtain ⟨new, next, htasks, hstarted, -⟩ := exec_tasks (w.begin task rest) task.job
    rw [begin_tasks hready] at ih
    have hnew := (ih.append_numbered new).go_on next
    rw [hstarted]
    exact hnew.of_perm htasks
  | command _ ticket hc ih =>
    obtain ⟨new, hnew⟩ := (perform_makes _ ticket hc).schedules
    rw [hnew.started]
    exact (ih.append_numbered new).of_perm hnew.tasks
  | pass _ _ ih => exact ih
  | wake _ ih => exact ih.of_perm (wakeDue_woken _).tasks

theorem Run.started_le {w₀ w : World} {log : List Moment} (h : Run w₀ log w) :
    w₀.started ≤ w.started := by
  induction h with
  | start => exact Nat.le_refl _
  | @step log w task rest _ hready ih =>
    obtain ⟨new, next, -, hstarted, -⟩ := exec_tasks (w.begin task rest) task.job
    rw [hstarted]
    exact Nat.le_add_right_of_le ih
  | command _ ticket hc ih =>
    obtain ⟨new, hnew⟩ := (perform_makes _ ticket hc).schedules
    rw [hnew.started]
    exact Nat.le_add_right_of_le ih
  | pass _ _ ih => exact ih
  | wake _ ih => exact ih

end World

end Patchbay
