import Patchbay.Proofs.Engine.Effect

/-!
The tasks of a world, ready or parked. A signal moves tasks and loses none; a change starts at
most one task, under a number that no task had before.
-/

namespace Patchbay

namespace Task

/-- New tasks, under the numbers after `n`. -/
def numbered (n : Nat) : List Job → List Task
  | [] => []
  | job :: rest => ⟨n + 1, job⟩ :: numbered (n + 1) rest

theorem numbered_append (n : Nat) (first later : List Job) :
    numbered n (first ++ later) = numbered n first ++ numbered (n + first.length) later := by
  induction first generalizing n with
  | nil => rfl
  | cons job rest ih =>
    simp only [numbered, List.cons_append, ih, List.length_cons]
    rw [Nat.add_assoc n 1, Nat.add_comm 1]

theorem mem_numbered {n : Nat} {jobs : List Job} {task : Task} (h : task ∈ numbered n jobs) :
    n < task.id ∧ task.id ≤ n + jobs.length ∧ task.job ∈ jobs := by
  induction jobs generalizing n with
  | nil => cases h
  | cons job rest ih =>
    rcases List.mem_cons.1 h with rfl | h
    · exact ⟨Nat.lt_succ_self n, by simp, List.mem_cons_self⟩
    · obtain ⟨hlow, hhigh, hjob⟩ := ih h
      rw [List.length_cons]
      exact ⟨by omega, by omega, List.mem_cons_of_mem _ hjob⟩

theorem numbered_jobs (n : Nat) (jobs : List Job) : (numbered n jobs).map (·.job) = jobs := by
  induction jobs generalizing n with
  | nil => rfl
  | cons job rest ih => rw [numbered, List.map_cons, ih]

theorem nodup_numbered (n : Nat) (jobs : List Job) :
    ((numbered n jobs).map (·.id)).Nodup := by
  induction jobs generalizing n with
  | nil => exact List.nodup_nil
  | cons job rest ih =>
    refine List.nodup_cons.2 ⟨?_, ih (n + 1)⟩
    intro hmem
    obtain ⟨task, htask, hid⟩ := List.mem_map.1 hmem
    have := (mem_numbered htask).1
    simp only at hid
    omega

end Task

/-- The job of the task that a change starts. -/
def Change.job? (w : World) : Change → Option Job
  | .spawn job => some job
  | .attachBack back path =>
    some (.watch { back with watch := (w.watch back.place path).2, own := w.tokens })
  | .attachWorker .. => some (.work w.workers.length)
  | _ => none

namespace World

/-- Between `w` and `w'` these tasks were started, and none has ended or parked. -/
structure Schedules (w : World) (new : List Job) (w' : World) : Prop where
  tasks : w'.tasks.Perm (w.tasks ++ Task.numbered w.started new)
  parked : w'.parked ⊆ w.parked
  started : w'.started = w.started + new.length
  running : w'.running = w.running
  now : w'.now = w.now

theorem Woken.schedules {w w₁ w' : World} {new : List Job} (h : Woken w₁ w')
    (hw : Schedules w new w₁) : Schedules w new w' := by
  have htasks := h.tasks.trans hw.tasks
  have hparked := List.Subset.trans h.parked_subset hw.parked
  obtain ⟨ready, parked, rfl, -, -⟩ := h
  exact ⟨htasks, hparked, hw.started, hw.running, hw.now⟩

theorem setTree_jobs (w : World) (place : Place) (t : Tree) :
    (w.setTree place t).jobs = w.jobs := by
  cases place <;> rfl

theorem setTree_schedules (w : World) (place : Place) (t : Tree) :
    Schedules w [] (w.setTree place t) := by
  cases place <;> exact ⟨by simp [tasks, setTree, setComponent, Task.numbered],
    List.Subset.refl _, rfl, rfl, rfl⟩

theorem spawn_schedules (w : World) (job : Job) : Schedules w [job] (w.spawn job) := by
  refine ⟨?_, List.Subset.refl _, rfl, rfl, rfl⟩
  unfold tasks spawn
  rw [List.append_assoc, List.append_assoc]
  exact (List.perm_append_comm).append_left w.ready

theorem Schedules.refl (w : World) : Schedules w [] w :=
  ⟨by simp [Task.numbered], List.Subset.refl _, rfl, rfl, rfl⟩

theorem Schedules.trans {w w₁ w' : World} {old new : List Job} (h : Schedules w old w₁)
    (h' : Schedules w₁ new w') : Schedules w (old ++ new) w' := by
  have hstarted := h.started
  refine ⟨?_, List.Subset.trans h'.parked h.parked, ?_, h'.running.trans h.running,
    h'.now.trans h.now⟩
  · rw [Task.numbered_append, ← List.append_assoc, ← hstarted]
    exact h'.tasks.trans (h.tasks.append_right _)
  · rw [h'.started, hstarted, List.length_append, Nat.add_assoc]

theorem Schedules.jobs {w w' : World} {new : List Job} (h : Schedules w new w') :
    w'.jobs.Perm (w.jobs ++ new) := by
  have hjobs := h.tasks.map (·.job)
  rwa [List.map_append, Task.numbered_jobs] at hjobs

theorem apply_schedules (w : World) (c : Change) :
    Schedules w (c.job? w).toList (w.apply c) := by
  refine (apply_woken w c).schedules ?_
  have hidle {w w' : World} (hready : w'.ready = w.ready) (hparked : w'.parked = w.parked)
      (hstarted : w'.started = w.started) (hrunning : w'.running = w.running)
      (hnow : w'.now = w.now) : Schedules w [] w' :=
    ⟨by simp [tasks, hready, hparked, Task.numbered], by rw [hparked]; exact List.Subset.refl _,
      hstarted, hrunning, hnow⟩
  cases c with
  | spawn job => exact spawn_schedules w job
  | set place path v => exact (setTree_schedules ..).trans (hidle rfl rfl rfl rfl rfl)
  | touch place => exact (setTree_schedules ..).trans (hidle rfl rfl rfl rfl rfl)
  | attachBack back path =>
    have hwatch : Schedules w [] ((w.watch back.place path).1.newToken).1 :=
      (setTree_schedules w back.place _).trans (hidle rfl rfl rfl rfl rfl)
    simp only [effect, apply, watch_tokens]
    exact hwatch.trans (spawn_schedules _ _)
  | poll place id => exact setTree_schedules ..
  | unwatch place id => exact setTree_schedules ..
  | attachWorker worker serial =>
    have hworker : Schedules w [] { w with workers := w.workers ++ [worker] } :=
      hidle rfl rfl rfl rfl rfl
    obtain ⟨htasks, hparked, hstarted, hrunning, hnow⟩ :=
      hworker.trans (spawn_schedules _ (.work w.workers.length))
    exact ⟨htasks, hparked, hstarted, hrunning, hnow⟩
  | track s =>
    simp only [effect, apply, track]
    split <;> exact hidle rfl rfl rfl rfl rfl
  | _ => exact hidle rfl rfl rfl rfl rfl

theorem Makes.schedules {P : Change → Prop} {w w' : World} (h : Makes P w w') :
    ∃ new, Schedules w new w' := by
  induction h with
  | nothing => exact ⟨[], .refl w⟩
  | more c _ _ ih =>
    obtain ⟨new, hnew⟩ := ih
    exact ⟨_, hnew.trans (apply_schedules _ c)⟩

/-- The running task is a task again once it goes on. -/
theorem onward_tasks (w : World) (e : Onward) :
    (w.onward e).tasks.Perm (w.tasks ++ e.job?.toList.map (Task.mk w.running)) := by
  cases e with
  | ended => simp [onward, Onward.job?]
  | resumes job => exact (List.perm_append_singleton _ _).symm
  | parks job signals due => simp [onward, Onward.job?, park, tasks]

theorem onward_jobs (w : World) (e : Onward) :
    (w.onward e).jobs.Perm (e.job?.toList ++ w.jobs) := by
  have hjobs := (onward_tasks w e).map (·.job)
  rw [List.map_append, List.map_map] at hjobs
  have hnext : e.job?.toList.map ((·.job) ∘ Task.mk w.running) = e.job?.toList := by
    cases e <;> rfl
  rw [hnext] at hjobs
  exact hjobs.trans List.perm_append_comm

/-! What is picked of all jobs -/

variable {α : Type} {f : Job → Option α}

theorem apply_pick (w : World) {c : Change} (hnew : ∀ job ∈ c.job? w, f job = none) :
    ((w.apply c).jobs.filterMap f).Perm (w.jobs.filterMap f) := by
  have hnone : (c.job? w).toList.filterMap f = [] :=
    List.filterMap_eq_nil_iff.2 fun job hjob => hnew job (Option.mem_toList.1 hjob)
  have hperm := (apply_schedules w c).jobs.filterMap f
  rwa [List.filterMap_append, hnone, List.append_nil] at hperm

theorem Makes.pick {P : Change → Prop} {w w' : World} (h : Makes P w w')
    (hnew : ∀ w c, P c → ∀ job ∈ c.job? w, f job = none) :
    (w'.jobs.filterMap f).Perm (w.jobs.filterMap f) := by
  induction h with
  | nothing => exact .refl _
  | more c _ hc ih => exact (apply_pick _ (hnew _ c hc)).trans ih

theorem onward_pick (w : World) (e : Onward) (f : Job → Option α) :
    ((w.onward e).jobs.filterMap f).Perm (e.job?.toList.filterMap f ++ w.jobs.filterMap f) := by
  have hjobs := (onward_jobs w e).filterMap f
  rwa [List.filterMap_append] at hjobs

end World

end Patchbay
