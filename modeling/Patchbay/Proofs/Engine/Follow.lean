import Patchbay.Proofs.Engine.Run

/-!
One task through a run. Commands, time and the steps of other tasks leave a task as it went on
last, so what its own steps keep holds of it after any run.
-/

namespace Patchbay

namespace World

theorem Counted.eq_of_id {started : Nat} {tasks : List Task} (h : Counted started tasks)
    {a b : Task} (ha : a ∈ tasks) (hb : b ∈ tasks) (hid : a.id = b.id) : a = b := by
  obtain ⟨hnodup, -⟩ := h
  induction tasks with
  | nil => cases ha
  | cons first rest ih =>
    rw [List.map_cons, List.nodup_cons] at hnodup
    obtain ⟨hfirst, hrest⟩ := hnodup
    rcases List.mem_cons.1 ha with rfl | ha' <;> rcases List.mem_cons.1 hb with rfl | hb'
    · rfl
    · rw [hid] at hfirst
      exact absurd (List.mem_map_of_mem hb') hfirst
    · rw [← hid] at hfirst
      exact absurd (List.mem_map_of_mem ha') hfirst
    · exact ih ha' hb' hrest

/-- Task `t` is as it went on last. -/
structure Stands (t : Nat) (e : Onward) (w : World) : Prop where
  task : ∀ job, ⟨t, job⟩ ∈ w.tasks ↔ e.job? = some job
  parked : ∀ p ∈ w.parked, p.task.id = t →
    ∃ job signals due, e = .parks job signals due ∧ p = ⟨⟨t, job⟩, signals, due⟩

namespace Stands

variable {t : Nat} {e : Onward} {w w' : World}

theorem of_ready {job : Job} (hcounted : Counted w.started w.tasks) (h : ⟨t, job⟩ ∈ w.ready) :
    Stands t (.resumes job) w := by
  have hmem : ⟨t, job⟩ ∈ w.tasks := List.mem_append_left _ h
  constructor
  · intro job'
    constructor
    · intro hjob'
      rw [Onward.job?, (Task.mk.inj (hcounted.eq_of_id hmem hjob' rfl)).2]
    · intro heq
      rwa [← Option.some.inj heq]
  · intro p hp hid
    have hnodup := hcounted.1
    rw [tasks, List.map_append, List.nodup_append] at hnodup
    refine absurd rfl (hnodup.2.2 t (List.mem_map_of_mem h) t ?_)
    rw [← hid]
    exact List.mem_map_of_mem (List.mem_map_of_mem hp)

theorem woken (h : Stands t e w) (hwoken : Woken w w') : Stands t e w' :=
  ⟨fun job => (hwoken.tasks.mem_iff).trans (h.task job),
    fun p hp => h.parked p (hwoken.parked_subset hp)⟩

/-- New tasks have other numbers. -/
theorem schedules {new : List Job} (h : Stands t e w) (hnew : Schedules w new w')
    (ht : t ≤ w.started) : Stands t e w' := by
  refine ⟨?_, fun p hp => h.parked p (hnew.parked hp)⟩
  intro job
  have hother : ⟨t, job⟩ ∉ Task.numbered w.started new := by
    intro hmem
    have := (Task.mem_numbered hmem).1
    simp only at this
    omega
  rw [hnew.tasks.mem_iff, List.mem_append, ← h.task job]
  simp [hother]

theorem begin_other {task : Task} {rest : List Task} (h : Stands t e w)
    (hready : w.ready = task :: rest) (hne : task.id ≠ t) : Stands t e (w.begin task rest) := by
  refine ⟨?_, h.parked⟩
  intro job
  have hne' : ⟨t, job⟩ ≠ task := by
    rintro rfl
    exact hne rfl
  rw [← h.task job, begin_tasks hready, List.mem_cons]
  simp [hne']

/-- While it runs, the task is among no others. -/
theorem begin_own {task : Task} {rest : List Task} (hcounted : Counted w.started w.tasks)
    (hready : w.ready = task :: rest) : Stands task.id .ended (w.begin task rest) := by
  have hnodup := hcounted.1
  rw [begin_tasks hready, List.map_cons, List.nodup_cons] at hnodup
  constructor
  · intro job
    constructor
    · intro hmem
      exact absurd (List.mem_map_of_mem (f := Task.id) hmem) hnodup.1
    · intro heq
      cases heq
  · intro p hp hid
    refine absurd ?_ hnodup.1
    rw [← hid]
    exact List.mem_map_of_mem (List.mem_append_right _ (List.mem_map_of_mem hp))

theorem onward_other (h : Stands t e w) (hne : w.running ≠ t) (other : Onward) :
    Stands t e (w.onward other) := by
  constructor
  · intro job
    rw [(onward_tasks w other).mem_iff, List.mem_append, ← h.task job]
    have hother : ⟨t, job⟩ ∉ other.job?.toList.map (Task.mk w.running) := by
      intro hmem
      obtain ⟨job', -, heq⟩ := List.mem_map.1 hmem
      exact hne (Task.mk.inj heq).1
    simp [hother]
  · intro p hp hid
    cases other with
    | ended => exact h.parked p hp hid
    | resumes job => exact h.parked p hp hid
    | parks job signals due =>
      rcases List.mem_append.1 hp with hp | hp
      · exact h.parked p hp hid
      · rw [List.mem_singleton.1 hp] at hid
        exact absurd hid hne

theorem onward_own (h : Stands t .ended w) (ht : w.running = t) (e : Onward) :
    Stands t e (w.onward e) := by
  subst ht
  have hnone (job : Job) : ⟨w.running, job⟩ ∉ w.tasks := by
    intro hmem
    cases (h.task job).1 hmem
  have hidle : ∀ p ∈ w.parked, p.task.id ≠ w.running := by
    intro p hp hid
    obtain ⟨job, signals, due, heq, -⟩ := h.parked p hp hid
    cases heq
  constructor
  · intro job
    rw [(onward_tasks w e).mem_iff, List.mem_append]
    simp [hnone job]
  · intro p hp hid
    cases e with
    | ended => exact absurd hid (hidle p hp)
    | resumes job => exact absurd hid (hidle p hp)
    | parks job signals due =>
      rcases List.mem_append.1 hp with hp | hp
      · exact absurd hid (hidle p hp)
      · exact ⟨job, signals, due, rfl, List.mem_singleton.1 hp⟩

/-- A task that stands somewhere is ready, or parked as it said. -/
theorem ready_or_parked {job : Job} (h : Stands t e w) (he : e.job? = some job) :
    ⟨t, job⟩ ∈ w.ready ∨ ∃ signals due, e = .parks job signals due ∧
      ⟨⟨t, job⟩, signals, due⟩ ∈ w.parked := by
  rcases List.mem_append.1 ((h.task job).2 he) with hready | hparked
  · exact .inl hready
  · obtain ⟨p, hp, heq⟩ := List.mem_map.1 hparked
    obtain ⟨job', signals, due, rfl, rfl⟩ := h.parked p hp (by rw [heq])
    obtain rfl := Option.some.inj he
    exact .inr ⟨signals, due, rfl, hp⟩

end Stands

/-- What the task's own steps keep holds of it after any run. -/
theorem Run.follow {P : List Moment → Onward → Prop} {w₁ w : World} {log : List Moment} {t : Nat}
    {e₀ : Onward} (hcounted : Counted w₁.started w₁.tasks) (ht : t ≤ w₁.started)
    (hstands : w₁.Stands t e₀) (hstart : P [] e₀)
    (hstep : ∀ own e (m : Moment), P own e → e.job? = some m.job →
      ∃ mid e', (∃ Q, Makes Q m.world mid) ∧ mid.onward e' = m.after ∧ P (own ++ [m]) e')
    (h : Run w₁ log w) :
    ∃ e, P (log.filter (·.task.id == t)) e ∧ w.Stands t e := by
  induction h with
  | start => exact ⟨e₀, hstart, hstands⟩
  | @step log w task rest hrun hready ih =>
    obtain ⟨e, hP, he⟩ := ih
    have ht' : t ≤ (w.begin task rest).started := Nat.le_trans ht hrun.started_le
    by_cases hid : task.id = t
    · subst hid
      have hjob : e.job? = some task.job := (he.task task.job).1 (by
        rw [begin_tasks hready]
        exact List.mem_cons_self)
      obtain ⟨mid, e', ⟨Q, hmid⟩, hafter, hP'⟩ := hstep _ _ ⟨task, w.begin task rest⟩ hP hjob
      obtain ⟨new, hnew⟩ := hmid.schedules
      refine ⟨e', ?_, ?_⟩
      · rw [List.filter_append]
        simpa using hP'
      · have hafter' : mid.onward e' = (w.begin task rest).exec task.job := hafter
        rw [← hafter']
        exact ((Stands.begin_own (hrun.counted hcounted) hready).schedules hnew ht').onward_own
          hnew.running e'
    · have hne : (task.id == t) = false := by simpa using hid
      refine ⟨e, ?_, ?_⟩
      · rw [List.filter_append]
        simpa [hne] using hP
      · obtain ⟨mid, e', hmid, -, heq⟩ := exec_does (w.begin task rest) task.job
        obtain ⟨new, hnew⟩ := hmid.schedules
        rw [← heq]
        refine ((he.begin_other hready hid).schedules hnew ht').onward_other ?_ e'
        rw [hnew.running]
        exact hid
  | @command log w hrun ticket c hc ih =>
    obtain ⟨e, hP, he⟩ := ih
    obtain ⟨new, hnew⟩ := (perform_makes w ticket hc).schedules
    exact ⟨e, hP, he.schedules hnew (Nat.le_trans ht hrun.started_le)⟩
  | pass _ _ ih =>
    obtain ⟨e, hP, he⟩ := ih
    exact ⟨e, hP, he.task, he.parked⟩
  | wake _ ih =>
    obtain ⟨e, hP, he⟩ := ih
    exact ⟨e, hP, he.woken (wakeDue_woken _)⟩

/-- A task that has done nothing since is ready still. -/
theorem Run.ready_of_idle {w₁ w : World} {log : List Moment} {t : Nat} {job : Job}
    (h : Run w₁ log w) (hcounted : Counted w₁.started w₁.tasks) (hdue : ⟨t, job⟩ ∈ w₁.ready)
    (hidle : log.filter (·.task.id == t) = []) : ⟨t, job⟩ ∈ w.ready := by
  have hgiven : t ≤ w₁.started := hcounted.2 _ (List.mem_append_left _ hdue)
  obtain ⟨e, he, hstands⟩ :=
    h.follow (P := fun own e => own = [] → e = .resumes job) hcounted hgiven
    (.of_ready hcounted hdue) (fun _ => rfl) fun own _ m _ _ => by
      obtain ⟨mid, e, hmakes, -, hafter⟩ := exec_does m.world m.job
      exact ⟨mid, e, ⟨_, hmakes⟩, hafter, fun hnone => absurd hnone (List.concat_ne_nil m own)⟩
  obtain rfl := he hidle
  exact (hstands.ready_or_parked rfl).resolve_right fun ⟨_, _, hparks, _⟩ => nomatch hparks

/-- The first step of a task that is ready, with the run before it and after it. -/
theorem Run.first_step {w₁ w : World} {log own : List Moment} {t : Nat} {job : Job} {m : Moment}
    (h : Run w₁ log w) (hcounted : Counted w₁.started w₁.tasks) (hdue : ⟨t, job⟩ ∈ w₁.ready)
    (hown : log.filter (·.task.id == t) = m :: own) :
    m.task = ⟨t, job⟩ ∧ ∃ before later v rest, log = before ++ m :: later ∧
      Run w₁ before v ∧ v.ready = m.task :: rest ∧ m.world = v.begin m.task rest ∧
      Run m.after later w ∧ later.filter (·.task.id == t) = own := by
  obtain ⟨before, later, rfl, hbefore, hid, hlater⟩ := List.filter_eq_cons_iff.1 hown
  obtain ⟨v, rest, hreached, hready, hworld, hrun⟩ := h.split
  refine ⟨?_, before, later, v, rest, rfl, hreached, hready, hworld, hrun, hlater⟩
  have hidle : before.filter (·.task.id == t) = [] := List.filter_eq_nil_iff.2 hbefore
  have hstill := hreached.ready_of_idle hcounted hdue hidle
  refine (hreached.counted hcounted).eq_of_id (List.mem_append_left _ ?_)
    (List.mem_append_left _ hstill) (by simpa using hid)
  rw [hready]
  exact List.mem_cons_self

end World

end Patchbay
