import Patchbay.Proofs.Listeners.Manned
import Patchbay.Proofs.Sessions.Residue

/-!
What a worker has in hand, and what comes of it when the worker's session is over: the worker goes
on with it to the end and takes nothing more.
-/

namespace Patchbay

def AfterHook.payload? : AfterHook → Option Json
  | .admitted _ payload => some payload
  | _ => none

def AfterAction.payload? : AfterAction → Option Json
  | .ticket _ => none
  | .applied _ payload => some payload

namespace Job

/-- The payload that a worker has taken and not begun to apply. -/
def ahead? : Job → Option Json
  | .apply _ payload => some payload
  | .hook _ _ after => after.payload?
  | .hookEnd _ _ after => after.payload?
  | .hookDone _ after => after.payload?
  | _ => none

/-- The payload that the store is at. -/
def applying? : Job → Option Json
  | .dispatch _ _ after => after.payload?
  | .actionEnd _ _ _ after => after.payload?
  | .actionDone _ after => after.payload?
  | _ => none

/-- What a job leaves ahead when it has given that much, and what it may be applying by then. -/
structure Spends (given : Option Json) (job next : Job) : Prop where
  worker : next.worker? = job.worker?
  ahead : ∃ dropped, job.ahead?.toList = given.toList ++ next.ahead?.toList ++ dropped
  applying : ∀ p, next.applying? = some p → job.applying? = some p ∨ given = some p

namespace Spends

variable {job next : Job}

theorem same (hworker : next.worker? = job.worker?) (hahead : next.ahead? = job.ahead?)
    (happlying : next.applying? = job.applying?) : job.Spends none next where
  worker := hworker
  ahead := ⟨[], by simp [hahead]⟩
  applying p h := .inl (happlying ▸ h)

/-- A worker has nothing in hand when it looks for a payload or calls its post-hook. -/
theorem free (hworker : next.worker? = job.worker?) (hahead : next.ahead? = none)
    (happlying : next.applying? = none) : job.Spends none next where
  worker := hworker
  ahead := ⟨_, by rw [hahead]; rfl⟩
  applying p h := by rw [happlying] at h; cases h

/-- It gives the payload that it had in hand. -/
theorem gives {p : Json} (hworker : next.worker? = job.worker?) (hjob : job.ahead? = some p)
    (hahead : next.ahead? = none) (happlying : ∀ q, next.applying? = some q → q = p) :
    job.Spends (some p) next where
  worker := hworker
  ahead := ⟨[], by rw [hjob, hahead]; rfl⟩
  applying q h := .inr (congrArg some (happlying q h).symm)

end Spends

/-- That of the worker's jobs. -/
def of (i : Nat) (pick : Job → Option Json) (job : Job) : Option Json :=
  if job.worker? = some i then pick job else none

end Job

/-- What a worker brings to its target with a job. -/
def Moment.given? (i : Nat) (m : Moment) : Option Json := (m.deed? i).bind Deed.given?

namespace World

variable {v w w' w₀ w₁ : World} {ch : Change} {i t : Nat} {x : Worker} {job : Job}
  {log : List Moment}

/-- The payloads that the worker has taken and not begun to apply. -/
def ahead (w : World) (i : Nat) : List Json := w.jobs.filterMap (Job.of i Job.ahead?)

/-- The payloads that the store is at for the worker. -/
def applying (w : World) (i : Nat) : List Json := w.jobs.filterMap (Job.of i Job.applying?)

/-- The payloads that wait for the worker. -/
def queued (w : World) (i : Nat) : List Json := (w.workers[i]?.map (·.queue)).getD []

/-! One step -/

/-- The payload in hand comes to its target, if the worker is there. -/
theorem applyPayload_spends (w : World) (k : Nat) (p : Json) :
    Does Change.Basic
      ((Job.apply k p).Spends ((Moment.deed ⟨⟨t, .apply k p⟩, w⟩).bind Deed.given?)) w
      (w.applyPayload k p) := by
  unfold applyPayload
  cases hworker : w.workers[k]? with
  | none => exact Makes.nothing.ends
  | some worker =>
    have hgiven : (Moment.deed ⟨⟨t, .apply k p⟩, w⟩).bind Deed.given? = some p := by
      simp only [Moment.deed, Moment.job, hworker]
      rfl
    rw [hgiven]
    dsimp only
    split
    · exact (set_makes ..).resumes (.gives rfl rfl rfl (by simp [Job.applying?]))
    · exact Makes.nothing.resumes (.gives rfl rfl rfl fun q hq => (Option.some.inj hq).symm)
    · split
      · rename_i hcommit
        exact (commit_makes hcommit).resumes (.gives rfl rfl rfl (by simp [Job.applying?]))
      · exact (Makes.one (.record _) trivial).resumes (.gives rfl rfl rfl (by simp [Job.applying?]))

/-- A worker whose session is over takes no payload any more, and goes on with the one it has. -/
theorem exec_spends (hover : ∀ x, w.workers[i]? = some x → w.isCancelled x.token = true)
    (hown : job.worker? = some i) :
    Does Change.Basic (job.Spends ((Moment.given? i ⟨⟨t, job⟩, w⟩))) w (w.exec job) := by
  have hdeed : Moment.given? i ⟨⟨t, job⟩, w⟩ = (Moment.deed ⟨⟨t, job⟩, w⟩).bind Deed.given? :=
    congrArg (Option.bind · Deed.given?) (if_pos hown)
  rw [hdeed]
  cases job with
  | work k =>
    obtain rfl : k = i := Option.some.inj hown
    have hstops : w.exec (.work k) = w := by
      simp only [exec, work]
      split
      · rfl
      · rename_i worker hworker
        rw [if_pos (hover worker hworker)]
    rw [hstops]
    exact Makes.nothing.ends
  | apply k p => exact applyPayload_spends w k p
  | applied k p =>
    simp only [exec, afterApply]
    split
    · exact Makes.nothing.ends
    · exact Makes.nothing.resumesHook (fun _ _ => .free rfl rfl rfl) (.free rfl rfl rfl)
  | hook hook argument after =>
    have hgiven : (Moment.deed ⟨⟨t, .hook hook argument after⟩, w⟩).bind Deed.given? = none := by
      cases after <;> rfl
    rw [hgiven]
    obtain ⟨mid, hmid, heq | ⟨reply, -, heq⟩⟩ := w.startHook_makes hook argument after
    · simp only [exec, heq]
      exact hmid.resumes (.same rfl rfl rfl)
    · simp only [exec, heq]
      exact hmid.resumesAfter (.same rfl rfl rfl) _
  | hookEnd hook reply after =>
    obtain ⟨mid, hmid, heq⟩ := w.endHook_makes hook reply after
    simp only [exec, heq]
    exact hmid.resumes (.same rfl rfl rfl)
  | hookDone verdict after =>
    cases after with
    | admitted k p =>
      simp only [exec, finishHook]
      split
      · exact Makes.nothing.resumes (.free rfl rfl rfl)
      · exact Makes.nothing.resumes (.same rfl rfl rfl)
    | applied k => exact Makes.nothing.resumes (.free rfl rfl rfl)
    | _ => cases hown
  | dispatch action payload after =>
    simp only [exec, startAction]
    split
    · exact Makes.nothing.resumes (.same rfl rfl rfl)
    · exact (Makes.one (.record _) trivial).resumesAfter (.same rfl rfl rfl) _
  | actionEnd action payload plan after =>
    simp only [exec, endAction]
    cases plan.commit with
    | none =>
      dsimp only
      split <;> exact Makes.nothing.resumes (.same rfl rfl rfl)
    | some mutation =>
      dsimp only
      split
      · exact Makes.nothing.resumes (.same rfl rfl rfl)
      · rename_i hcommit
        split <;> exact (commit_makes hcommit).resumes (.same rfl rfl rfl)
  | actionDone result after =>
    cases after with
    | ticket => cases hown
    | applied k p =>
      cases result with
      | ok v => exact Makes.nothing.resumes (.free rfl rfl rfl)
      | error e => exact (Makes.one (.record _) trivial).resumes (.free rfl rfl rfl)
  | _ => cases hown

theorem ahead_of_given? {m : Moment} {p : Json} (h : m.given? i = some p) :
    m.job.of i Job.ahead? = some p := by
  obtain ⟨⟨id, job⟩, u⟩ := m
  by_cases hown : job.worker? = some i
  · have hdeed : (Moment.deed ⟨⟨id, job⟩, u⟩).bind Deed.given? = some p := by
      rw [← h]
      exact (congrArg (Option.bind · Deed.given?) (if_pos hown)).symm
    have hahead : job.ahead? = some p := by
      cases job with
      | apply k q =>
        simp only [Moment.deed, Moment.job] at hdeed
        cases hworker : u.workers[k]? with
        | none => simp [hworker] at hdeed
        | some worker =>
          rw [hworker] at hdeed
          exact hdeed
      | hook hook argument after => cases after <;> cases hdeed
      | hookDone verdict after => cases after <;> cases hdeed
      | _ => cases hdeed
    rw [← hahead]
    exact if_pos hown
  · have hnone : Moment.given? i ⟨⟨id, job⟩, u⟩ = none :=
      congrArg (Option.bind · Deed.given?) (if_neg hown)
    rw [hnone] at h
    cases h

/-! What is in hand -/

section

variable {pick : Job → Option Json}

/-- New tasks have nothing in hand. -/
theorem Makes.of {P : Change → Prop} (h : Makes P w w')
    (hP : ∀ job, P (.spawn job) → job.worker? = none) (hwork : ∀ k, pick (.work k) = none) :
    (w'.jobs.filterMap (Job.of i pick)).Perm (w.jobs.filterMap (Job.of i pick)) := by
  refine h.pick fun u c hc job hjob => ?_
  cases c with
  | spawn new =>
    rw [← Option.some.inj hjob]
    exact if_neg (by simp [hP new hc])
  | attachBack back path => rw [← Option.some.inj hjob]; rfl
  | attachWorker worker serial =>
    rw [← Option.some.inj hjob]
    simp [Job.of, hwork]
  | _ => cases hjob

end

/-- Of what the worker had in hand it has given this to its target, has some yet, and has dropped
the rest; what the store is at is of what it was at or of what was given. -/
structure Goes (i : Nat) (given : List Json) (w w' : World) : Prop where
  ahead : ∃ dropped, (w.ahead i).Perm (given ++ w'.ahead i ++ dropped)
  applying : w'.applying i ⊆ w.applying i ++ given

namespace Goes

variable {given given' : List Json} {w'' : World}

theorem same (hahead : (w'.ahead i).Perm (w.ahead i))
    (happlying : (w'.applying i).Perm (w.applying i)) :
    Goes i [] w w' where
  ahead := ⟨[], by simpa using hahead.symm⟩
  applying := by simpa using happlying.subset

theorem trans (h : Goes i given w w') (h' : Goes i given' w' w'') :
    Goes i (given ++ given') w w'' := by
  obtain ⟨dropped, hdropped⟩ := h.ahead
  obtain ⟨dropped', hdropped'⟩ := h'.ahead
  refine ⟨⟨dropped' ++ dropped, ?_⟩, fun p hp => ?_⟩
  · refine hdropped.trans ?_
    simpa only [List.append_assoc] using (hdropped'.append_left given).append_right dropped
  · rcases List.mem_append.1 (h'.applying hp) with hold | hnew
    · rw [← List.append_assoc]
      exact List.mem_append_left _ (h.applying hold)
    · exact List.mem_append_right _ (List.mem_append_right _ hnew)

theorem of_makes {P : Change → Prop} (h : Makes P w w')
    (hP : ∀ job, P (.spawn job) → job.worker? = none) : Goes i [] w w' :=
  .same (h.of hP fun _ => rfl) (h.of hP fun _ => rfl)

/-- The running task goes on with what its job leaves. -/
theorem onward {task : Task} {rest : List Task} {mid : World} {e : Onward} {given : Option Json}
    (hready : w.ready = task :: rest) (hmid : Goes i [] (w.begin task rest) mid)
    (hahead : ∃ dropped, (task.job.of i Job.ahead?).toList =
      given.toList ++ e.job?.toList.filterMap (Job.of i Job.ahead?) ++ dropped)
    (happlying : e.job?.toList.filterMap (Job.of i Job.applying?) ⊆
      (task.job.of i Job.applying?).toList ++ given.toList) :
    Goes i given.toList w (mid.onward e) := by
  obtain ⟨dropped, hdropped⟩ := hahead
  obtain ⟨dropped', hdropped'⟩ := hmid.ahead
  refine ⟨⟨dropped' ++ dropped, ?_⟩, fun p hp => ?_⟩
  · have hbegun : w.ahead i = (task.job.of i Job.ahead?).toList ++ (w.begin task rest).ahead i :=
      begin_pick hready _
    have hnext : ((mid.onward e).ahead i).Perm
        (e.job?.toList.filterMap (Job.of i Job.ahead?) ++ mid.ahead i) := onward_pick mid e _
    rw [hbegun, hdropped]
    refine List.Perm.trans ?_ ((hnext.symm.append_left given.toList).append_right _)
    simp only [List.append_assoc]
    refine List.Perm.append_left _ (List.Perm.append_left _ ?_)
    refine (hdropped'.append_left dropped).trans ?_
    have hswap : (dropped ++ (mid.ahead i ++ dropped')).Perm (mid.ahead i ++ dropped' ++ dropped) :=
      List.perm_append_comm
    simpa using hswap
  · have hbegun : w.applying i =
        (task.job.of i Job.applying?).toList ++ (w.begin task rest).applying i :=
          begin_pick hready _
    have hnext : ((mid.onward e).applying i).Perm
        (e.job?.toList.filterMap (Job.of i Job.applying?) ++ mid.applying i) := onward_pick mid e _
    rw [hbegun]
    rcases List.mem_append.1 (hnext.subset hp) with hnew | hold
    · rcases List.mem_append.1 (happlying hnew) with hown | hgiven
      · exact List.mem_append_left _ (List.mem_append_left _ hown)
      · exact List.mem_append_right _ hgiven
    · have hbefore := hmid.applying hold
      rw [List.append_nil] at hbefore
      exact List.mem_append_left _ (List.mem_append_right _ hbefore)

end Goes

theorem step_spends {task : Task} {rest : List Task} (hready : w.ready = task :: rest)
    (hover : ∀ x, w.workers[i]? = some x → w.isCancelled x.token = true) :
    Goes i (Moment.given? i ⟨task, w.begin task rest⟩).toList w
      ((w.begin task rest).exec task.job) := by
  by_cases hown : task.job.worker? = some i
  · obtain ⟨mid, e, hmid, hspends, heq⟩ :=
      exec_spends (w := w.begin task rest) (t := task.id) hover hown
    have hof (pick : Job → Option Json) : task.job.of i pick = pick task.job := if_pos hown
    rw [← heq]
    cases hnext : e.job? with
    | none =>
      refine .onward hready (.of_makes hmid fun _ h => h.elim) ?_ (by simp [hnext])
      cases hgiven : Moment.given? i ⟨task, w.begin task rest⟩ with
      | none => exact ⟨_, by rw [hnext]; rfl⟩
      | some p =>
        have htaken : task.job.of i Job.ahead? = some p := ahead_of_given? hgiven
        exact ⟨[], by rw [hnext, htaken]; rfl⟩
    | some next =>
      have hgoes := hspends next hnext
      have hof' (pick : Job → Option Json) : next.of i pick = pick next :=
        if_pos (hgoes.worker.trans hown)
      have hpick (pick : Job → Option Json) :
          e.job?.toList.filterMap (Job.of i pick) = (pick next).toList := by
        rw [hnext, Option.toList_some, List.filterMap_cons, hof']
        cases pick next <;> rfl
      refine .onward hready (.of_makes hmid fun _ h => h.elim) ?_ ?_
      · rw [hof, hpick]
        exact hgoes.ahead
      · rw [hof, hpick]
        intro p hp
        rcases hgoes.applying p (Option.mem_toList.1 hp) with hold | hnew
        · exact List.mem_append_left _ (Option.mem_toList.2 hold)
        · exact List.mem_append_right _ (Option.mem_toList.2 hnew)
  · obtain ⟨mid, e, hmid, hleads, heq⟩ := exec_does (w.begin task rest) task.job
    have hnone (pick : Job → Option Json) : e.job?.toList.filterMap (Job.of i pick) = [] :=
      List.filterMap_eq_nil_iff.2 fun next hnext =>
        if_neg ((hleads next (Option.mem_toList.1 hnext)).worker ▸ hown)
    have hgiven : Moment.given? i ⟨task, w.begin task rest⟩ = none :=
      congrArg (Option.bind · Deed.given?) (if_neg hown)
    rw [← heq, hgiven]
    refine .onward hready (.of_makes hmid fun _ hc => hc.spawns.2.1) ⟨_, by rw [hnone]; rfl⟩ ?_
    rw [hnone]
    exact List.nil_subset _

/-! A run -/

/-- A worker keeps its token. -/
theorem Run.worker_token (h : Run w log w') (hx : w.workers[i]? = some x) :
    ∃ y, w'.workers[i]? = some y ∧ y.token = x.token := by
  obtain ⟨y, hy, heq⟩ := h.keeps (I := fun w => w.Employs i x) (fun _ ch hw => hw.apply ch)
    (fun _ _ _ _ _ hw => hw) ⟨x, hx, rfl⟩
  exact ⟨y, hy, by rw [heq]⟩

theorem Run.isCancelled {token : Token} (h : Run w log w') (hw : w.isCancelled token = true) :
    w'.isCancelled token = true :=
  h.keeps (I := fun w => w.isCancelled token = true) (fun _ ch hw => isCancelled_apply hw ch)
    (fun _ _ _ _ _ hw => hw) hw

/-- What the worker has brought to its target in a run. -/
def brought (i : Nat) (log : List Moment) : List Json := log.filterMap (Moment.given? i)

theorem brought_concat (i : Nat) (log : List Moment) (m : Moment) :
    brought i (log ++ [m]) = brought i log ++ (m.given? i).toList := filterMap_concat _ log m

/-- From when its session is over a worker only goes on with what it had in hand. -/
theorem Run.goes (h : Run v log w)
    (hover : ∀ x, w.workers[i]? = some x → v.isCancelled x.token = true) :
    Goes i (brought i log) v w ∧ ∀ m ∈ log, ∀ p, m.job.of i Job.applying? = some p →
      p ∈ v.applying i ++ brought i log := by
  have hearlier {w w' : World} {log : List Moment} (h : Run w log w')
      (hover : ∀ x, w'.workers[i]? = some x → v.isCancelled x.token = true) :
      ∀ x, w.workers[i]? = some x → v.isCancelled x.token = true := by
    intro x hx
    obtain ⟨y, hy, htoken⟩ := h.worker_token hx
    exact htoken ▸ hover y hy
  induction h with
  | start => exact ⟨.same (.refl _) (.refl _), fun m hm => absurd hm List.not_mem_nil⟩
  | @step log w task rest hrun hready ih =>
    have hover' := hearlier (.step .start hready) hover
    obtain ⟨hgoes, hbrings⟩ := ih hover'
    have hstep := step_spends hready fun x hx => hrun.isCancelled (hover' x hx)
    rw [brought_concat]
    refine ⟨hgoes.trans hstep, fun m hm p hp => ?_⟩
    rw [← List.append_assoc]
    refine List.mem_append_left _ ?_
    rcases List.mem_append.1 hm with hm | hm
    · exact hbrings m hm p hp
    · have hheld : p ∈ w.applying i := by
        rw [applying, begin_pick hready, List.mem_append]
        rw [List.mem_singleton.1 hm] at hp
        exact .inl (Option.mem_toList.2 hp)
      exact hgoes.applying hheld
  | @command log w hrun ticket c hc ih =>
    obtain ⟨hgoes, hbrings⟩ := ih (hearlier (.command .start ticket hc) hover)
    have hstep := Goes.of_makes (i := i) (perform_makes w ticket hc) fun _ hc => hc.spawns.2
    exact ⟨by simpa using hgoes.trans hstep, hbrings⟩
  | pass _ _ ih =>
    obtain ⟨hgoes, hbrings⟩ := ih hover
    exact ⟨⟨hgoes.ahead, hgoes.applying⟩, hbrings⟩
  | @wake log w _ ih =>
    obtain ⟨hgoes, hbrings⟩ := ih hover
    have hjobs : w.wakeDue.jobs.Perm w.jobs := (wakeDue_woken w).tasks.map _
    have hstep : Goes i [] w w.wakeDue := .same (hjobs.filterMap _) (hjobs.filterMap _)
    exact ⟨by simpa using hgoes.trans hstep, hbrings⟩

/-! One task -/

/-- The tasks of a worker. -/
def posts (w : World) (i : Nat) : Nat := w.jobs.countP (·.worker? == some i)

/-- A worker has one task at most, counting those that run just now, and none before it is there. -/
structure Single (i running : Nat) (w : World) : Prop where
  one : running + w.posts i ≤ 1
  before : w.workers[i]? = none → running + w.posts i = 0

namespace Single

variable {running : Nat}

theorem apply (h : Single i running w) (hch : ∀ job, ch = .spawn job → job.worker? = none) :
    Single i running (w.apply ch) := by
  have hposts : (w.apply ch).posts i =
      w.posts i + (ch.job? w).toList.countP (·.worker? == some i) := by
    rw [posts, (apply_schedules w ch).jobs.countP_eq, List.countP_append]
    rfl
  have hfewer (hnone : (w.apply ch).workers[i]? = none) : w.workers[i]? = none := by
    cases hx : w.workers[i]? with
    | none => rfl
    | some x =>
      rw [worker_apply hx] at hnone
      cases hnone
  by_cases hstarts : ∃ worker serial, ch = .attachWorker worker serial ∧ w.workers.length = i
  · obtain ⟨worker, serial, rfl, rfl⟩ := hstarts
    have hnobody := h.before (List.getElem?_eq_none (Nat.le_refl _))
    have hnew : ((Change.attachWorker worker serial).job? w).toList.countP
        (·.worker? == some w.workers.length) = 1 := by simp [Change.job?, Job.worker?]
    refine ⟨by omega, fun hnone => ?_⟩
    rw [worker_attach] at hnone
    cases hnone
  · have hnew : (ch.job? w).toList.countP (·.worker? == some i) = 0 := by
      refine List.countP_eq_zero.2 fun job hjob => ?_
      have hjob' := Option.mem_toList.1 hjob
      cases ch with
      | spawn new =>
        rw [← Option.some.inj hjob', hch new rfl]
        simp
      | attachBack back path =>
        rw [← Option.some.inj hjob']
        simp [Job.worker?]
      | attachWorker worker serial =>
        rw [← Option.some.inj hjob']
        simp only [Job.worker?, beq_iff_eq, Option.some.injEq]
        exact fun heq => hstarts ⟨worker, serial, rfl, heq⟩
      | _ => cases hjob'
    rw [hnew, Nat.add_zero] at hposts
    exact ⟨by rw [hposts]; exact h.one, fun hnone => by rw [hposts]; exact h.before (hfewer hnone)⟩

theorem makes {P : Change → Prop} (h : Single i running w) (hmakes : Makes P w w')
    (hP : ∀ job, P (.spawn job) → job.worker? = none) : Single i running w' :=
  hmakes.keeps (I := Single i running)
    (fun _ _ hch hw => hw.apply fun job heq => hP job (heq ▸ hch)) h

theorem exec {task : Task} {rest : List Task} (h : Single i 0 w) (hready : w.ready = task :: rest) :
    Single i 0 ((w.begin task rest).exec task.job) := by
  obtain ⟨mid, e, hmid, hleads, heq⟩ := exec_does (w.begin task rest) task.job
  have hbegun : Single i ([task.job].countP (·.worker? == some i)) (w.begin task rest) := by
    have hposts : w.posts i =
        [task.job].countP (·.worker? == some i) + (w.begin task rest).posts i := by
      rw [posts, jobs, begin_tasks hready, List.map_cons, ← List.singleton_append,
        List.countP_append]
      rfl
    have hone := h.one
    exact ⟨by omega, fun hnone => by have := h.before hnone; omega⟩
  have hdone := hbegun.makes hmid fun _ hc => hc.spawns.2.1
  have hnext : e.job?.toList.countP (·.worker? == some i) ≤
      [task.job].countP (·.worker? == some i) := by
    cases hjob : e.job? with
    | none => exact Nat.zero_le _
    | some next => simp [(hleads next hjob).worker]
  have hposts : (mid.onward e).posts i =
      e.job?.toList.countP (·.worker? == some i) + mid.posts i := by
    rw [posts, (onward_jobs mid e).countP_eq, List.countP_append]
    rfl
  have hworkers : (mid.onward e).workers = mid.workers := by cases e <;> rfl
  have hone := hdone.one
  rw [← heq]
  refine ⟨by omega, fun hnone => ?_⟩
  have := hdone.before (hworkers ▸ hnone)
  omega

end Single

theorem Run.single (h : Run w₀ log w) (h₀ : w₀.Fresh) (i : Nat) : Single i 0 w := by
  induction h with
  | start =>
    have hjobs : w₀.jobs = [] := by simp [jobs, tasks, h₀.ready, h₀.parked]
    exact ⟨by simp [posts, hjobs], fun _ => by simp [posts, hjobs]⟩
  | step _ hready ih => exact ih.exec hready
  | command _ ticket hc ih => exact ih.makes (perform_makes _ ticket hc) fun _ hc => hc.spawns.2
  | pass _ _ ih => exact ⟨ih.one, ih.before⟩
  | @wake log w _ ih =>
    have hjobs : w.wakeDue.jobs.Perm w.jobs := (wakeDue_woken w).tasks.map _
    have hposts : w.wakeDue.posts i = w.posts i := hjobs.countP_eq _
    exact ⟨by rw [hposts]; exact ih.one, fun hnone => by rw [hposts]; exact ih.before hnone⟩

/-- So it has one payload in hand at most. -/
theorem Single.in_hand {running : Nat} (h : Single i running w) :
    (w.ahead i ++ w.applying i).length ≤ 1 := by
  have hcount (l : List Job) : (l.filterMap (Job.of i Job.ahead?)).length +
      (l.filterMap (Job.of i Job.applying?)).length ≤ l.countP (·.worker? == some i) := by
    induction l with
    | nil => exact Nat.le_refl _
    | cons job rest ih =>
      have hjob : (job.of i Job.ahead?).toList.length + (job.of i Job.applying?).toList.length ≤
          [job].countP (·.worker? == some i) := by
        by_cases hown : job.worker? = some i
        · have hone : job.ahead?.toList.length + job.applying?.toList.length ≤ 1 := by
            have hoption (o : Option Json) : o.toList.length ≤ 1 := by cases o <;> simp
            cases job <;> simp [Job.ahead?, Job.applying?, hoption]
          simpa [Job.of, hown] using hone
        · simp [Job.of, hown]
      have hsplit (pick : Job → Option Json) : ((job :: rest).filterMap pick).length =
          (pick job).toList.length + (rest.filterMap pick).length := by
        rw [List.filterMap_cons]
        cases pick job <;> simp [Nat.add_comm]
      rw [hsplit, hsplit, ← List.singleton_append, List.countP_append]
      omega
  have hone := h.one
  have hall := hcount w.jobs
  rw [List.length_append]
  simp only [posts, ahead, applying] at *
  omega

end World

end Patchbay
