import Patchbay.Proofs.Listeners.Manned

/-!
A listener's worker serves what its listener hears, in order and one payload at a time. All it has
done is a row of rounds, and all that was heard is those rounds, the payload in hand and the queue.
-/

namespace Patchbay

variable {i t r : Nat} {x : Worker} {p : Json} {queue heard : List Json} {e : Onward}
  {deeds begun : List Deed} {current : Option Json} {rounds : List Round}

theorem Stage.job (h : Stage x i begun current e) :
    ∃ job, e.job? = some job ∧ job.worker? = some i := by
  cases h with
  | looks => exact ⟨_, rfl, rfl⟩
  | waits => exact ⟨_, rfl, rfl⟩
  | serves he h => exact ⟨_, he, h.worker?⟩

/-- What a worker has begun with the payload in hand begins a round. -/
theorem Stage.begins (h : Stage x i begun current e) : current = none ∧ begun = [] ∨
    ∃ r : Round, current = some r.payload ∧ r.Judged x ∧ begun <+: r.deeds x := by
  cases h with
  | looks => exact .inl ⟨rfl, rfl⟩
  | waits => exact .inl ⟨rfl, rfl⟩
  | serves _ h =>
    obtain ⟨r, rfl, hjudged, hbegins⟩ := h.begins
    exact .inr ⟨r, rfl, hjudged, hbegins⟩

/-- The books of a worker: what it has done is its rounds and what it has begun, and what it has
heard is their payloads, the one in hand and its queue. -/
def Balanced (x : Worker) (i : Nat) (queue : List Json) (e : Onward) (deeds : List Deed)
    (heard : List Json) : Prop :=
  ∃ (rounds : List Round) (begun : List Deed) (current : Option Json),
    Stage x i begun current e ∧ (∀ r ∈ rounds, r.Judged x) ∧
    deeds = rounds.flatMap (Round.deeds x) ++ begun ∧
    heard = rounds.map (·.payload) ++ current.toList ++ queue

theorem Balanced.hear (h : Balanced x i queue e deeds heard) (more : List Json) :
    Balanced x i (queue ++ more) e deeds (heard ++ more) := by
  obtain ⟨rounds, begun, current, hstage, hjudged, hdeeds, hheard⟩ := h
  exact ⟨rounds, begun, current, hstage, hjudged, hdeeds, by rw [hheard, List.append_assoc]⟩

namespace World

variable {w w' w₀ : World} {ch : Change} {log : List Moment}

/-- One task is the worker's. -/
theorem Staffed.countP_tasks (h : Staffed i t r x queue e w)
    (hjob : ∃ job, e.job? = some job ∧ job.worker? = some i)
    (hcounted : Counted w.started w.tasks) :
    w.tasks.countP (·.job.worker? == some i) = 1 := by
  obtain ⟨job, he, hworker⟩ := hjob
  have hmem : ⟨t, job⟩ ∈ w.tasks := (h.stands.task job).2 he
  have hown : w.tasks.countP (·.job.worker? == some i) ≤ w.tasks.countP (·.id == t) :=
    List.countP_mono_left fun task htask hjob => by
      simpa using h.alone task htask (by simpa using hjob)
  have hone : w.tasks.countP (·.id == t) ≤ 1 := by
    have hcount := List.nodup_iff_count.1 hcounted.1 t
    rwa [List.count, List.countP_map] at hcount
  have hpos : 0 < w.tasks.countP (·.job.worker? == some i) :=
    List.countP_pos_iff.2 ⟨_, hmem, by simp [hworker]⟩
  omega

/-- Nothing feeds the worker, and nobody works for it. -/
structure Absent (i r : Nat) (w : World) : Prop where
  unheard : ∀ n, ∀ l ∈ w.listenersOn n, l.action.feeds i = false
  jobless : ∀ task ∈ w.tasks, task.job.worker? ≠ some i
  given : r ≤ w.started

/-- A worker is absent until its listener is attached, and starts with it. -/
theorem Absent.apply (h : Absent i r w) (hcounted : Counted w.started w.tasks) (hch : ch.Aside i) :
    Absent i r (w.apply ch) ∨ ∃ t x, OffOrStaffed i t r x [] (.resumes (.work i)) (w.apply ch) := by
  have hnew := apply_schedules w ch
  have hstarted := hnew.started
  by_cases hstarts : ∃ worker serial, ch = .attachWorker worker serial ∧ w.workers.length = i
  · obtain ⟨worker, serial, rfl, rfl⟩ := hstarts
    refine .inr ⟨w.started + 1, worker, ?_⟩
    have hworker := worker_attach w worker serial
    have hfresh : worker = { worker with queue := [], fed := true } := by rw [← hch.1, ← hch.2]
    cases hcancelled : w.isCancelled worker.token with
    | true => exact .inl ⟨worker, hworker, .inr hcancelled⟩
    | false =>
      have hready : ⟨w.started + 1, .work w.workers.length⟩ ∈
          (w.apply (.attachWorker worker serial)).ready := by simp [World.apply, adjust, spawn]
      refine .inr ⟨hworker.trans (congrArg some hfresh), hcancelled,
        .of_ready (hcounted.apply _) hready, ⟨Nat.succ_pos _, Nat.le_of_eq hstarted.symm⟩,
        (Nat.ne_of_lt (Nat.lt_succ_of_le h.given)).symm, ?_, fun _ _ _ _ => rfl⟩
      intro task htask hjob
      rcases List.mem_append.1 (hnew.tasks.subset htask) with hold | hnewest
      · exact absurd hjob (h.jobless task hold)
      · rw [List.mem_singleton.1 hnewest]
  · refine .inl ⟨fun n l hl => Bool.eq_false_iff.2 fun hfeeds => ?_, fun task htask => ?_, ?_⟩
    · have hold := (feeder_of_apply hch.honest hl hfeeds).resolve_right hstarts
      rw [h.unheard n l hold] at hfeeds
      cases hfeeds
    · rcases List.mem_append.1 (hnew.tasks.subset htask) with hold | hnewest
      · exact h.jobless task hold
      · have hmem := (Task.mem_numbered hnewest).2.2
        cases ch with
        | spawn job =>
          rw [List.mem_singleton.1 hmem]
          exact hch
        | attachBack back path =>
          rw [List.mem_singleton.1 hmem]
          exact Option.some_ne_none i |>.symm
        | attachWorker worker serial =>
          rw [List.mem_singleton.1 hmem]
          exact fun heq => hstarts ⟨worker, serial, rfl, Option.some.inj heq⟩
        | _ => cases hmem
    · rw [hstarted]
      exact Nat.le_add_right_of_le h.given

/-- Where a worker stands: it is absent, or off, or its books balance. Task `r` is not its own. -/
inductive Course (i r : Nat) (deeds : List Deed) (heard : List Json) (w : World) : Prop
  | absent (h : Absent i r w) (hdeeds : deeds = []) (hheard : heard = [])
  | off (h : Off i w)
  | serving {t : Nat} {x : Worker} {queue : List Json} {e : Onward} (h : Staffed i t r x queue e w)
    (hbalanced : Balanced x i queue e deeds heard)

namespace Course

theorem of_balanced (h : OffOrStaffed i t r x queue e w)
    (hbalanced : Balanced x i queue e deeds heard) : Course i r deeds heard w := by
  rcases h with hoff | hstaffed
  · exact .off hoff
  · exact .serving hstaffed hbalanced

theorem apply (h : Course i r deeds heard w) (hcounted : Counted w.started w.tasks)
    (hch : ch.Aside i) : Course i r deeds heard (w.apply ch) := by
  cases h with
  | absent h hdeeds hheard =>
    rcases h.apply hcounted hch with hstill | ⟨t, x, hstarts⟩
    · exact .absent hstill hdeeds hheard
    · refine .of_balanced hstarts ⟨[], [], none, .looks, by simp, ?_, ?_⟩
      · simpa using hdeeds
      · simpa using hheard
  | off h => exact .off (h.apply ch)
  | serving h hbalanced => exact .of_balanced (h.apply hch) hbalanced

theorem makes {P : Change → Prop} (h : Course i r deeds heard w)
    (hcounted : Counted w.started w.tasks) (hmakes : Makes P w w') (hP : ∀ c, P c → c.Aside i) :
    Course i r deeds heard w' := by
  have hboth : Counted w'.started w'.tasks ∧ Course i r deeds heard w' :=
    hmakes.keeps (I := fun w => Counted w.started w.tasks ∧ Course i r deeds heard w)
      (fun _ ch hch hw => ⟨hw.1.apply ch, hw.2.apply hw.1 (hP ch hch)⟩) ⟨hcounted, h⟩
  exact hboth.2

/-! Other tasks -/

/-- Another task begins its job. -/
theorem begin {task : Task} {rest : List Task} (h : Course i 0 deeds heard w)
    (hcounted : Counted w.started w.tasks) (hready : w.ready = task :: rest)
    (hother : task.job.worker? ≠ some i) : Course i task.id deeds heard (w.begin task rest) := by
  have htasks := begin_tasks hready
  cases h with
  | absent h hdeeds hheard =>
    refine .absent ⟨h.unheard, fun other hmem => h.jobless other ?_, ?_⟩ hdeeds hheard
    · rw [htasks]
      exact List.mem_cons_of_mem _ hmem
    · exact hcounted.2 task (by rw [htasks]; exact List.mem_cons_self)
  | off h => exact .off h
  | @serving t x queue e h hbalanced =>
    have hne : task.id ≠ t := by
      intro hid
      obtain ⟨rounds, begun, current, hstage, -⟩ := hbalanced
      obtain ⟨job, hjob, hworker⟩ := hstage.job
      refine hother ?_
      have hown := (h.stands.task task.job).1 (by rw [← hid, htasks]; exact List.mem_cons_self)
      rw [Option.some.inj (hown.symm.trans hjob), hworker]
    refine .serving ⟨h.worker, h.live, h.stands.begin_other hready hne, h.given, hne.symm,
      fun other hmem => h.alone other ?_, h.wakes⟩ hbalanced
    rw [htasks]
    exact List.mem_cons_of_mem _ hmem

/-- It goes on with no job of the worker's. -/
theorem onward (h : Course i r deeds heard w) (hr : w.running = r) (next : Onward)
    (hother : ∀ job ∈ next.job?, job.worker? ≠ some i) :
    Course i 0 deeds heard (w.onward next) := by
  have htasks := onward_tasks w next
  have hnext {task : Task} (hmem : task ∈ (w.onward next).tasks) :
      task ∈ w.tasks ∨ task.job.worker? ≠ some i := by
    rcases List.mem_append.1 (htasks.subset hmem) with hold | hnew
    · exact .inl hold
    · obtain ⟨job, hjob, rfl⟩ := List.mem_map.1 hnew
      exact .inr (hother job (Option.mem_toList.1 hjob))
  cases h with
  | absent h hdeeds hheard =>
    refine .absent ⟨?_, fun task hmem => (hnext hmem).elim (h.jobless task) id,
      Nat.zero_le _⟩ hdeeds
      hheard
    cases next <;> exact h.unheard
  | off h =>
    refine .off ?_
    cases next <;> exact h
  | serving h hbalanced =>
    have hne := hr ▸ h.apart.symm
    refine .serving ⟨?_, ?_, h.stands.onward_other hne next, ?_, Nat.ne_of_gt h.given.1, ?_, ?_⟩
      hbalanced
    · cases next <;> exact h.worker
    · cases next <;> exact h.live
    · cases next <;> exact h.given
    · exact fun task hmem hjob => h.alone task ((hnext hmem).resolve_right (absurd hjob)) hjob
    · intro p hp hid
      cases next with
      | parks job signals due =>
        rcases List.mem_append.1 hp with hp | hp
        · exact h.wakes p hp hid
        · rw [List.mem_singleton.1 hp] at hid
          exact absurd hid hne
      | _ => exact h.wakes p hp hid

/-! Deliveries -/

theorem deliver (h : Course i r deeds heard w) (hcounted : Counted w.started w.tasks)
    (hfed : Fed i w) (serial : Nat) (event : String) (payload : Json) (ack : Option CellId) :
    Course i r deeds (heard ++ w.heard i [⟨serial, event, payload⟩])
      (w.deliver serial event payload ack) := by
  cases h with
  | absent h hdeeds hheard =>
    have hmissed : w.heard i [⟨serial, event, payload⟩] = [] := by
      have hnobody : w.reaches i ⟨serial, event, payload⟩ = false := by
        refine Bool.eq_false_iff.2 fun hreaches => ?_
        obtain ⟨l, hl, hfeeds⟩ := List.any_eq_true.1 (Bool.and_eq_true_iff.1 hreaches).2
        rw [h.unheard serial l hl, Bool.and_false] at hfeeds
        cases hfeeds
      simp [World.heard, hnobody]
    rw [hmissed, List.append_nil]
    exact (Course.absent h hdeeds hheard).makes hcounted
      (deliver_aside (h.unheard serial) event payload ack) fun _ hc => hc
  | off h => exact .off (h.makes (deliver_makes w serial event payload ack))
  | serving h hbalanced =>
    exact .of_balanced (OffOrStaffed.deliver (.inr h) hfed serial event payload ack)
      (hbalanced.hear _)

/-- What a reply pushes is delivered push by push. -/
theorem pushes (h : Course i r deeds heard w) (hcounted : Counted w.started w.tasks)
    (hfed : Fed i w) (serial : Nat) (pushes : List (String × Json)) :
    Course i r deeds (heard ++ w.heard i (pushes.map fun push => ⟨serial, push.1, push.2⟩))
      (pushes.foldl (fun w push => w.deliver serial push.1 push.2 none) w) := by
  induction pushes generalizing heard w with
  | nil => simpa [World.heard] using h
  | cons push rest ih =>
    have hmakes := deliver_makes w serial push.1 push.2 none
    have hreplies := hmakes.mono (Q := Change.Replies) fun _ hc => hc.replies
    have hrest := ih (h.deliver hcounted hfed serial push.1 push.2 none) (hmakes.counted hcounted)
      (hfed.makes hreplies fun _ hc => hc.honest)
    rw [hfed.heard_makes hreplies, List.append_assoc, ← heard_cons] at hrest
    exact hrest

theorem serveEnd (h : Course i r deeds heard w) (hcounted : Counted w.started w.tasks)
    (hfed : Fed i w) (serial : Nat) (reply : PeerReply) (ack : Option CellId) :
    Course i r deeds (heard ++ w.heard i (Job.serveEnd serial reply ack).deliveries)
      (w.serveEnd serial reply ack) := by
  have hpushed := h.pushes hcounted hfed serial reply.pushes
  have hcounted' := (pushes_makes w serial reply).counted hcounted
  obtain ⟨mid, hmid, hanswer⟩ := reply_makes w serial reply ack
  have hclosed : Makes (Change.Aside i)
      (reply.pushes.foldl (fun w push => w.deliver serial push.1 push.2 none) w) mid := by
    rw [hmid]
    split
    · exact (close_makes _ serial).mono fun _ hc => hc.detaches.undoes.aside
    · exact .nothing
  exact hpushed.makes hcounted' (hclosed.trans (hanswer.mono fun _ hc => hc.aside)) fun _ hc => hc

/-! Steps -/

/-- A step of another task. -/
theorem exec_other {task : Task} {rest : List Task} (h : Course i 0 deeds heard w)
    (hcounted : Counted w.started w.tasks) (hfed : Fed i w) (hready : w.ready = task :: rest)
    (hother : task.job.worker? ≠ some i) : Course i 0 deeds (heard ++ w.heard i task.job.deliveries)
      ((w.begin task rest).exec task.job) := by
  have hbegun := h.begin hcounted hready hother
  have hcounted' : Counted (w.begin task rest).started (w.begin task rest).tasks := by
    rw [begin_tasks hready] at hcounted
    exact ⟨(List.nodup_cons.1 hcounted.1).2,
      fun other hmem => hcounted.2 other (List.mem_cons_of_mem _ hmem)⟩
  have hfed' : Fed i (w.begin task rest) := ⟨hfed.one, hfed.home, hfed.loyal⟩
  by_cases hserves : ∃ serial reply ack, task.job = .serveEnd serial reply ack
  · obtain ⟨serial, reply, ack, hjob⟩ := hserves
    obtain ⟨new, hnew⟩ := (serveEnd_makes (w.begin task rest) serial reply ack).schedules
    rw [hjob]
    have hserved := hbegun.serveEnd hcounted' hfed' serial reply ack
    exact hserved.onward hnew.running .ended fun _ hnone => absurd hnone (Option.not_mem_none _)
  · have hserve : ∀ serial reply ack, task.job ≠ .serveEnd serial reply ack :=
      fun serial reply ack heq => hserves ⟨serial, reply, ack, heq⟩
    have hnothing : w.heard i task.job.deliveries = [] := by
      cases hjob : task.job <;> first | rfl | exact absurd hjob (hserve _ _ _)
    obtain ⟨mid, e, hmid, hleads, heq⟩ := exec_does (w.begin task rest) task.job
    obtain ⟨new, hnew⟩ := hmid.schedules
    rw [hnothing, List.append_nil, ← heq]
    refine (hbegun.makes hcounted' hmid fun _ hc => hc.aside hother hserve).onward hnew.running e ?_
    intro job hjob
    rw [(hleads job hjob).worker]
    exact hother

/-- Between two rounds the worker waits for a payload, or takes the one that waits longest. -/
theorem looks {rounds : List Round} (h : Staffed i t 0 x queue .ended w) (hrunning : w.running = t)
    (hjudged : ∀ r ∈ rounds, r.Judged x) (hdeeds : deeds = rounds.flatMap (Round.deeds x))
    (hheard : heard = rounds.map (·.payload) ++ queue) :
    Course i 0 deeds heard (w.exec (.work i)) := by
  have hbooks : deeds = rounds.flatMap (Round.deeds x) ++ [] := by rw [hdeeds, List.append_nil]
  rcases work_stage h.worker h.live with ⟨rfl, heq⟩ | ⟨p, others, next, rfl, heq, hdeaf, htaken⟩
  · exact .serving (heq ▸ h.onward hrunning _ fun _ => rfl)
      ⟨rounds, [], none, .waits, hjudged, hbooks, by simpa using hheard⟩
  · refine .serving (heq ▸ h.dequeue.onward hrunning next (by simp [hdeaf]))
      ⟨rounds, [], some p, htaken, hjudged, hbooks, ?_⟩
    simp [hheard]

/-- In a round the worker goes on with the payload in hand, or finishes the round. -/
theorem serves {rounds : List Round} {begun : List Deed} {p : Json} {job : Job}
    (h : Staffed i t 0 x queue .ended w) (hrunning : w.running = t)
    (hjudged : ∀ r ∈ rounds, r.Judged x) (hserves : Patchbay.Serves x i p begun job)
    (hheard : heard = rounds.map (·.payload) ++ (some p).toList ++ queue) :
    Course i 0 (rounds.flatMap (Round.deeds x) ++ begun ++
      (Moment.deed? i ⟨⟨t, job⟩, w⟩).toList) heard (w.exec job) := by
  have hx : w.Employs i x := ⟨_, h.worker, rfl⟩
  have hmade {mid : World} (hmid : Makes Change.Basic w mid) :
      OffOrStaffed i t 0 x queue .ended mid ∧ mid.running = t := by
    obtain ⟨new, hnew⟩ := hmid.schedules
    exact ⟨OffOrStaffed.makes (.inr h) hmid fun _ hc => hc.aside, hnew.running.trans hrunning⟩
  rw [List.append_assoc]
  cases hserves.works (t := t) hx with
  | @serves mid next job hmid heq he hdeaf hnext =>
    obtain ⟨hafter, hrunning⟩ := hmade hmid
    rw [← heq]
    exact .of_balanced (hafter.onward hrunning next (by simp [hdeaf]))
      ⟨rounds, _, some p, .serves he hnext, hjudged, rfl, hheard⟩
  | @finishes round mid hmid heq hpayload hround hdeeds =>
    obtain ⟨hafter, hrunning⟩ := hmade hmid
    rw [← heq]
    refine .of_balanced (hafter.onward hrunning (.resumes (.work i)) (by simp [Onward.signals]))
      ⟨rounds ++ [round], [], none, .looks, ?_, ?_, ?_⟩
    · intro r hr
      rcases List.mem_append.1 hr with hr | hr
      · exact hjudged r hr
      · rw [List.mem_singleton.1 hr]
        exact hround
    · rw [hdeeds]
      simp
    · rw [hheard, ← hpayload]
      simp

/-- A step of the worker. -/
theorem exec_own {task : Task} {rest : List Task} (h : Course i 0 deeds heard w)
    (hcounted : Counted w.started w.tasks) (hready : w.ready = task :: rest)
    (hown : task.job.worker? = some i) :
    Course i 0 (deeds ++ (Moment.deed? i ⟨task, w.begin task rest⟩).toList) heard
      ((w.begin task rest).exec task.job) := by
  have hmem : task ∈ w.tasks := by
    rw [begin_tasks hready]
    exact List.mem_cons_self
  cases h with
  | absent h => exact absurd hown (h.jobless task hmem)
  | off h =>
    obtain ⟨mid, e, hmid, -, heq⟩ := exec_does (w.begin task rest) task.job
    have hoff : Off i mid := Off.makes (w := w.begin task rest) h hmid
    rw [← heq]
    cases e <;> exact .off hoff
  | @serving t x queue e h hbalanced =>
    obtain ⟨id, job⟩ := task
    obtain rfl : id = t := h.alone _ hmem hown
    have hjob : e.job? = some job := (h.stands.task job).1 hmem
    have hbegun := h.begin hcounted hready rfl
    obtain ⟨rounds, begun, current, hstage, hjudged, rfl, hheard⟩ := hbalanced
    have hlook (hwork : job = .work i) (hbegun' : begun = []) (hcurrent : current = none) :
        Course i 0 (rounds.flatMap (Round.deeds x) ++ begun ++
          (Moment.deed? i ⟨⟨id, job⟩, w.begin ⟨id, job⟩ rest⟩).toList) heard
            ((w.begin ⟨id, job⟩ rest).exec job) := by
      subst hwork hbegun' hcurrent
      exact looks hbegun rfl hjudged (by simp [Moment.deed?, Moment.deed, Moment.job, Job.worker?])
        (by simpa using hheard)
    cases hstage with
    | looks => exact hlook (Option.some.inj hjob).symm rfl rfl
    | waits => exact hlook (Option.some.inj hjob).symm rfl rfl
    | @serves p begun job' e he hserves =>
      obtain rfl := Option.some.inj (he.symm.trans hjob)
      exact serves hbegun rfl hjudged hserves hheard

theorem exec {task : Task} {rest : List Task} (h : Course i 0 deeds heard w)
    (hcounted : Counted w.started w.tasks) (hfed : Fed i w) (hready : w.ready = task :: rest) :
    Course i 0 (deeds ++ (Moment.deed? i ⟨task, w.begin task rest⟩).toList)
      (heard ++ w.heard i task.job.deliveries) ((w.begin task rest).exec task.job) := by
  by_cases hown : task.job.worker? = some i
  · have hnothing : w.heard i task.job.deliveries = [] := by
      cases hjob : task.job <;> first | rfl | (rw [hjob] at hown; cases hown)
    rw [hnothing, List.append_nil]
    exact h.exec_own hcounted hready hown
  · have hdeed : Moment.deed? i ⟨task, w.begin task rest⟩ = none := if_neg hown
    rw [hdeed, Option.toList_none, List.append_nil]
    exact h.exec_other hcounted hfed hready hown

/-! Commands and time -/

theorem perform (h : Course i 0 deeds heard w) (hcounted : Counted w.started w.tasks)
    (hfed : Fed i w) (ticket : Nat) {c : Command} (hc : ∀ ms, c ≠ .wait ms) :
    Course i 0 deeds (heard ++ w.heard i (w.deliveries c)) (w.perform ticket c).1 := by
  cases hdelivers : c.delivers with
  | false =>
    have hnothing : w.heard i (w.deliveries c) = [] := by
      cases c <;> first | rfl | cases hdelivers
    rw [hnothing, List.append_nil]
    exact h.makes hcounted (perform_aside w ticket hc hdelivers) fun _ hc => hc
  | true =>
    cases c with
    | push handle event payload =>
      simp only [World.perform, withPeer_eq, deliveries]
      cases w.peer? handle with
      | none => simpa [World.heard] using h
      | some serial => exact h.deliver hcounted hfed serial event payload none
    | request handle event payload =>
      simp only [World.perform, withPeer_eq, deliveries]
      cases w.peer? handle with
      | none => simpa [World.heard] using h
      | some serial =>
        have hcell : Makes Change.Replies w (w.apply .newCell) := .one .newCell trivial
        have hasked :=
          (h.apply hcounted (show Change.Aside i .newCell from trivial)).deliver
            (hcounted.apply .newCell) (hfed.makes hcell fun _ hc => hc.honest) serial event payload
            (some w.newCell.2)
        have hdelivered := deliver_makes (w.apply .newCell) serial event payload (some w.newCell.2)
        rw [hfed.heard_makes hcell] at hasked
        have hreceives : Change.Aside i (.spawn (.receive w.newCell.2 (.raw ticket))) := by
          simp [Change.Aside, Job.worker?]
        exact hasked.apply (hdelivered.counted (hcounted.apply .newCell)) hreceives
    | _ => cases hdelivers

/-- So do the waking of tasks and time. -/
theorem woken (h : Course i r deeds heard w) (hwoken : Woken w w') : Course i r deeds heard w' := by
  cases h with
  | absent h hdeeds hheard =>
    refine .absent ⟨?_, fun task hmem => h.jobless task (hwoken.tasks.subset hmem), ?_⟩
      hdeeds hheard
    · rw [hwoken.eq]
      exact h.unheard
    · rw [hwoken.eq]
      exact h.given
  | off h =>
    rw [hwoken.eq]
    exact .off h
  | serving h hbalanced => exact .serving (h.woken hwoken) hbalanced

theorem pass (h : Course i r deeds heard w) (t : Nat) :
    Course i r deeds heard { w with now := t } := by
  cases h with
  | absent h hdeeds hheard => exact .absent ⟨h.unheard, h.jobless, h.given⟩ hdeeds hheard
  | off h => exact .off h
  | serving h hbalanced =>
    exact .serving ⟨h.worker, h.live, ⟨h.stands.task, h.stands.parked⟩, h.given, h.apart, h.alone,
      h.wakes⟩ hbalanced

end Course

theorem Fresh.course (h : w.Fresh) (i : Nat) : Course i 0 [] [] w := by
  have htasks : w.tasks = [] := by simp [tasks, h.ready, h.parked]
  refine .absent ⟨fun n l hl => ?_, fun task hmem => ?_, Nat.zero_le _⟩ rfl rfl
  · simp [listenersOn, connection?, h.connections] at hl
  · rw [htasks] at hmem
    cases hmem

theorem Hearing.course (h : Hearing i w₀ log heard w) (h₀ : w₀.Fresh) :
    Course i 0 (log.filterMap (Moment.deed? i)) heard w := by
  induction h with
  | start => exact h₀.course i
  | @step log heard w task rest h hready ih =>
    have hstep := ih.exec (h.run.counted h₀.counted) (h.run.fed (h₀.fed i)) hready
    rwa [filterMap_concat]
  | command h ticket hc ih =>
    exact ih.perform (h.run.counted h₀.counted) (h.run.fed (h₀.fed i)) ticket hc
  | pass _ _ ih => exact ih.pass _
  | wake _ ih => exact ih.woken (wakeDue_woken _)

/-- What a worker has come to. It has done these rounds, one after the other, and begun one more
with the payload in hand; what it has heard is the payloads of these rounds, the one in hand and its
queue. -/
structure InTurn (i : Nat) (x : Worker) (rounds : List Round) (begun : List Deed)
    (current : Option Json) (log : List Moment) (heard : List Json) (w : World) : Prop where
  done : log.filterMap (Moment.deed? i) = rounds.flatMap (Round.deeds x) ++ begun
  heard : heard = rounds.map (·.payload) ++ current.toList ++ x.queue
  judged : ∀ r ∈ rounds, r.Judged x
  begun : current = none ∧ begun = [] ∨
    ∃ r : Round, current = some r.payload ∧ r.Judged x ∧ begun <+: r.deeds x
  /-- All that was not vetoed was applied, and of the payload in hand nothing else. -/
  given : ∃ last, (log.filterMap (Moment.deed? i)).filterMap Deed.given? =
    (rounds.filter fun r => !r.vetoed).map (·.payload) ++ last ∧ last <+: current.toList
  /-- What it did it has done to the world: a payload that was applied got to its target. -/
  does : ∀ before m later, log = before ++ m :: later → ∀ d ∈ m.deed? i, d.Does i m later
  /-- A dispatch that fails is warned of, and its payload counts as applied. -/
  fails : ∀ m ∈ log, ∀ e p y, m.job = .actionDone (.error e) (.applied i p) →
    m.world.workers[i]? = some y →
      m.after = (m.world.warn (.dispatchFailed y.target e.message)).resume (.applied i p)
  /-- One task works for it, and no other. -/
  alone : w.tasks.countP (·.job.worker? == some i) = 1
  /-- When it waits, nothing is left to do. -/
  idle : ∀ p ∈ w.parked, p.task.job = .work i → current = none ∧ x.queue = []

/-- The worker of a listener that is there and whose session is not over serves what the listener
has heard in order and one payload at a time, whatever its hooks and its target do and however long
they take. -/
theorem listener_serves_in_order (h : Hearing i w₀ log heard w) (h₀ : w₀.Fresh) {n : Nat}
    {l : Listener Reaction} (hl : l ∈ w.listenersOn n) {token : Token}
    (haction : l.action = .enqueue i token) (hlive : w.isCancelled token = false) :
    ∃ x rounds begun current, w.workers[i]? = some x ∧ x.event = l.event ∧ x.token = token ∧
      InTurn i x rounds begun current log heard w := by
  have hfeeds : l.action.feeds i = true := by rw [haction]; exact beq_self_eq_true i
  obtain ⟨-, y, hy, hfed, hevent, heq⟩ := (h.run.fed (h₀.fed i)).loyal n l hl hfeeds
  have htoken : y.token = token := (Reaction.enqueue.inj (heq.symm.trans haction)).2
  cases h.course h₀ with
  | absent hab =>
    rw [hab.unheard n l hl] at hfeeds
    cases hfeeds
  | off hoff =>
    obtain ⟨z, hz, hoff⟩ := hoff
    obtain rfl := Option.some.inj (hy.symm.trans hz)
    rw [hfed, htoken, hlive] at hoff
    simp at hoff
  | @serving t x queue e hstaffed hbalanced =>
    obtain rfl := Option.some.inj (hy.symm.trans hstaffed.worker)
    obtain ⟨rounds, begun, current, hstage, hjudged, hdone, hheard⟩ := hbalanced
    refine ⟨_, rounds, begun, current, hy, hevent.symm, htoken, hdone, hheard, hjudged,
      hstage.begins, ?_, ?_, fun m _ e p y => m.warns_of_failed_dispatch, ?_, ?_⟩
    · rw [hdone, List.filterMap_append, Round.given_row]
      refine ⟨_, rfl, ?_⟩
      rcases hstage.begins with ⟨-, rfl⟩ | ⟨r, rfl, -, hbegins⟩
      · exact List.nil_prefix
      · refine (hbegins.filterMap Deed.given?).trans ?_
        rw [Round.given_deeds]
        split
        · exact List.nil_prefix
        · exact List.prefix_refl _
    · rintro before m later rfl d hd
      exact h.run.deed_does h₀.counted hd
    · exact hstaffed.countP_tasks hstage.job (h.run.counted h₀.counted)
    · intro p hp hjob
      have hmem : p.task ∈ w.tasks := List.mem_append_right _ (List.mem_map_of_mem hp)
      have hid := hstaffed.alone p.task hmem (by rw [hjob]; rfl)
      obtain ⟨job, signals, due, rfl, rfl⟩ := hstaffed.stands.parked p hp hid
      obtain rfl : job = .work i := hjob
      cases hstage with
      | waits => exact ⟨rfl, hstaffed.wakes _ hp hid List.mem_cons_self⟩
      | serves he hserves =>
        obtain rfl := Option.some.inj he
        cases hserves with
        | asked _ hjob => cases hjob
        | applying _ hjob => cases hjob
        | told _ _ hjob => cases hjob

/-- A component that sifts its letters before it files them; it throws every second letter away. -/
def mailroom : World :=
  { settings := { sockets := [{ name := "home", url := some "http://home" }] }
    components := [("a", { handlers :=
      [("sift", { reply := fun calls _ =>
          { delay := some 20, verdict := .ok (.bool (calls % 2 == 0)) } }),
        ("tell", { reply := fun _ _ => { delay := some 5, verdict := .error "lost" } })] })] }

/-- It connects, and gets four letters while it is at the first. It has come to the third. -/
def mailroomBusy : List Moment × World :=
  mailroom.play [.command 0 (.connect "x" ⟨"a"⟩
      { namespaceConfig := some { listeners := [.str "sift] letter --> filed [tell"] } }),
    .steps 10,
    .command 1 (.push "x" "letter" (.int 1)), .command 2 (.push "x" "letter" (.int 2)), .steps 10,
    .command 3 (.push "x" "letter" (.int 3)), .command 4 (.push "x" "letter" (.int 4)), .pass 20,
    .steps 10, .pass 5, .steps 10, .pass 20, .steps 10]

theorem third_letter_in_hand : mailroom.Fresh ∧ ∃ l ∈ mailroomBusy.2.listenersOn 1,
    l.action = .enqueue 0 0 ∧ mailroomBusy.2.isCancelled 0 = false ∧
    ∃ heard x rounds begun current, Hearing 0 mailroom mailroomBusy.1 heard mailroomBusy.2 ∧
      InTurn 0 x rounds begun current mailroomBusy.1 heard mailroomBusy.2 ∧
      (x.target, x.queue) = ("filed", [.int 4]) ∧
      (mailroomBusy.1.filterMap (Moment.deed? 0)).filterMap Deed.given? = [.int 1] ∧
      (mailroomBusy.2.tree (.component ⟨"a"⟩)).get? "filed" = some (.int 1) := by
  have hfresh : mailroom.Fresh := .of_unwatched rfl fun entry hentry => by
    rw [List.mem_singleton.1 hentry]
  have hrun : Run mailroom mailroomBusy.1 mailroomBusy.2 := .of_play mailroom rfl
  obtain ⟨heard, hheard⟩ := hrun.hearing 0
  have hl : (⟨1, "letter", .enqueue 0 0, false⟩ : Listener Reaction) ∈
      mailroomBusy.2.listenersOn 1 :=
    List.mem_singleton.2 rfl
  obtain ⟨x, rounds, begun, current, hx, -, -, hturn⟩ :=
    listener_serves_in_order (w := mailroomBusy.2) hheard hfresh hl rfl rfl
  have hworker : mailroomBusy.2.workers[0]?.map (fun x => (x.target, x.queue)) =
      some ("filed", [.int 4]) := rfl
  rw [hx] at hworker
  exact ⟨hfresh, _, hl, rfl, rfl, heard, x, rounds, begun, current, hheard, hturn,
    Option.some.inj hworker, rfl, rfl⟩

end World

end Patchbay
