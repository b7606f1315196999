import Patchbay.Proofs.EmitBack.Tended

/-!
Every effective change of a watched value is judged once and, if it passes, emitted once. A loop
that waits has nothing queued, and it goes on until its session is torn down; so once a run has
gone quiet, nothing is due on the books of its emitBacks.
-/

namespace Patchbay

namespace Tree

theorem pending_eq (t : Tree) (id : Nat) :
    t.pending id = ((t.watch? id).map Watch.pending).getD [] := rfl

theorem exists_of_pending {t : Tree} {id : Nat} (h : t.pending id ≠ []) :
    ∃ watch ∈ t.watches, watch.id = id ∧ watch.pending ≠ [] := by
  cases hfound : t.watch? id with
  | none => exact absurd (by rw [pending_eq, hfound]; rfl) h
  | some watch =>
    refine ⟨watch, List.mem_of_find?_eq_some hfound, by simpa using List.find?_some hfound, ?_⟩
    rwa [pending_of_watch? hfound] at h

/-- A new watch leaves empty queues empty. -/
theorem pending_watch {t : Tree} {id : Nat} (h : t.pending id = []) (path : String) :
    (t.watch path).1.pending id = [] := by
  rw [pending_eq, watch?_watch]
  rw [pending_eq] at h
  cases hfound : t.watch? id with
  | none => split <;> rfl
  | some watch => simpa [hfound] using h

/-- So does a loop. -/
theorem pending_loop {t : Tree} {id n : Nat} (h : t.pending id = []) {a : Action}
    (ha : World.LoopAction n a) : (t.act a).pending id = [] := by
  rcases ha with rfl | rfl
  · cases hqueue : t.pending n with
    | nil => simpa [act, pollOne, hqueue] using h
    | cons v rest =>
      have hne : id ≠ n := by
        rintro rfl
        rw [hqueue] at h
        cases h
      have hact : t.act (.pollOne n) = { t with watches := t.watches.map fun w =>
          if w.id = n then { w with pending := rest } else w } := by
        simp [act, pollOne, hqueue]
      rw [hact, pending_eq, watch?_map t (fun w => by split <;> rfl)]
      rw [pending_eq] at h
      cases hfound : t.watch? id with
      | none => rfl
      | some watch =>
        have hid : watch.id = id := by simpa using List.find?_some hfound
        simpa [hid, hne, hfound] using h
  · by_cases hne : n = id
    · subst hne
      have hnone : (t.act (.unwatch n)).watch? n = none := by
        refine List.find?_eq_none.2 fun w hw => ?_
        simpa using (List.mem_filter.1 hw).2
      rw [pending_eq, hnone]
      rfl
    · rw [pending_eq, act, watch?_unwatch t hne, ← pending_eq]
      exact h

end Tree

namespace World

/-- A loop that waits will hear of its watch, and has nothing queued. -/
def Alert (w : World) : Prop :=
  ∀ p ∈ w.parked, ∀ back, p.task.job = .watch back →
    Signal.watch back.place back.watch ∈ p.signals ∧ (w.tree back.place).pending back.watch = []

namespace Alert

variable {w w' : World}

theorem tends (h : Alert w) (hparked : w'.parked ⊆ w.parked)
    (htends : ∀ place, Tends place w w') : Alert w' := by
  intro p hp back hback
  obtain ⟨hsignal, hpending⟩ := h p (hparked hp) back hback
  refine ⟨hsignal, ?_⟩
  cases htends back.place with
  | idle more htree => rw [htree, hpending]
  | watch path htree =>
    rw [htree]
    exact Tree.pending_watch hpending path
  | write t ht htree htrace hwoken =>
    rw [htree]
    cases hqueue : t.pending back.watch with
    | nil => rfl
    | cons v rest =>
      obtain ⟨watch, hwatch, hid, hqueued⟩ :=
        Tree.exists_of_pending (hqueue ▸ List.cons_ne_nil v rest)
      exact absurd (hid ▸ hsignal) (hwoken p hp watch hwatch hqueued)

theorem makes (h : Alert w) (hmakes : Makes Change.Foreign w w') : Alert w' :=
  hmakes.keeps (fun w c hc hw => hw.tends (apply_schedules w c).parked (w.apply_tends hc)) h

theorem loop (h : Alert w) (place : Place) {id : Nat} {a : Tree.Action} (ha : LoopAction id a) :
    Alert (w.setTree place ((w.tree place).act a)) := by
  intro p hp back hback
  obtain ⟨hsignal, hpending⟩ := h p ((setTree_schedules w place _).parked hp) back hback
  refine ⟨hsignal, ?_⟩
  rw [tree_setTree]
  split
  · rename_i hplace
    subst hplace
    exact Tree.pending_loop hpending ha
  · exact hpending

/-- A task that parks is no loop, or one whose queue is empty. -/
theorem park (h : Alert w) {job : Job} {signals : List Signal} {due : Option Nat}
    (hjob : ∀ back, job = .watch back →
      Signal.watch back.place back.watch ∈ signals ∧ (w.tree back.place).pending back.watch = []) :
    Alert (w.park job signals due) := by
  intro p hp back hback
  rcases List.mem_append.1 hp with hp | hp
  · exact h p hp back hback
  · obtain rfl := List.mem_singleton.1 hp
    exact hjob back hback

theorem watchNext (h : Alert w) (back : EmitBack) : Alert (w.watchNext back) := by
  unfold World.watchNext
  split
  · exact h.loop back.place (.inr rfl)
  · split
    · rename_i hpoll
      refine h.park ?_
      intro other hother
      obtain rfl := Job.watch.inj hother
      refine ⟨List.mem_cons_self, ?_⟩
      unfold Tree.pollOne at hpoll
      split at hpoll
      · assumption
      · cases hpoll
    · rename_i v t hpoll
      have ht : t = (w.tree back.place).act (.pollOne back.watch) := by simp [Tree.act, hpoll]
      have htake : LoopAction back.watch (.pollOne back.watch) := .inl rfl
      have hloop := h.loop back.place htake
      rw [← ht] at hloop
      exact hloop

end Alert

variable {w₀ w₁ w w' : World} {log log₁ log₂ : List Moment}

/-- In every world of a run the loops that wait have nothing queued. -/
theorem Run.alert (hfresh : w₀.Fresh) (h : Run w₀ log w) : Alert w := by
  induction h with
  | start =>
    intro p hp
    rw [hfresh.parked] at hp
    cases hp
  | @step log w task rest hrun hready ih =>
    have hbegun : Alert (w.begin task rest) :=
      ih.tends (List.Subset.refl _) fun place => .same rfl rfl
    by_cases hloop : ∃ back, task.job = .watch back
    · obtain ⟨back, hback⟩ := hloop
      rw [hback]
      exact hbegun.watchNext back
    · have hproper : task.job.Proper := (hrun.tended hfresh).proper _ (by
        rw [jobs, begin_tasks hready]
        exact List.mem_cons_self)
      obtain ⟨mid, e, hmid, heq, hnext, -⟩ :=
        exec_accounts (w := w.begin task rest) hproper fun back hback => hloop ⟨back, hback⟩
      have hmade := hbegun.makes hmid
      rw [← heq]
      cases e with
      | ended => exact hmade
      | resumes job => exact hmade
      | parks job signals due =>
        exact hmade.park fun back hback => absurd hback ((hnext _ rfl).2.2 back)
  | command _ ticket hc ih =>
    exact ih.makes ((perform_makes _ ticket hc).mono fun c hc => hc.foreign)
  | pass _ _ ih => exact ih
  | @wake _ w _ ih =>
    have hwoken := wakeDue_woken w
    exact ih.tends hwoken.parked_subset fun place => .same (hwoken.tree place) hwoken.trace

/-! Loops go on -/

theorem Makes.cancelled {P : Change → Prop} (h : Makes P w w') : w.cancelled ⊆ w'.cancelled := by
  induction h with
  | nothing => exact List.Subset.refl _
  | more c _ _ ih => exact List.Subset.trans ih (apply_tokens _ c).2

theorem exec_cancelled (w : World) (job : Job) : w.cancelled ⊆ (w.exec job).cancelled := by
  obtain ⟨mid, e, hmid, -, heq⟩ := exec_does w job
  rw [← heq]
  cases e <;> exact hmid.cancelled

theorem isStopped_of_subset {back : EmitBack} (h : w.cancelled ⊆ w'.cancelled)
    (hlive : w'.isStopped back = false) : w.isStopped back = false := by
  simp only [isStopped, isCancelled, Bool.or_eq_false_iff, List.contains_eq_mem,
    decide_eq_false_iff_not]
    at hlive ⊢
  exact ⟨fun hmem => hlive.1 (h hmem), fun hmem => hlive.2 (h hmem)⟩

theorem watch_mem_watchNext {back : EmitBack} (hlive : w.isStopped back = false) :
    .watch back ∈ (w.watchNext back).jobs := by
  unfold World.watchNext
  rw [hlive]
  split
  · rename_i hstopped
    cases hstopped
  · split
    · exact (onward_jobs w (.parks (.watch back) _ none)).symm.subset List.mem_cons_self
    · exact (onward_jobs _ (.resumes (.watch back))).symm.subset List.mem_cons_self

/-- A loop goes on until its session is torn down. -/
theorem Run.loop_goes_on {back : EmitBack} (h : Run w₁ log w) (hback : .watch back ∈ w₁.jobs)
    (hlive : w.isStopped back = false) : .watch back ∈ w.jobs := by
  induction h with
  | start => exact hback
  | @step log w task rest _ hready ih =>
    have hbegun : (w.begin task rest).isStopped back = false :=
      isStopped_of_subset (exec_cancelled _ _) hlive
    have hmem := ih hbegun
    rw [jobs, begin_tasks hready] at hmem
    rcases List.mem_cons.1 hmem with hjob | hmem
    · have hjob' : task.job = .watch back := hjob.symm
      rw [hjob']
      exact watch_mem_watchNext hbegun
    · obtain ⟨new, next, htasks, -, -⟩ := exec_tasks (w.begin task rest) task.job
      refine (htasks.map (·.job)).symm.subset ?_
      simp only [List.map_append, List.mem_append]
      exact .inl (.inl hmem)
  | @command log w _ ticket c hc ih =>
    have hmade := perform_makes w ticket hc
    obtain ⟨new, hnew⟩ := hmade.schedules
    exact hnew.jobs.symm.subset
      (List.mem_append_left _ (ih (isStopped_of_subset hmade.cancelled hlive)))
  | pass _ _ ih => exact ih hlive
  | @wake _ w _ ih => exact ((wakeDue_woken w).tasks.map _).symm.subset (ih hlive)

end World

namespace EmitBack

/-- Nothing of the emitBack is on its way: none of its tasks is ready, and only its loop waits. -/
def Quiet (back : EmitBack) (w : World) : Prop :=
  (∀ task ∈ w.ready, task.job.back? ≠ some back) ∧
    ∀ p ∈ w.parked, p.task.job.back? = some back → p.task.job = .watch back

theorem Quiet.job_eq {back : EmitBack} {w : World} (h : back.Quiet w) {job : Job}
    (hjob : job ∈ w.jobs) (hserves : job.back? = some back) : job = .watch back := by
  obtain ⟨task, htask, rfl⟩ := List.mem_map.1 hjob
  rcases List.mem_append.1 htask with hready | hparked
  · exact absurd hserves (h.1 task hready)
  · obtain ⟨p, hp, rfl⟩ := List.mem_map.1 hparked
    exact h.2 p hp hserves

theorem Quiet.pending_eq {back : EmitBack} {w : World} (h : back.Quiet w) (halert : w.Alert)
    (hloop : .watch back ∈ w.jobs) : (w.tree back.place).pending back.watch = [] := by
  obtain ⟨task, htask, hjob⟩ := List.mem_map.1 hloop
  rcases List.mem_append.1 htask with hready | hparked
  · exact absurd (by rw [hjob]; rfl) (h.1 task hready)
  · obtain ⟨p, hp, rfl⟩ := List.mem_map.1 hparked
    exact (halert p hp back hjob).2

/-- With a validator a message is judged by asking it, without one it always passes. -/
theorem judged_of_validator {back : EmitBack} {hook : Hook} (h : back.validator = some hook)
    (m : Moment) : back.judged m = back.asked m := by
  unfold judged
  split
  · rename_i b v hjob
    have hunasked : back.asked m = none := by simp [asked, hjob]
    rw [hunasked]
    refine if_neg ?_
    rintro ⟨rfl, hnone⟩
    rw [h] at hnone
    cases hnone
  · rfl

theorem judged_of_no_validator {back : EmitBack} (h : back.validator = none) {m : Moment}
    {entry : Json × Verdict} (hjudged : back.judged m = some entry) : entry.2 = .ok .null := by
  unfold judged asked at hjudged
  split at hjudged
  · split at hjudged
    · cases hjudged
      rfl
    · cases hjudged
  · split at hjudged
    · split at hjudged
      · rename_i hboth
        obtain ⟨rfl, hsome⟩ := hboth
        rw [h] at hsome
        cases hsome
      · cases hjudged
    · cases hjudged

/-- What a validator rejects. -/
theorem rejects_iff (verdict : Verdict) : verdict.rejects = true ↔ verdict = .ok (.bool false) ∨
    verdict = .ok (.int 0) ∨ (∃ x, verdict = .ok (.double x) ∧ x.isZero = true) ∨
      verdict = .ok (.str "") := by
  rcases verdict with text | _ | b | n | x | s | items | members
  all_goals simp [Verdict.rejects]

/-- Once a run has gone quiet, every effective change of an attached emitBack whose session is not
torn down was judged once, and its emit was made once if it passed: on the channel and under the
event of the emitBack, with the new value as its data. -/
theorem sent_once_per_accepted_change {w₀ w₁ w : World} {log₁ log₂ : List Moment} {back : EmitBack}
    (hfresh : w₀.Fresh) (hattached : World.Run w₀ log₁ w₁) (hloop : .watch back ∈ w₁.jobs)
    (hrun : World.Run w₁ log₂ w) (hlive : w.isStopped back = false) (hquiet : back.Quiet w) :
    let messages := (Event.seen back.place back.watch w.trace).map fun v => Json.obj [("data", v)]
    let asked := (log₁ ++ log₂).filterMap back.asked
    let sent := (log₁ ++ log₂).filterMap back.sent
    let made (msg : Json) : EmitRun :=
      { channel := back.channel, event := back.event, msg := some msg, hooks := ⟨none, back.post⟩ }
    (∀ hook, back.validator = some hook → (asked.map (·.1)).Perm messages ∧
      sent.Perm ((asked.filter fun call => !call.2.rejects).map fun call => made call.1)) ∧
    (back.validator = none → sent.Perm (messages.map made)) ∧
    ∀ verdict : Verdict, verdict.rejects = true ↔ verdict = .ok (.bool false) ∨
      verdict = .ok (.int 0) ∨ (∃ x, verdict = .ok (.double x) ∧ x.isZero = true) ∨
        verdict = .ok (.str "") := by
  intro messages asked sent made
  have hwhole := hattached.trans hrun
  have hloop' := hrun.loop_goes_on hloop hlive
  have htended := hwhole.tended hfresh
  obtain ⟨taken, hsees, hmessages, hemits⟩ := htended.even back hloop'
  have htaken : taken = Event.seen back.place back.watch w.trace := by
    have hseen := hsees.seen
    rwa [hquiet.pending_eq (hwhole.alert hfresh) hloop', List.append_nil] at hseen
  have hunasked : w.jobs.filterMap back.unasked = [] := by
    refine List.filterMap_eq_nil_iff.2 ?_
    intro job hjob
    by_cases hserves : job.back? = some back
    · rw [hquiet.job_eq hjob hserves]
      rfl
    · exact unasked_eq_none hserves
  have hunsent : w.jobs.filterMap back.unsent = [] := by
    refine List.filterMap_eq_nil_iff.2 ?_
    intro job hjob
    by_cases hserves : job.back? = some back
    · rw [hquiet.job_eq hjob hserves]
      rfl
    · exact unsent_eq_none hserves
  rw [htaken, hunasked, List.append_nil] at hmessages
  rw [hunsent, List.append_nil] at hemits
  refine ⟨?_, ?_, rejects_iff⟩
  · intro hook hvalidator
    have hjudged : back.judged = back.asked := funext (judged_of_validator hvalidator)
    rw [hjudged] at hmessages hemits
    exact ⟨hmessages.symm, hemits.symm⟩
  · intro hvalidator
    have hall : back.passed ((log₁ ++ log₂).filterMap back.judged) =
        (((log₁ ++ log₂).filterMap back.judged).map (·.1)).map (World.emitBackRun back) := by
      unfold passed
      rw [List.filter_eq_self.2, List.map_map]
      · rfl
      · intro entry hentry
        obtain ⟨m, -, hm⟩ := List.mem_filterMap.1 hentry
        rw [judged_of_no_validator hvalidator hm]
        rfl
    rw [hall] at hemits
    exact hemits.symm.trans (hmessages.symm.map _)

/-! A panel whose validator takes a while for its first call and rejects the second -/

def panel : World :=
  { settings := { sockets := [{ name := "home", url := some "http://home" }], warnings := false }
    components := [("panel", {
      data := .ofJson (.obj [("a", .int 1)])
      handlers := [("check", { reply := fun n _ =>
        { delay := if n = 0 then some 5 else none, verdict := .ok (.bool (n = 0)) } })] })] }

def moved : EmitBack :=
  { channel := ⟨1, "home/", none⟩, event := "moved", place := .component ⟨"panel"⟩, watch := 1
    validator := some ⟨⟨"panel"⟩, "check"⟩, post := none, token := 0, own := 1 }

/-- The panel's connection is wired. -/
def panelWired : List Moment × World :=
  panel.play [.command 0 (.connect "h" ⟨"panel"⟩
    { namespaceConfig := some { emitBacks := [.str "check] moved <-- a"] } }), .steps 10]

/-- The watched value has changed twice. -/
def panelMoved : List Moment × World :=
  panelWired.2.play [.command 1 (.setData ⟨"panel"⟩ "a" (.int 2)),
    .command 2 (.setData ⟨"panel"⟩ "a" (.int 3)), .steps 20, .pass 5, .steps 10]

theorem panel_fresh : panel.Fresh :=
  .of_unwatched rfl (List.forall_mem_singleton.2 rfl)

theorem sent_once_of_two_changes :
    Event.seen moved.place moved.watch panelMoved.2.trace = [.int 2, .int 3] ∧
      ((panelWired.1 ++ panelMoved.1).filterMap moved.sent).Perm
        [{ channel := ⟨1, "home/", none⟩, event := "moved",
           msg := some (.obj [("data", .int 2)]) }] := by
  have hattached : World.Run panel panelWired.1 panelWired.2 := .of_play panel rfl
  have hrun : World.Run panelWired.2 panelMoved.1 panelMoved.2 := .of_play panelWired.2 rfl
  have hready : panelMoved.2.ready = [] := rfl
  have hparked : ∃ p q, panelMoved.2.parked = [p, q] ∧ p.task.job = .watch moved ∧
      q.task.job.back? = none := ⟨_, _, rfl, rfl, rfl⟩
  have hquiet : moved.Quiet panelMoved.2 := by
    obtain ⟨p, q, hparked, hp, hq⟩ := hparked
    unfold Quiet
    rw [hready, hparked]
    simp [hp, hq]
  have hloop : .watch moved ∈ panelWired.2.jobs := .head _
  have hlive : panelMoved.2.isStopped moved = false := rfl
  have hasked : ((panelWired.1 ++ panelMoved.1).filterMap moved.asked) =
      [(.obj [("data", .int 2)], .ok (.bool true)), (.obj [("data", .int 3)], .ok (.bool false))] :=
    rfl
  have hseen : Event.seen moved.place moved.watch panelMoved.2.trace = [.int 2, .int 3] := rfl
  have hmain := sent_once_per_accepted_change panel_fresh hattached hloop hrun hlive hquiet
  have hsent := (hmain.1 ⟨⟨"panel"⟩, "check"⟩ rfl).2
  rw [hasked] at hsent
  exact ⟨hseen, hsent⟩

end EmitBack

end Patchbay
