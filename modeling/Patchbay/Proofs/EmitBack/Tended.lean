import Patchbay.Proofs.EmitBack.Ledger

/-!
The emitBacks of a running engine. Each watch has one loop, which hands every change it takes to a
task of its own; in every world of a run the books of all loops are even.
-/

namespace Patchbay

private theorem filterMap_cons_eq {α β : Type} (f : α → Option β) (a : α) (l : List α) :
    (a :: l).filterMap f = (f a).toList ++ l.filterMap f := by
  cases h : f a <;> simp [h]

private theorem filterMap_toList_append {α β : Type} (f : α → Option β) (o : Option α)
    (l : List α) : (o.toList ++ l).filterMap f = (o.bind f).toList ++ l.filterMap f := by
  cases o with
  | none => rfl
  | some a => exact filterMap_cons_eq f a l

/-- What leaves one side of the books comes to the other. -/
private theorem perm_exchange {α : Type} {all done due rest out gone left : List α}
    (h : all.Perm (done ++ (due ++ rest))) (hout : due ++ out = gone ++ left) :
    (all ++ out).Perm (done ++ gone ++ (left ++ rest)) := by
  have hmoved : (all ++ out).Perm (done ++ (due ++ (rest ++ out))) := by
    simpa only [List.append_assoc] using h.append_right out
  have hswap : (done ++ (due ++ (rest ++ out))).Perm (done ++ (due ++ (out ++ rest))) :=
    (List.perm_append_comm.append_left due).append_left done
  have hequal : done ++ (due ++ (out ++ rest)) = done ++ gone ++ (left ++ rest) := by
    rw [← List.append_assoc due, hout]
    simp only [List.append_assoc]
  exact hequal ▸ hmoved.trans hswap

/-- What the loop of an emitBack has taken was judged or is yet to be; what passed was sent or is
yet to be. -/
def EmitBack.Even (back : EmitBack) (jobs : List Job) (log : List Moment) (w : World) : Prop :=
  ∃ taken, w.Sees back.place back.watch taken ∧
    (taken.map World.changeMessage).Perm
      ((log.filterMap back.judged).map (·.1) ++ jobs.filterMap back.unasked) ∧
    (back.passed (log.filterMap back.judged)).Perm
      (log.filterMap back.sent ++ jobs.filterMap back.unsent)

/-- The watch that a loop takes changes from. -/
def Job.watch? : Job → Option (Place × Nat)
  | .watch back => some (back.place, back.watch)
  | _ => none

/-- The emitBacks of a world in which these jobs are left to do. Each watch has one loop, and the
books of each loop are even. -/
structure Tended (jobs : List Job) (log : List Moment) (w : World) : Prop where
  known : ∀ place, w.Known place
  proper : ∀ job ∈ jobs, job.Proper
  owned : ∀ job ∈ jobs, ∀ back, job.back? = some back → Nat.lt back.own w.tokens
  logged : ∀ m ∈ log, ∀ back, m.job.back? = some back → Nat.lt back.own w.tokens
  apart : (jobs.filterMap Job.watch?).Nodup
  even : ∀ back, .watch back ∈ jobs → back.Even jobs log w

namespace Tended

variable {jobs jobs' : List Job} {log : List Moment} {w w' : World}

theorem perm (h : Tended jobs log w) (hperm : jobs'.Perm jobs) : Tended jobs' log w where
  known := h.known
  proper job hjob := h.proper job (hperm.subset hjob)
  owned job hjob := h.owned job (hperm.subset hjob)
  logged := h.logged
  apart := (hperm.filterMap _).nodup_iff.2 h.apart
  even back hback := by
    obtain ⟨taken, hsees, hmessages, hemits⟩ := h.even back (hperm.subset hback)
    exact ⟨taken, hsees, hmessages.trans ((hperm.symm.filterMap _).append_left _),
      hemits.trans ((hperm.symm.filterMap _).append_left _)⟩

theorem tends (h : Tended jobs log w) (htends : ∀ place, World.Tends place w w')
    (htokens : w.tokens ≤ w'.tokens) : Tended jobs log w' where
  known place := (h.known place).tends (htends place)
  proper := h.proper
  owned job hjob back hback := Nat.lt_of_lt_of_le (h.owned job hjob back hback) htokens
  logged m hm back hback := Nat.lt_of_lt_of_le (h.logged m hm back hback) htokens
  apart := h.apart
  even back hback := by
    obtain ⟨taken, hsees, hbooks⟩ := h.even back hback
    exact ⟨taken, hsees.tends (htends back.place), hbooks⟩

/-- A job that serves no emitBack is of no account. -/
theorem idle (h : Tended jobs log w) {job : Job} (hjob : job.back? = none) :
    Tended (job :: jobs) log w := by
  have hne (back : EmitBack) : job.back? ≠ some back := by simp [hjob]
  have hloop {back : EmitBack} (hback : Job.watch back ∈ job :: jobs) : .watch back ∈ jobs := by
    rcases List.mem_cons.1 hback with rfl | hback
    · cases hjob
    · exact hback
  have hwatch : job.watch? = none := by
    cases job <;> first | rfl | cases hjob
  refine ⟨h.known, ?_, ?_, h.logged, ?_, ?_⟩
  · intro job' hjob'
    rcases List.mem_cons.1 hjob' with rfl | hjob'
    · exact Job.proper_of_back? hjob
    · exact h.proper job' hjob'
  · intro job' hjob' back hback
    rcases List.mem_cons.1 hjob' with rfl | hjob'
    · exact absurd hback (hne back)
    · exact h.owned job' hjob' back hback
  · rw [List.filterMap_cons_none hwatch]
    exact h.apart
  · intro back hback
    obtain ⟨taken, hsees, hmessages, hemits⟩ := h.even back (hloop hback)
    refine ⟨taken, hsees, ?_, ?_⟩
    · rwa [List.filterMap_cons_none (EmitBack.unasked_eq_none (hne back))]
    · rwa [List.filterMap_cons_none (EmitBack.unsent_eq_none (hne back))]

/-- A new emitBack has a watch and a token of its own, and nothing on its books. -/
theorem attach (h : Tended jobs log w) (back : EmitBack) (path : String) :
    Tended (((Change.attachBack back path).job? w).toList ++ jobs) log
      (w.apply (.attachBack back path)) := by
  have htends := w.apply_tends (c := .attachBack back path) trivial
  have hold := h.tends htends (w.apply_tokens _).1
  generalize hnew : { back with watch := (w.watch back.place path).2, own := w.tokens } = new
  have hplace : new.place = back.place := by rw [← hnew]
  have hwatch : new.watch = (w.tree back.place).created + 1 := by rw [← hnew]; rfl
  have hown : new.own = w.tokens := by rw [← hnew]
  have hjob : (Change.attachBack back path).job? w = some (.watch new) := by rw [← hnew]; rfl
  have hunborn {job : Job} (hjob : job ∈ jobs) : job.back? ≠ some new := fun heq =>
    absurd (h.owned job hjob new heq) (hown ▸ Nat.lt_irrefl _)
  have hunlogged {m : Moment} (hm : m ∈ log) : m.job.back? ≠ some new := fun heq =>
    absurd (h.logged m hm new heq) (hown ▸ Nat.lt_irrefl _)
  have hlater {other : EmitBack} (hother : .watch other ∈ jobs) (hsame : other.place = new.place) :
      other.watch ≠ new.watch := by
    obtain ⟨taken, hsees, -⟩ := h.even other hother
    have hbound := hsees.le_created (h.known other.place)
    rw [hsame, hplace] at hbound
    omega
  rw [hjob]
  refine ⟨hold.known, ?_, ?_, hold.logged, ?_, ?_⟩
  · intro job hjob
    rcases List.mem_cons.1 hjob with rfl | hjob
    · exact trivial
    · exact h.proper job hjob
  · intro job hjob b hb
    rcases List.mem_cons.1 hjob with rfl | hjob
    · obtain rfl := Option.some.inj hb
      rw [hown]
      have htokens := w.watch_tokens back.place path
      exact Nat.lt_succ_of_le (Nat.le_of_eq htokens.symm)
    · exact hold.owned job hjob b hb
  · refine List.nodup_cons.2 ⟨?_, h.apart⟩
    intro hmem
    obtain ⟨job, hjob, hsame⟩ := List.mem_filterMap.1 hmem
    cases job with
    | watch other =>
      obtain ⟨hsame, hid⟩ := Prod.mk.inj (Option.some.inj hsame)
      exact hlater hjob hsame hid
    | _ => cases hsame
  · intro b hb
    rcases List.mem_cons.1 hb with hb | hb
    · cases hb
      have hjudged : log.filterMap new.judged = [] :=
        List.filterMap_eq_nil_iff.2 fun m hm => EmitBack.judged_eq_none (hunlogged hm)
      have hsent : log.filterMap new.sent = [] :=
        List.filterMap_eq_nil_iff.2 fun m hm => EmitBack.sent_eq_none (hunlogged hm)
      refine ⟨[], ?_, ?_, ?_⟩
      · rw [hplace, hwatch]
        have htree := (World.attachBack_tree w back path back.place).trans
          ((World.tree_setTree w back.place back.place _).trans (if_pos rfl))
        have htrace :=
          (World.attachBack_trace w back path).trans (World.watch_trace w back.place path)
        exact World.sees_of_watch (h.known back.place).1 (h.known back.place).2 htree htrace
      · simpa [hjudged] using fun job hjob => EmitBack.unasked_eq_none (hunborn hjob)
      · simpa [hjudged, hsent, EmitBack.passed] using
          fun job hjob => EmitBack.unsent_eq_none (hunborn hjob)
    · exact hold.even b hb

theorem foreign (h : Tended jobs log w) {c : Change} (hc : c.Foreign) :
    Tended ((c.job? w).toList ++ jobs) log (w.apply c) := by
  have hold := h.tends (w.apply_tends hc) (w.apply_tokens c).1
  cases c with
  | spawn job => exact hold.idle hc
  | attachBack back path => exact h.attach back path
  | attachWorker worker serial => exact hold.idle rfl
  | _ => exact hold

/-- Changes made outside the loops of emitBacks keep all books even, while some jobs are under
way. -/
theorem makes {underway : List Job} (h : Tended (underway ++ w.jobs) log w)
    (hmakes : World.Makes Change.Foreign w w') : Tended (underway ++ w'.jobs) log w' := by
  induction hmakes with
  | nothing => exact h
  | @more w' c _ hc ih =>
    refine (ih.foreign hc).perm ?_
    have hjobs := (World.apply_schedules w' c).jobs
    exact (hjobs.append_left underway).trans (by
      rw [← List.append_assoc]
      exact List.perm_append_comm)

/-- A job that keeps the books of all emitBacks even makes way for the one that follows it. -/
theorem turn {m : Moment} {next : Option Job} (h : Tended (m.job :: jobs) log w)
    (hnext : ∀ job ∈ next, m.job.Leads job ∧ job.Proper ∧ ∀ back, job ≠ .watch back)
    (hbooks : ∀ back : EmitBack, back.Books m next) :
    Tended (next.toList ++ jobs) (log ++ [m]) w := by
  have hmem {job : Job} (hjob : job ∈ next.toList ++ jobs) : job ∈ next ∨ job ∈ jobs := by
    simpa using hjob
  have hloop {back : EmitBack} (hback : .watch back ∈ next.toList ++ jobs) :
      .watch back ∈ jobs := by
    rcases hmem hback with hback | hback
    · exact absurd rfl ((hnext _ hback).2.2 back)
    · exact hback
  refine ⟨h.known, ?_, ?_, ?_, ?_, ?_⟩
  · intro job hjob
    rcases hmem hjob with hjob | hjob
    · exact (hnext job hjob).2.1
    · exact h.proper job (List.mem_cons_of_mem _ hjob)
  · intro job hjob back hback
    rcases hmem hjob with hjob | hjob
    · exact h.owned m.job List.mem_cons_self back ((hnext job hjob).1.back back hback)
    · exact h.owned job (List.mem_cons_of_mem _ hjob) back hback
  · intro m' hm' back hback
    rcases List.mem_append.1 hm' with hm' | hm'
    · exact h.logged m' hm' back hback
    · rw [List.mem_singleton.1 hm'] at hback
      exact h.owned m.job List.mem_cons_self back hback
  · have hwatch : next.bind Job.watch? = none := by
      cases next with
      | none => rfl
      | some job =>
        cases job <;> first | rfl | exact absurd rfl ((hnext _ rfl).2.2 _)
    have hapart := h.apart
    rw [filterMap_cons_eq] at hapart
    rw [filterMap_toList_append, hwatch]
    exact (List.nodup_append.1 hapart).2.1
  · intro back hback
    obtain ⟨taken, hsees, hmessages, hemits⟩ := h.even back (List.mem_cons_of_mem _ (hloop hback))
    obtain ⟨hmessage, hemit⟩ := hbooks back
    refine ⟨taken, hsees, ?_, ?_⟩
    · rw [filterMap_cons_eq, hmessage] at hmessages
      rw [filterMap_concat, filterMap_toList_append, List.map_append]
      simpa only [List.append_assoc] using hmessages
    · rw [filterMap_cons_eq] at hemits
      rw [filterMap_concat, filterMap_concat, filterMap_toList_append, EmitBack.passed_append]
      exact perm_exchange hemits hemit

/-- What the loop of an emitBack does to its watch leaves the books of the others even. -/
theorem beside_loop {back : EmitBack} (h : Tended (.watch back :: jobs) log w) {a : Tree.Action}
    (ha : World.LoopAction back.watch a) :
    Tended jobs log (w.setTree back.place ((w.tree back.place).act a)) := by
  have hapart := List.nodup_cons.1 h.apart
  refine ⟨fun place => (h.known place).loop ha, ?_, ?_, ?_, hapart.2, ?_⟩
  · intro job hjob
    exact h.proper job (List.mem_cons_of_mem _ hjob)
  · intro job hjob b hb
    rw [World.setTree_tokens]
    exact h.owned job (List.mem_cons_of_mem _ hjob) b hb
  · intro m hm b hb
    rw [World.setTree_tokens]
    exact h.logged m hm b hb
  · intro b hb
    obtain ⟨taken, hsees, hbooks⟩ := h.even b (List.mem_cons_of_mem _ hb)
    refine ⟨taken, hsees.beside_loop ha ?_, hbooks⟩
    rintro ⟨hplace, hwatch⟩
    exact hapart.1 (List.mem_filterMap.2 ⟨_, hb, by simp [Job.watch?, hplace, hwatch]⟩)

/-- A step of a loop is on nobody's books. -/
theorem note {back : EmitBack} {m : Moment} (h : Tended jobs log w) (hm : m.job = .watch back)
    (hown : Nat.lt back.own w.tokens) : Tended jobs (log ++ [m]) w := by
  refine ⟨h.known, h.proper, h.owned, ?_, h.apart, ?_⟩
  · intro m' hm' b hb
    rcases List.mem_append.1 hm' with hm' | hm'
    · exact h.logged m' hm' b hb
    · rw [List.mem_singleton.1 hm', hm] at hb
      obtain rfl := Option.some.inj hb
      exact hown
  · intro b hb
    obtain ⟨taken, hsees, hbooks⟩ := h.even b hb
    have hjudged : b.judged m = none := by simp [EmitBack.judged, EmitBack.asked, hm]
    have hsent : b.sent m = none := by simp [EmitBack.sent, hm]
    refine ⟨taken, hsees, ?_⟩
    rwa [filterMap_concat, filterMap_concat, hjudged, hsent, Option.toList_none,
      Option.toList_none, List.append_nil, List.append_nil]

/-- A loop hands the next change to a task of its own. -/
theorem take {back : EmitBack} {v : Json} {t : Tree} (h : Tended (.watch back :: jobs) log w)
    (hpoll : (w.tree back.place).pollOne back.watch = some (v, t)) :
    Tended (.watch back :: .change back v :: jobs) log (w.setTree back.place t) := by
  obtain ⟨taken, hsees, hmessages, hemits⟩ := h.even back List.mem_cons_self
  obtain ⟨rfl, hsees'⟩ := hsees.take hpoll
  have hbeside := h.beside_loop (.inl rfl)
  have hown : Nat.lt back.own w.tokens := h.owned _ List.mem_cons_self back rfl
  refine ⟨hbeside.known, ?_, ?_, hbeside.logged, ?_, ?_⟩
  · intro job hjob
    rcases List.mem_cons.1 hjob with rfl | hjob
    · exact trivial
    · rcases List.mem_cons.1 hjob with rfl | hjob
      · exact trivial
      · exact hbeside.proper job hjob
  · intro job hjob b hb
    rw [World.setTree_tokens]
    rcases List.mem_cons.1 hjob with rfl | hjob
    · exact Option.some.inj hb ▸ hown
    · rcases List.mem_cons.1 hjob with rfl | hjob
      · exact Option.some.inj hb ▸ hown
      · exact h.owned job (List.mem_cons_of_mem _ hjob) b hb
  · exact h.apart
  · intro b hb
    rcases List.mem_cons.1 hb with hb | hb
    · obtain rfl := Job.watch.inj hb
      refine ⟨taken ++ [v], hsees', ?_, ?_⟩
      · have hnew : (b.unasked (.change b v)).toList = [World.changeMessage v] := by
          simp [EmitBack.unasked]
        rw [filterMap_cons_eq, filterMap_cons_eq, hnew, List.map_append]
        refine (hmessages.append_right _).trans ?_
        rw [List.append_assoc]
        exact List.perm_append_comm.append_left _
      · exact hemits
    · have hmem : .watch b ∈ jobs := by simpa using hb
      have hne : b ≠ back := fun heq =>
        (List.nodup_cons.1 h.apart).1 (List.mem_filterMap.2 ⟨_, hmem, by rw [heq]; rfl⟩)
      obtain ⟨taken', hsees', hmessages', hemits'⟩ := hbeside.even b hmem
      refine ⟨taken', hsees', ?_, ?_⟩
      · have hother : b.unasked (.change back v) = none :=
          EmitBack.unasked_eq_none (by simpa [Job.back?] using Ne.symm hne)
        rw [filterMap_cons_eq, filterMap_cons_eq, hother]
        exact hmessages'
      · exact hemits'

end Tended

namespace World

variable {w₀ w : World} {log : List Moment}

/-- A step of a loop: it ends with its session, waits for its watch, or hands on a change. -/
theorem tended_watchNext (id : Nat) {back : EmitBack} (h : Tended (.watch back :: w.jobs) log w) :
    Tended (w.watchNext back).jobs (log ++ [⟨⟨id, .watch back⟩, w⟩]) (w.watchNext back) := by
  have hnoted := h.note (m := ⟨⟨id, .watch back⟩, w⟩) rfl (h.owned _ List.mem_cons_self back rfl)
  unfold watchNext
  split
  · rw [unwatch, setTree_jobs]
    exact hnoted.beside_loop (.inr rfl)
  · split
    · have hpark := onward_jobs w (.parks (.watch back)
        [.watch back.place back.watch, .token back.token, .token back.own] none)
      refine Tended.perm ?_ hpark
      exact hnoted.tends (fun place => .same rfl rfl) (Nat.le_refl _)
    · rename_i v t hpoll
      have hspawn := (spawn_schedules (w.setTree back.place t) (.change back v)).jobs
      rw [setTree_jobs] at hspawn
      have hresume := onward_jobs ((w.setTree back.place t).spawn (.change back v))
        (.resumes (.watch back))
      refine Tended.perm ?_ (hresume.trans ((hspawn.trans (List.perm_append_singleton _ _)).cons _))
      exact (hnoted.take hpoll).tends (fun place => .same rfl rfl) (Nat.le_refl _)

/-- In every world of a run the books of all emitBacks are even. -/
theorem Run.tended (hfresh : w₀.Fresh) (h : Run w₀ log w) : Tended w.jobs log w := by
  induction h with
  | start =>
    have hjobs : w₀.jobs = [] := by simp [jobs, tasks, hfresh.ready, hfresh.parked]
    rw [hjobs]
    refine ⟨fun place => ⟨fun watch hwatch => ?_, fun n p v hmem => ?_⟩, ?_, ?_, ?_,
      List.nodup_nil, ?_⟩
    · rw [hfresh.watches place] at hwatch
      cases hwatch
    · rw [hfresh.trace] at hmem
      cases hmem
    all_goals exact fun _ hmem => absurd hmem List.not_mem_nil
  | @step log w task rest _ hready ih =>
    have hjobs : w.jobs = task.job :: (w.begin task rest).jobs := by
      rw [jobs, begin_tasks hready]
      rfl
    rw [hjobs] at ih
    have hbegun : Tended (task.job :: (w.begin task rest).jobs) log (w.begin task rest) :=
      ih.tends (fun place => .same rfl rfl) (Nat.le_refl _)
    by_cases hloop : ∃ back, task.job = .watch back
    · obtain ⟨back, hback⟩ := hloop
      rw [hback] at hbegun
      have hnext := tended_watchNext task.id hbegun
      rw [← hback] at hnext
      rw [hback]
      exact hnext
    · obtain ⟨mid, e, hmid, heq, hnext, hbooks⟩ := exec_accounts
        (hbegun.proper task.job List.mem_cons_self) fun back hback => hloop ⟨back, hback⟩
      have hturned := hbegun.turn (m := ⟨task, w.begin task rest⟩) hnext hbooks
      rw [← heq]
      refine ((hturned.makes hmid).tends ?_ ?_).perm (onward_jobs mid e)
      · intro place
        cases e <;> exact .same rfl rfl
      · cases e <;> exact Nat.le_refl _
  | command _ ticket hc ih =>
    have hstart : Tended ([] ++ jobs _) _ _ := ih
    exact hstart.makes ((perform_makes _ ticket hc).mono fun c hc => hc.foreign)
  | pass _ _ ih => exact ih.tends (fun place => .same rfl rfl) (Nat.le_refl _)
  | @wake _ w _ ih =>
    have hwoken := wakeDue_woken w
    exact (ih.tends (fun place => .same (hwoken.tree place) hwoken.trace) (Nat.le_refl _)).perm
      (hwoken.tasks.map _)

end World

end Patchbay
