import Patchbay.Proofs.Answers.Cells

/-!
Who speaks of a cell: the tasks that wait for it or are to fill it, the servers that keep it as a
responder, the listeners that put an awaited event there, and the connections where an emit waits
for it. A change adds at most one mention, and a task that waits for a cell is woken when it is
filled.
-/

namespace Patchbay

namespace Mention

/-- The cell it is about. -/
def cell : Mention → CellId
  | .client c | .held c | .called c | .awaited c => c
  | .forward c _ _ | .asked c _ _ _ | .replied c _ _ | .expected c _ _ => c

/-- The emit it is about, by its connection and its number. -/
def emit? : Mention → Option (Nat × Nat)
  | .forward _ n key | .expected _ n key => some (n, key)
  | _ => none

end Mention

/-- The change adds this mention. -/
def Change.Mentions (w : World) (m : Mention) : Change → Prop
  | .spawn job => job.mention? = some m
  | .hold cell => m = .held cell
  | .listen _ _ (.await cell) _ => m = .awaited cell
  | .expect n cell => m = .expected cell n (w.nextKey n)
  | _ => False

/-- The job waits for what comes to the cell, on behalf of the application. -/
def Job.waitsFor (cell : CellId) (job : Job) : Bool :=
  match job.mention? with
  | some (.client c) => c == cell
  | _ => false

theorem Job.mention?_of_waitsFor {job : Job} {cell : CellId} (h : job.waitsFor cell = true) :
    job.mention? = some (.client cell) := by
  unfold waitsFor at h
  split at h
  · rename_i c hc
    rw [hc, beq_iff_eq.1 h]
  · cases h

theorem Job.waitsFor_of_mention? {job : Job} {cell : CellId}
    (h : job.mention? = some (.client cell)) :
    job.waitsFor cell = true := by
  simp [waitsFor, h]

namespace World

variable {w w' : World} {ch : Change} {m : Mention} {n key : Nat} {cell : CellId}

/-- What is said in a world. -/
inductive Mentions (w : World) : Mention → Prop
  | job {job : Job} {m : Mention} (hjob : job ∈ w.jobs) (hm : job.mention? = some m) : Mentions w m
  | held {cell : CellId} (h : some cell ∈ w.held) : Mentions w (.held cell)
  | awaited {cell : CellId} (h : w.Awaits cell) : Mentions w (.awaited cell)
  | expected {cell : CellId} {n key : Nat} (h : (key, cell) ∈ w.waitingOn n) :
      Mentions w (.expected cell n key)

/-! One change -/

theorem Woken.held (h : Woken w w') : w'.held = w.held := by
  rw [h.eq]

theorem mem_held_apply (h : some cell ∈ (w.apply ch).held) :
    some cell ∈ w.held ∨ ch = .hold cell := by
  rw [(apply_woken w ch).held] at h
  by_cases hplants : ch.Plants
  · obtain ⟨_, _, _, _, _, _, heq⟩ := effect_plants w hplants
    rw [heq] at h
    exact .inl h
  · cases ch with
    | hold c =>
      rcases List.mem_append.1 h with h | h
      · exact .inl h
      · exact .inr (congrArg Change.hold (Option.some.inj (List.mem_singleton.1 h)).symm)
    | unhold i => exact .inl ((List.mem_or_eq_of_mem_set h).resolve_right nofun)
    | track s =>
      simp only [effect, apply, track] at h
      split at h <;> exact .inl h
    | _ => first | exact .inl h | exact absurd trivial hplants

theorem awaits_apply (h : (w.apply ch).Awaits cell) :
    w.Awaits cell ∨ ∃ serial event once, ch = .listen serial event (.await cell) once := by
  obtain ⟨n, c, l, hc, hl, haction⟩ := h
  rcases connection?_of_apply hc with ⟨c', hc', rfl⟩ | ⟨-, hnone, -⟩
  · have hold (hl : l ∈ c'.listeners.entries) : w.Awaits cell := ⟨n, c', l, hc', hl, haction⟩
    cases ch with
    | listen serial event action once =>
      simp only [Change.reshape] at hl
      split at hl
      · rcases List.mem_append.1 hl with hl | hl
        · exact .inl (hold hl)
        · obtain rfl := List.mem_singleton.1 hl
          exact .inr ⟨serial, event, once, by rw [← haction]⟩
      · exact .inl (hold hl)
    | attachWorker worker serial =>
      simp only [Change.reshape] at hl
      split at hl
      · rcases List.mem_append.1 hl with hl | hl
        · exact .inl (hold hl)
        · obtain rfl := List.mem_singleton.1 hl
          cases haction
      · exact .inl (hold hl)
    | hush serial out =>
      simp only [Change.reshape] at hl
      split at hl
      · exact .inl (hold (List.mem_filter.1 hl).1)
      · exact .inl (hold hl)
    | spend serial event =>
      simp only [Change.reshape] at hl
      split at hl
      · exact .inl (hold (List.mem_filter.1 hl).1)
      · exact .inl (hold hl)
    | _ =>
      simp only [Change.reshape] at hl
      (try split at hl) <;> exact .inl (hold hl)
  · rw [hnone] at hl
    cases hl

theorem mem_waitingOn_apply (h : (key, cell) ∈ (w.apply ch).waitingOn n) :
    (key, cell) ∈ w.waitingOn n ∨ ch = .expect n cell ∧ key = w.nextKey n := by
  cases hc : (w.apply ch).connection? n with
  | none => simp [waitingOn, hc] at h
  | some c =>
    rw [waitingOn_of_connection? hc] at h
    rcases connection?_of_apply hc with ⟨c', hc', rfl⟩ | ⟨-, -, hnone⟩
    · rw [waitingOn_of_connection? hc', nextKey_of_connection? hc']
      cases ch with
      | expect serial id =>
        simp only [Change.reshape] at h
        split at h
        · rename_i hserial
          rcases List.mem_append.1 h with h | h
          · exact .inl h
          · obtain ⟨rfl, rfl⟩ := Prod.mk.inj (List.mem_singleton.1 h)
            exact .inr ⟨by rw [hserial], rfl⟩
        · exact .inl h
      | settle serial number v =>
        simp only [Change.reshape] at h
        split at h
        · exact .inl (List.mem_filter.1 h).1
        · exact .inl h
      | shut serial =>
        simp only [Change.reshape] at h
        split at h
        · cases h
        · exact .inl h
      | _ =>
        simp only [Change.reshape] at h
        (try split at h) <;> exact .inl h
    · rw [hnone] at h
      cases h

/-- Only a task that is started by itself comes with a mention. -/
theorem mentions_of_job? {job : Job} (h : ch.job? w = some job) (hm : job.mention? = some m) :
    ch.Mentions w m := by
  cases ch with
  | spawn started => exact Option.some.inj h ▸ hm
  | attachBack back path =>
    obtain rfl := Option.some.inj h
    cases hm
  | attachWorker worker serial =>
    obtain rfl := Option.some.inj h
    cases hm
  | _ => cases h

theorem mentions_apply (h : (w.apply ch).Mentions m) : w.Mentions m ∨ ch.Mentions w m := by
  cases h with
  | job hjob hm =>
    rcases List.mem_append.1 ((apply_schedules w ch).jobs.subset hjob) with hold | hnew
    · exact .inl (.job hold hm)
    · exact .inr (mentions_of_job? (Option.mem_toList.1 hnew) hm)
  | held h =>
    rcases mem_held_apply h with hold | rfl
    · exact .inl (.held hold)
    · exact .inr rfl
  | awaited h =>
    rcases awaits_apply h with hold | ⟨serial, event, once, rfl⟩
    · exact .inl (.awaited hold)
    · exact .inr rfl
  | expected h =>
    rcases mem_waitingOn_apply h with hold | ⟨rfl, hkey⟩
    · exact .inl (.expected hold)
    · exact .inr (by rw [hkey]; rfl)

/-! Tasks come and go -/

theorem Mentions.of_jobs (h : w'.Mentions m) (hjobs : ∀ job ∈ w'.jobs, job ∈ w.jobs)
    (hheld : w'.held = w.held) (hconnections : w'.connections = w.connections) : w.Mentions m := by
  cases h with
  | job hjob hm => exact .job (hjobs _ hjob) hm
  | held h => exact .held (hheld ▸ h)
  | awaited h =>
    obtain ⟨n, c, l, hc, hl⟩ := h
    exact .awaited ⟨n, c, l, connection?_congr hconnections n ▸ hc, hl⟩
  | @expected cell n key h =>
    refine .expected ?_
    rwa [waitingOn, connection?_congr hconnections n] at h

theorem Woken.mentions (h : Woken w w') (hm : w'.Mentions m) : w.Mentions m :=
  hm.of_jobs (fun _ hjob => (h.tasks.map _).subset hjob) h.held h.connections

theorem begin_jobs {task : Task} {rest : List Task} (h : w.ready = task :: rest) :
    w.jobs = task.job :: (w.begin task rest).jobs := by
  rw [jobs, begin_tasks h]
  rfl

theorem mentions_begin {task : Task} {rest : List Task} (h : w.ready = task :: rest)
    (hm : (w.begin task rest).Mentions m) : w.Mentions m :=
  hm.of_jobs (fun _ hjob => begin_jobs h ▸ List.mem_cons_of_mem _ hjob) rfl rfl

theorem mentions_running {task : Task} {rest : List Task} (h : w.ready = task :: rest)
    (hm : task.job.mention? = some m) : w.Mentions m :=
  .job (begin_jobs h ▸ List.mem_cons_self) hm

theorem mentions_onward {e : Onward} (h : (w.onward e).Mentions m) :
    w.Mentions m ∨ ∃ job ∈ e.job?, job.mention? = some m := by
  have hheld : (w.onward e).held = w.held := by cases e <;> rfl
  have hconnections : (w.onward e).connections = w.connections := by cases e <;> rfl
  cases h with
  | job hjob hm =>
    rcases List.mem_append.1 ((onward_jobs w e).subset hjob) with hnext | hold
    · exact .inr ⟨_, Option.mem_toList.1 hnext, hm⟩
    · exact .inl (.job hold hm)
  | held h => exact .inl (.held (hheld ▸ h))
  | awaited h =>
    obtain ⟨n, c, l, hc, hl⟩ := h
    exact .inl (.awaited ⟨n, c, l, connection?_congr hconnections n ▸ hc, hl⟩)
  | @expected cell n key h =>
    refine .inl (.expected ?_)
    rwa [waitingOn, connection?_congr hconnections n] at h

/-! Who waits -/

/-- How many tasks wait for the cell on behalf of the application. -/
def waiters (w : World) (cell : CellId) : Nat := w.jobs.countP (·.waitsFor cell)

theorem Woken.waiters (h : Woken w w') (cell : CellId) : w'.waiters cell = w.waiters cell :=
  (h.tasks.map Task.job).countP_eq _

theorem waiters_apply (w : World) {ch : Change} (h : ¬ ch.Mentions w (.client cell)) :
    (w.apply ch).waiters cell = w.waiters cell := by
  have hnew : (ch.job? w).toList.countP (·.waitsFor cell) = 0 := by
    refine List.countP_eq_zero.2 fun job hjob hwaits => h ?_
    exact mentions_of_job? (Option.mem_toList.1 hjob) (Job.mention?_of_waitsFor hwaits)
  rw [waiters, (apply_schedules w ch).jobs.countP_eq, List.countP_append, hnew, Nat.add_zero]
  rfl

theorem waiters_onward (w : World) (e : Onward) (cell : CellId) :
    (w.onward e).waiters cell = e.job?.toList.countP (·.waitsFor cell) + w.waiters cell := by
  rw [waiters, (onward_jobs w e).countP_eq, List.countP_append]
  rfl

theorem waiters_begin {task : Task} {rest : List Task} (h : w.ready = task :: rest)
    (cell : CellId) :
    w.waiters cell =
      (w.begin task rest).waiters cell + if task.job.waitsFor cell = true then 1 else 0 := by
  rw [waiters, begin_jobs h, List.countP_cons]
  rfl

/-- Who waits parked for a cell is woken when the cell is filled; so it is empty. -/
def Roused (w : World) : Prop :=
  ∀ p ∈ w.parked, ∀ cell, p.task.job.mention? = some (.client cell) →
    .cell cell ∈ p.signals ∧ w.cell cell = .empty

theorem cell_fill_of_parked {p : Parked} {id : CellId} {content : Cell}
    (hp : p ∈ (w.fill id content).parked) (hsignal : .cell cell ∈ p.signals) :
    (w.fill id content).cell cell = w.cell cell := by
  cases hcell : w.cell id with
  | empty =>
    simp only [fill, hcell] at hp
    have hne : cell ≠ id := by
      rintro rfl
      have hquiet := (List.mem_filter.1 hp).2
      simp [hsignal] at hquiet
    simp only [World.cell, (fill_woken w id content).cells]
    exact getD_filled_of_ne hne
  | _ => simp only [fill, hcell]

theorem cell_foldl_of_parked {p : Parked} {entries : List (Nat × CellId)}
    (hp : p ∈ (entries.foldl (fun w (_, cell) => w.abandon cell) w).parked)
    (hsignal : .cell cell ∈ p.signals) :
    (entries.foldl (fun w (_, cell) => w.abandon cell) w).cell cell = w.cell cell := by
  induction entries generalizing w with
  | nil => rfl
  | cons entry rest ih =>
    have hmid : p ∈ (w.abandon entry.2).parked :=
      (foldl_abandon_woken (w.abandon entry.2) rest).parked_subset hp
    exact (ih hp).trans (cell_fill_of_parked hmid hsignal)

/-- Who stays parked waits for a cell that stays empty. -/
theorem cell_apply_of_parked {p : Parked} (hp : p ∈ (w.apply ch).parked)
    (hsignal : .cell cell ∈ p.signals) (hempty : w.cell cell = .empty) :
    (w.apply ch).cell cell = .empty := by
  have hlt := lt_of_getD_empty hempty
  have hkept (h : (w.apply ch).cells = w.cells) : (w.apply ch).cell cell = .empty :=
    (congrArg (·.getD cell .abandoned) h).trans hempty
  cases ch with
  | answer id v => exact (cell_fill_of_parked hp hsignal).trans hempty
  | abandon id => exact (cell_fill_of_parked hp hsignal).trans hempty
  | settle serial number v =>
    simp only [apply] at hp ⊢
    split
    · exact hempty
    · rename_i id hid
      rw [hid] at hp
      exact (cell_fill_of_parked hp hsignal).trans hempty
  | shut serial => exact (cell_foldl_of_parked hp hsignal).trans hempty
  | newCell =>
    simp only [World.cell, apply, newCell]
    rw [List.getD_eq_getElem?_getD, List.getElem?_append_left hlt, ← List.getD_eq_getElem?_getD]
    exact hempty
  | _ => exact hkept (apply_cells w (by simp [Change.Fills]))

theorem Roused.apply (h : w.Roused) (ch : Change) : (w.apply ch).Roused := by
  intro p hp cell hclient
  obtain ⟨hsignal, hempty⟩ := h p ((apply_schedules w ch).parked hp) cell hclient
  exact ⟨hsignal, cell_apply_of_parked hp hsignal hempty⟩

end World

end Patchbay
