import Patchbay.Proofs.Sessions.Tidy

/-!
Runs in which the application leaves the listeners of the engine alone. Whatever connects, closes,
fails, is sent or torn down in such a run, what a session has attached stays attached until its
connection is closed or it ends.
-/

namespace Patchbay

namespace World

variable {w₀ w w' : World} {muted : Bool} {past : Past} {front : List Holder}
  {log log₁ log₂ : List Moment} {m : Moment}

/-- A move that takes listeners off. -/
def Move.mutes : Move → Bool
  | .command _ c => c.mutes
  | _ => false

/-- A run without a command that takes listeners off. -/
inductive Undisturbed (w₀ : World) : List Moment → World → Prop
  | start : Undisturbed w₀ [] w₀
  | step {log : List Moment} {w : World} {task : Task} {rest : List Task}
      (h : Undisturbed w₀ log w) (hready : w.ready = task :: rest) :
      Undisturbed w₀ (log ++ [⟨task, w.begin task rest⟩]) ((w.begin task rest).exec task.job)
  | command {log : List Moment} {w : World} (h : Undisturbed w₀ log w) (ticket : Nat) {c : Command}
      (hc : ∀ ms, c ≠ .wait ms) (hmutes : c.mutes = false) :
      Undisturbed w₀ log (w.perform ticket c).1
  | pass {log : List Moment} {w : World} (h : Undisturbed w₀ log w) {t : Nat} (ht : w.now ≤ t) :
      Undisturbed w₀ log { w with now := t }
  | wake {log : List Moment} {w : World} (h : Undisturbed w₀ log w) : Undisturbed w₀ log w.wakeDue

namespace Undisturbed

theorem run (h : Undisturbed w₀ log w) : Run w₀ log w := by
  induction h with
  | start => exact .start
  | step _ hready ih => exact ih.step hready
  | command _ ticket hc _ ih => exact ih.command ticket hc
  | pass _ ht ih => exact ih.pass ht
  | wake _ ih => exact ih.wake

theorem steps (h : Undisturbed w₀ log w) (n : Nat) :
    Undisturbed w₀ (log ++ (w.steps n).1) (w.steps n).2 := by
  induction n generalizing log w with
  | zero => simpa [World.steps] using h
  | succ n ih =>
    unfold World.steps
    split
    · simpa using h
    · rename_i task rest hready
      have hrest := ih (h.step hready)
      rw [List.append_assoc] at hrest
      exact hrest

theorem play (h : Undisturbed w₀ log w) {moves : List Move}
    (hmoves : moves.all (fun move => !move.waits && !move.mutes) = true) :
    Undisturbed w₀ (log ++ (w.play moves).1) (w.play moves).2 := by
  induction moves generalizing log w with
  | nil => simpa [World.play] using h
  | cons move rest ih =>
    obtain ⟨hmove, hrest⟩ := Bool.and_eq_true_iff.1 hmoves
    obtain ⟨hwaits, hmutes⟩ := Bool.and_eq_true_iff.1 hmove
    cases move with
    | command ticket c =>
      have hc : ∀ ms, c ≠ .wait ms := by
        rintro ms rfl
        cases hwaits
      exact ih (h.command ticket hc (Bool.not_eq_true' _ ▸ hmutes)) hrest
    | steps n =>
      have hplayed := ih (h.steps n) hrest
      rw [List.append_assoc] at hplayed
      exact hplayed
    | pass ms => exact ih (h.pass (Nat.le_add_right _ _)).wake hrest

theorem of_play (w : World) {moves : List Move}
    (hmoves : moves.all (fun move => !move.waits && !move.mutes) = true) :
    Undisturbed w (w.play moves).1 (w.play moves).2 := by
  simpa using start.play hmoves

/-- A job that was done splits the run into what came before it and what came after. -/
theorem split (h : Undisturbed w₀ log w) (hm : m ∈ log) :
    ∃ log₁ log₂ v rest, Undisturbed w₀ log₁ v ∧ v.ready = m.task :: rest ∧
      m.world = v.begin m.task rest ∧ Undisturbed m.after log₂ w := by
  induction h with
  | start => cases hm
  | @step log w task rest h hready ih =>
    rcases List.mem_append.1 hm with hm | hm
    · obtain ⟨log₁, log₂, v, rest', hbefore, hbegin, hworld, hafter⟩ := ih hm
      exact ⟨log₁, _, v, rest', hbefore, hbegin, hworld, hafter.step hready⟩
    · obtain rfl := List.mem_singleton.1 hm
      exact ⟨log, [], w, rest, h, hready, rfl, .start⟩
  | command _ ticket hc hmutes ih =>
    obtain ⟨log₁, log₂, v, rest', hbefore, hbegin, hworld, hafter⟩ := ih hm
    exact ⟨log₁, _, v, rest', hbefore, hbegin, hworld, hafter.command ticket hc hmutes⟩
  | pass _ ht ih =>
    obtain ⟨log₁, log₂, v, rest', hbefore, hbegin, hworld, hafter⟩ := ih hm
    exact ⟨log₁, _, v, rest', hbefore, hbegin, hworld, hafter.pass ht⟩
  | wake _ ih =>
    obtain ⟨log₁, log₂, v, rest', hbefore, hbegin, hworld, hafter⟩ := ih hm
    exact ⟨log₁, _, v, rest', hbefore, hbegin, hworld, hafter.wake⟩

end Undisturbed

/-- A job starts a connect request, ends one that has asked for the peer's API, or goes about its
own work. -/
theorem exec_cases (w : World) (job : Job) :
    (∃ ticket name owner opts, job = .connect ticket name owner opts) ∨
      (∃ result c, job = .emitDone result (.discovery c)) ∨
      (∀ ticket name owner opts, job ≠ .connect ticket name owner opts) ∧
      (∀ result c, job ≠ .emitDone result (.discovery c)) ∧ ∃ mid e, Makes Change.Works w mid ∧
        (∀ next ∈ e.job?, ∀ c, next.connecting? = some c → job.connecting? = some c) ∧
        mid.onward e = w.exec job := by
  by_cases hstart : ∃ ticket name owner opts, job = .connect ticket name owner opts
  · exact .inl hstart
  · by_cases hdone : ∃ result c, job = .emitDone result (.discovery c)
    · exact .inr (.inl hdone)
    · obtain ⟨mid, e, hmid, hleads, heq⟩ := exec_does w job
      have hidle : ∀ ticket name owner opts, job ≠ .connect ticket name owner opts :=
        fun ticket name owner opts heq => hstart ⟨ticket, name, owner, opts, heq⟩
      have hgoing : ∀ result c, job ≠ .emitDone result (.discovery c) :=
        fun result c heq => hdone ⟨result, c, heq⟩
      refine .inr (.inr ⟨hidle, hgoing, mid, e, hmid.mono fun ch hch => ?_, ?_, heq⟩)
      · exact hch.works hidle hgoing
      · exact fun next hnext => (hleads next hnext).connecting hidle

namespace Orderly

/-- Of one holder in front or none. -/
theorem drop {o : Option Connecting} (h : Orderly muted past (o.toList.map Connecting.holder) w) :
    Orderly muted past [] w := by
  cases o with
  | none => exact h
  | some c => exact h.tail

/-- A request that waits for the peer's API is under way while its task runs. -/
theorem begin {task : Task} {rest : List Task} (h : Orderly muted past [] w)
    (hready : w.ready = task :: rest) :
    Orderly muted past (task.job.connecting?.toList.map Connecting.holder) (w.begin task rest) := by
  refine h.regroup rfl rfl rfl ?_ h.roster
  have hjobs : w.jobs = task.job :: (w.begin task rest).jobs := by
    rw [jobs, begin_tasks hready]
    rfl
  have hsame : (w.begin task rest).sessions = w.sessions := rfl
  simp only [holding, waiting, hjobs, hsame, List.nil_append, List.filterMap_cons]
  cases task.job.connecting? <;> exact .refl _

/-- A request goes on with its job, and what it holds is not named in front any more. -/
theorem onward {o : Option Connecting} (h : Orderly muted past (o.toList.map Connecting.holder) w)
    (e : Onward) (he : ∀ job ∈ e.job?, ∀ c, job.connecting? = some c → o = some c) :
    Orderly muted past [] (w.onward e) := by
  have hsame : (w.onward e).connections = w.connections ∧ (w.onward e).tokens = w.tokens ∧
      (w.onward e).cancelled = w.cancelled ∧ (w.onward e).sessions = w.sessions ∧
        (w.onward e).owned = w.owned := by
    cases e <;> exact ⟨rfl, rfl, rfl, rfl, rfl⟩
  obtain ⟨hconnections, htokens, hcancelled, hsessions, howned⟩ := hsame
  have hholding : (w.onward e).holding.Perm
      ((e.job?.toList.filterMap Job.connecting?).map Connecting.holder ++ w.holding) := by
    unfold holding
    rw [hsessions, ← List.append_assoc, ← List.map_append]
    exact ((onward_waiting w e).map _).append_right _
  have hroster : ((w.onward e).owned.map (·.1)).Nodup := howned ▸ h.roster
  cases hnext : e.job?.bind Job.connecting? with
  | none =>
    have hnone : e.job?.toList.filterMap Job.connecting? = [] := by
      cases hjob : e.job? with
      | none => rfl
      | some job => simpa [hjob] using hnext
    rw [hnone] at hholding
    exact h.drop.regroup hconnections htokens hcancelled hholding hroster
  | some c =>
    obtain ⟨job, hjob, hc⟩ := Option.bind_eq_some_iff.1 hnext
    obtain rfl := he job hjob c hc
    have hsome : e.job?.toList.filterMap Job.connecting? = [c] := by simp [hjob, hc]
    rw [hsome] at hholding
    exact h.regroup hconnections htokens hcancelled hholding hroster

theorem exec {job : Job} (h : Orderly muted past (job.connecting?.toList.map Connecting.holder) w) :
    Orderly muted past [] (w.exec job) := by
  rcases exec_cases w job with
    ⟨ticket, name, owner, opts, rfl⟩ | ⟨result, c, rfl⟩ | ⟨-, -, mid, e, hmid, hleads, heq⟩
  · exact h.startConnect ticket name owner opts
  · have hc : Orderly muted past [c.holder] w := h
    cases result with
    | error e => exact hc.failConnect _
    | ok outcome => exact hc.discovered _
  · rw [← heq]
    exact (h.makes hmid fun _ hc => hc.adds).onward e hleads

/-- Once listeners may have gone anyway, it does not matter which the application takes off. -/
theorem hushes (h : Orderly true past [] w) (hmakes : Makes Change.Hushes w w') :
    Orderly true past [] w' := by
  have hheld : Held (w.Lost true) w.holding w' := by
    refine hmakes.keeps (I := Held (w.Lost true) w.holding) ?_ h.held
    intro w' ch hch hw
    cases ch with
    | hush serial out => exact hw.hush fun _ _ hstays => absurd rfl hstays
    | cancel t => exact hch.elim
    | _ => exact hw.spares trivial
  exact settle h.toHeirs (hmakes.mono fun _ hc => hc.still) (hheld.renew hmakes h.held.opened)

theorem perform (h : Orderly muted past [] w) (ticket : Nat) {c : Command}
    (hc : ∀ ms, c ≠ .wait ms) (hmutes : c.mutes = true → muted = true) :
    Orderly muted past [] (w.perform ticket c).1 := by
  rcases perform_cases w ticket hc with
    ⟨owner, rfl⟩ | rfl | ⟨-, serial, hshuts⟩ | ⟨hmute, hhushes⟩ | hasks
  · exact h.teardown owner
  · exact h.shutdown
  · exact h.makes hshuts fun _ hc => hc.works.adds
  · obtain rfl := hmutes hmute
    exact h.hushes hhushes
  · exact h.makes hasks fun _ hc => hc.works.adds

/-- The moment that tasks are woken changes nothing that is held. -/
theorem wake (h : Orderly muted past [] w) : Orderly muted past [] w.wakeDue := by
  have hwoken := wakeDue_woken w
  refine h.regroup rfl rfl rfl ?_ h.roster
  exact (((hwoken.tasks.map _).filterMap _).map _).append_right _

end Orderly

theorem Undisturbed.tidy (h : Undisturbed w₀ log w) (h₀ : Tidy past [] w₀) : Tidy past [] w := by
  induction h with
  | start => exact h₀
  | step _ hready ih => exact (ih.begin hready).exec
  | command _ ticket hc hmutes ih =>
    refine ih.perform ticket hc fun hmute => ?_
    rw [hmutes] at hmute
    cases hmute
  | pass _ _ ih => exact ih.regroup rfl rfl rfl (.refl _) ih.roster
  | wake _ ih => exact ih.wake

/-- In any run nothing is held twice. -/
theorem Run.orderly (h : Run w₀ log w) (h₀ : Orderly true past [] w₀) : Orderly true past [] w := by
  induction h with
  | start => exact h₀
  | step _ hready ih => exact (ih.begin hready).exec
  | command _ ticket hc ih => exact ih.perform ticket hc fun _ => rfl
  | pass _ _ ih => exact ih.regroup rfl rfl rfl (.refl _) ih.roster
  | wake _ ih => exact ih.wake

end World

end Patchbay
