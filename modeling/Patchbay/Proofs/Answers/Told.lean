import Patchbay.Proofs.Answers.Traced

/-!
What the application is told of an emit. A task that waits for a cell is told once: it goes on when
the cell is filled or its time is over, and waits for it no more.
-/

namespace Patchbay

/-- How an emit ends for the application. -/
inductive Settlement where
  | value (v : Json)
  | disconnected
  | timeout

/-- The result of an emit that ends so. -/
def Settlement.result (run : EmitRun) (stamp : String) : Settlement → Except EmitError Json
  | .value v => Ack.settle run.event run.payload v stamp
  | .disconnected => .error (.disconnected run.event)
  | .timeout => .error (.timeout run.event (run.bound.getD 0))

/-- When a task that waits gives up. -/
def Job.due? : Job → Option Nat
  | .await _ due _ _ => due
  | _ => none

namespace World

/-- What a task that waits for the cell until then is told now, if anything. -/
def settlement? (w : World) (cell : CellId) (due : Option Nat) : Option Settlement :=
  match w.cell cell with
  | .answered v => some (.value v)
  | .abandoned => some .disconnected
  | .empty => if due.any (· ≤ w.now) then some .timeout else none

/-- A task that waited goes on with what it is told: the emit is settled, or the request reports. -/
def tell (w : World) (s : Settlement) : Job → World
  | .await _ _ run after => w.resume (.settle (s.result run w.stamp) run after)
  | .receive _ (.reply ticket event) => w.report ticket (match s with
    | .value v => .value v
    | _ => .failed (.emit (.disconnected event)))
  | .receive _ (.raw ticket) => w.report ticket (match s with
    | .value v => .value v
    | _ => .dropped)
  | _ => w

end World

/-- What the application is told of the cell when the job is done. -/
def Moment.told? (m : Moment) (cell : CellId) : Option Settlement :=
  if m.job.waitsFor cell then m.world.settlement? cell m.job.due? else none

namespace World

variable {a : Ask} {b u w : World} {log : List Moment} {cell : CellId} {job : Job}

/-- A task that waits for a cell is told, or it parks until the cell is filled. -/
theorem exec_of_waitsFor (w : World) (h : job.waitsFor cell = true) :
    (∃ s, w.settlement? cell job.due? = some s ∧ w.exec job = w.tell s job) ∨
      w.settlement? cell job.due? = none ∧ w.cell cell = .empty ∧
        w.exec job = w.park job [.cell cell] job.due? := by
  cases job with
  | await id due run after =>
    obtain rfl : id = cell := Mention.client.inj (Option.some.inj (Job.mention?_of_waitsFor h))
    cases w.awaitAnswer_atCell id due run after with
    | answered v hcell heq => exact .inl ⟨.value v, by simp [settlement?, hcell], heq⟩
    | abandoned hcell heq => exact .inl ⟨.disconnected, by simp [settlement?, hcell], heq⟩
    | late hcell hdue hlate heq =>
      exact .inl ⟨.timeout, by simp [settlement?, hcell, Job.due?, hdue, hlate], heq⟩
    | waits hcell hdue heq =>
      have hearly : due.any (· ≤ w.now) = false := by
        cases due with
        | none => rfl
        | some t => simpa using hdue t rfl
      exact .inr ⟨by simp [settlement?, hcell, Job.due?, hearly], hcell, heq⟩
  | receive id after =>
    cases after with
    | forward => cases h
    | reply ticket event | raw ticket =>
      obtain rfl : id = cell := Mention.client.inj (Option.some.inj (Job.mention?_of_waitsFor h))
      simp only [exec, receive, settlement?, Job.due?, tell]
      cases w.cell id with
      | answered v => exact .inl ⟨_, rfl, rfl⟩
      | abandoned => exact .inl ⟨_, rfl, rfl⟩
      | empty => exact .inr ⟨rfl, rfl, rfl⟩
  | serve n event payload ack => cases ack <;> cases h
  | serveEnd n reply ack => cases ack <;> cases h
  | hook hook argument after | hookEnd hook argument after | hookDone argument after =>
    cases after with
    | served ack => cases ack <;> cases h
    | _ => cases h
  | _ => cases h

/-- What is told of a cell is what is in it; nothing is, and the time is over, at a timeout. -/
theorem settlement?_cases {due : Option Nat} {s : Settlement}
    (h : w.settlement? cell due = some s) :
    (∃ v, s = .value v ∧ w.cell cell = .answered v) ∨ s = .disconnected ∧ w.cell cell = .abandoned ∨
      s = .timeout ∧ w.cell cell = .empty ∧ ∃ t ∈ due, t ≤ w.now := by
  unfold settlement? at h
  cases hcell : w.cell cell with
  | answered v =>
    rw [hcell] at h
    exact .inl ⟨v, (Option.some.inj h).symm, rfl⟩
  | abandoned =>
    rw [hcell] at h
    exact .inr (.inl ⟨(Option.some.inj h).symm, rfl⟩)
  | empty =>
    rw [hcell] at h
    cases due with
    | none => cases h
    | some t =>
      by_cases hdue : t ≤ w.now
      · simp only [Option.any_some, hdue, decide_true, ↓reduceIte, Option.some.injEq] at h
        exact .inr (.inr ⟨h.symm, rfl, t, rfl, hdue⟩)
      · simp [hdue] at h

/-- Who is told waits for it no more. -/
theorem tell_cases (w : World) (s : Settlement) (job : Job) :
    (∃ next, w.tell s job = w.resume next ∧ next.mention? = none) ∨
      (∃ ticket outcome, w.tell s job = w.report ticket outcome) ∨ w.tell s job = w := by
  cases job with
  | await id due run after => exact .inl ⟨_, rfl, rfl⟩
  | receive id after =>
    cases after with
    | forward => exact .inr (.inr rfl)
    | reply | raw => exact .inr (.inl ⟨_, _, rfl⟩)
  | _ => exact .inr (.inr rfl)

theorem tell_waiters (w : World) (s : Settlement) (job : Job) (cell : CellId) :
    (w.tell s job).waiters cell = w.waiters cell := by
  rcases w.tell_cases s job with ⟨next, heq, hnone⟩ | ⟨ticket, outcome, heq⟩ | heq
  · rw [heq]
    refine (waiters_onward w (.resumes next) cell).trans ?_
    simp [Onward.job?, Job.waitsFor, hnone]
  · rw [heq]
    rfl
  · rw [heq]

theorem told?_eq_some {m : Moment} {s : Settlement} (h : m.told? cell = some s) :
    m.job.waitsFor cell = true ∧ m.world.settlement? cell m.job.due? = some s := by
  unfold Moment.told? at h
  split at h
  · rename_i hwaits
    exact ⟨hwaits, h⟩
  · cases h

/-- A task that is told does what it is told. -/
theorem after_of_told? {m : Moment} {s : Settlement} (h : m.told? cell = some s) :
    m.after = m.world.tell s m.job := by
  obtain ⟨hwaits, hsettled⟩ := told?_eq_some h
  rcases exec_of_waitsFor m.world hwaits with ⟨s', hs', heq⟩ | ⟨hnone, -, -⟩
  · obtain rfl := Option.some.inj (hs'.symm.trans hsettled)
    exact heq
  · exact nomatch hnone.symm.trans hsettled

/-- What is told of a cell in a run is what is in it at the end, or it is a timeout. -/
theorem Run.of_told {m : Moment} {s : Settlement} (h : Run b log u) (hlt : cell < b.cells.length)
    (hm : m ∈ log) (htold : m.told? cell = some s) :
    (∃ v, s = .value v ∧ u.cell cell = .answered v) ∨ s = .disconnected ∧ u.cell cell = .abandoned ∨
      s = .timeout ∧ m.world.cell cell = .empty ∧ ∃ t ∈ m.job.due?, t ≤ m.world.now := by
  rcases settlement?_cases (told?_eq_some htold).2 with ⟨v, hs, hcell⟩ | ⟨hs, hcell⟩ | htimeout
  · exact .inl ⟨v, hs, (h.cell_of_mem hm hlt (by rw [hcell]; nofun)).trans hcell⟩
  · exact .inr (.inl ⟨hs, (h.cell_of_mem hm hlt (by rw [hcell]; nofun)).trans hcell⟩)
  · exact .inr (.inr htimeout)

/-! At most once -/

theorem Follows.waiters_exec {responded : Json → Prop} {task : Task} {rest : List Task}
    (h : Follows a log responded w) (hready : w.ready = task :: rest) :
    ((w.begin task rest).exec task.job).waiters a.cell +
      (Moment.told? ⟨task, w.begin task rest⟩ a.cell).toList.length = w.waiters a.cell := by
  rw [waiters_begin hready]
  cases hwaits : task.job.waitsFor a.cell with
  | true =>
    rcases exec_of_waitsFor (w.begin task rest) hwaits with ⟨s, hsettled, heq⟩ | ⟨hnone, -, heq⟩
    · simp [Moment.told?, Moment.job, hwaits, hsettled, heq, tell_waiters]
    · have hparked := waiters_onward (w.begin task rest)
        (.parks task.job [.cell a.cell] task.job.due?) a.cell
      simp only [onward, Onward.job?, Option.toList_some, List.countP_cons, List.countP_nil, hwaits]
        at hparked
      simp only [Moment.told?, Moment.job, hwaits, hnone, heq, hparked, ↓reduceIte,
        Option.toList_none, List.length_nil]
      omega
  | false =>
    have hdone : (⟨task, w.begin task rest⟩ : Moment) ∈ log ++ [⟨task, w.begin task rest⟩] :=
      List.mem_append_right _ List.mem_cons_self
    have hcovers : Covers (permit a (log ++ [⟨task, w.begin task rest⟩]) fun _ => True) w
        ((w.begin task rest).exec task.job) :=
      h.covers (List.subset_append_left _ _) fun _ _ _ _ => trivial
    simp only [Moment.told?, Moment.job, hwaits, Bool.false_eq_true, ↓reduceIte, Option.toList_none,
      List.length_nil, Nat.add_zero]
    rcases exec_within hready hcovers
      (fun _ _ _ _ _ hjob hreply => h.served hready hdone hjob hreply)
      (fun _ _ _ _ _ _ _ _ => trivial) with
      ⟨a', hbegins, hasks⟩ | ⟨mid, e, hmid, hnext, heq⟩
    · refine hasks.waiters fun heq => ?_
      exact Nat.lt_irrefl _ (heq ▸ hbegins.cell ▸ h.cell_lt)
    · have hsame : mid.waiters a.cell = (w.begin task rest).waiters a.cell :=
        hmid.waiters fun x c hc hsaid => (hc.mentions hsaid).2 rfl
      have hnone : e.job?.toList.countP (·.waitsFor a.cell) = 0 := by
        refine List.countP_eq_zero.2 fun next hin hwaits' => ?_
        have hmention := Job.mention?_of_waitsFor hwaits'
        rcases hnext next (Option.mem_toList.1 hin) _ hmention with hrunning | hnew
        · cases hwaits.symm.trans (Job.waitsFor_of_mention? hrunning)
        · exact hnew.2 rfl
      rw [← heq, waiters_onward, hnone, hsame, Nat.zero_add]

theorem Follows.waiters_perform {responded : Json → Prop} {c : Command}
    (h : Follows a log responded w) (ticket : Nat) (hc : ∀ ms, c ≠ .wait ms) :
    (w.perform ticket c).1.waiters a.cell = w.waiters a.cell := by
  have hcovers : Covers (permit a log fun _ => True) w (w.perform ticket c).1 :=
    h.covers (List.Subset.refl log) fun _ _ _ _ => trivial
  have hlate (i : Nat) (cell : CellId) (v : Json) (_ : c = .answer i v)
      (hheld : w.held[i]? = some (some cell)) : (permit a log fun _ => True).puts cell v :=
    ⟨(h.said (.held cell) (.held (List.mem_of_getElem? hheld))).1, fun _ => trivial⟩
  rcases perform_within w ticket hc hcovers hlate with ⟨a', hbegins, hasks⟩ | hmakes
  · exact hasks.waiters fun heq => Nat.lt_irrefl _ (heq ▸ hbegins.cell ▸ h.cell_lt)
  · exact hmakes.waiters fun x c hc hsaid => (hc.mentions hsaid).2 rfl

/-- Who waits for an emit waits on, or was told of it once. -/
theorem Run.told_once (h : Run b log u) (h₀ : Follows a [] (a.Responded b [] b) b) :
    u.waiters a.cell + (log.filterMap (·.told? a.cell)).length = b.waiters a.cell := by
  induction h with
  | start => rfl
  | @step log w task rest hrun hready ih =>
    have hstep := (hrun.follows h₀).waiters_exec hready
    rw [filterMap_concat, List.length_append]
    omega
  | command hrun ticket hc ih =>
    rw [(hrun.follows h₀).waiters_perform ticket hc]
    exact ih
  | pass _ _ ih => exact ih
  | wake _ ih =>
    rw [(wakeDue_woken _).waiters]
    exact ih

end World

end Patchbay
