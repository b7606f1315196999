import Patchbay.Proofs.Answers.Late
import Patchbay.Proofs.Answers.Waits

/-!
Acknowledgments. An emit that wants an answer is settled at most once, with what the server that was
asked for it has responded, by its timeout, or as disconnected when its connection closes; and what
comes to it late touches no other emit.
-/

namespace Patchbay

namespace World

variable {a : Ask} {b u w w' : World} {log : List Moment}

/-! Going out -/

/-- Anything may be done. -/
def freely : Permit where
  mentions _ := True
  puts _ _ := True
  settles _ _ _ := True

theorem freely_covers (w w' : World) : Covers freely w w' where
  fresh _ _ _ := ⟨⟨trivial, trivial, trivial⟩, fun _ => trivial⟩
  awaited _ _ _ := trivial
  called _ _ _ := trivial
  held _ _ _ _ _ := trivial
  replied _ _ _ _ _ _ := trivial

/-- Without asking, no emit is traced that wants an answer. -/
theorem Makes.unasked {g : Permit} (h : Makes (Change.Within g) w w') :
    ∃ more, w'.trace = w.trace ++ more ∧
      ∀ n event payload, .emitted n event payload true ∉ more := by
  induction h with
  | nothing => exact ⟨[], (List.append_nil _).symm, by simp⟩
  | @more x ch _ hch ih =>
    obtain ⟨more, htrace, hmore⟩ := ih
    obtain ⟨new, hnew, hevents⟩ := apply_trace x ch
    refine ⟨more ++ new, by rw [hnew, htrace, List.append_assoc], ?_⟩
    intro n event payload hmem
    rcases List.mem_append.1 hmem with hold | hlast
    · exact hmore n event payload hold
    · rcases hevents _ hlast with rfl | ⟨place, root, heq⟩ | ⟨place, id, path, first, heq⟩
      · cases hch
      · cases heq
      · cases heq

/-- An emit that wants an answer and is traced in a turn goes out in it, with a cell of its own. -/
theorem Turn.asks {serial : Nat} {event : String} {payload : Json} {more : List Event}
    (h : w.Turn b) (hbounded : w.Bounded) (htrace : b.trace = w.trace ++ more)
    (hemitted : .emitted serial event payload true ∈ more) :
    ∃ a v, (a.serial = serial ∧ a.event = event ∧ a.payload = payload) ∧ Begins a v ∧ Asks a v b ∧
      v.Bounded ∧ v = { w with ready := v.ready, running := v.running } := by
  have hunasked {new : List Event} (hnew : b.trace = w.trace ++ new)
      (hnone : ∀ n event payload, .emitted n event payload true ∉ new) : False := by
    rw [htrace] at hnew
    exact hnone serial event payload (List.append_cancel_left hnew ▸ hemitted)
  have hasked {a : Ask} {v : World} (hasks : Asks a v b) (hv : v.trace = w.trace) :
      a.serial = serial ∧ a.event = event ∧ a.payload = payload := by
    have hnew := hasks.trace
    rw [hv, htrace] at hnew
    rw [List.append_cancel_left hnew, List.mem_singleton] at hemitted
    obtain ⟨rfl, rfl, rfl, -⟩ := Event.emitted.inj hemitted
    exact ⟨rfl, rfl, rfl⟩
  cases h with
  | @job task rest hready =>
    rcases exec_within hready (freely_covers _ _) (fun _ _ _ _ _ _ _ => trivial)
      (fun _ _ _ _ _ _ => trivial) with ⟨a, hbegins, hasks⟩ | ⟨mid, e, hmid, -, heq⟩
    · exact ⟨a, _, hasked hasks rfl, hbegins, hasks, hbounded.begin hready, rfl⟩
    · obtain ⟨new, hnew, hnone⟩ := hmid.unasked
      refine (hunasked ?_ hnone).elim
      rw [← heq]
      refine Eq.trans ?_ hnew
      cases e <;> rfl
  | command ticket hc =>
    rcases perform_within w ticket hc (freely_covers _ _) (fun _ _ _ _ _ => trivial) with
      ⟨a, hbegins, hasks⟩ | hmakes
    · exact ⟨a, w, hasked hasks rfl, hbegins, hasks, hbounded, rfl⟩
    · obtain ⟨new, hnew, hnone⟩ := hmakes.unasked
      exact (hunasked hnew hnone).elim
  | pass ht => exact (hunasked (List.append_nil _).symm (by simp)).elim
  | wake => exact (hunasked (List.append_nil _).symm (by simp)).elim

/-! Where nothing was done yet -/

namespace Fresh

variable (h : w.Fresh)
include h

theorem connection?_eq_none (n : Nat) : w.connection? n = none := by
  simp [connection?, h.connections]

theorem bounded (hheld : w.held = []) : w.Bounded := by
  have hsilent (m : Mention) (hm : w.Mentions m) : False := by
    cases hm with
    | job hjob => simp [jobs, tasks, h.ready, h.parked] at hjob
    | held hcell => simp [hheld] at hcell
    | awaited hcell =>
      obtain ⟨n, c, l, hc, -⟩ := hcell
      cases (h.connection?_eq_none n).symm.trans hc
    | @expected cell n key hcell => simp [waitingOn, h.connection?_eq_none n] at hcell
  exact ⟨fun m hm => (hsilent m hm).elim, fun m _ _ hm => (hsilent m hm).elim⟩

theorem keyed : w.Keyed := fun n _ hc => nomatch (h.connection?_eq_none n).symm.trans hc

theorem roused : w.Roused := by
  intro p hp
  rw [h.parked] at hp
  cases hp

end Fresh

/-! Correlation -/

/-- An emit that went out in a turn from `w` to `b`: it has cells and a number that nothing had
before, and one task waits for its answer. -/
structure Asked (a : Ask) (w b : World) : Prop where
  live : w.isConnected a.serial = true
  trace : b.trace = w.trace ++ [.emitted a.serial a.event a.payload true]
  cell : w.cells.length ≤ a.cell ∧ a.cell < b.cells.length
  responder : ∀ r, a.responder = some r → w.cells.length ≤ r ∧ r < b.cells.length ∧ r ≠ a.cell
  served : a.responder ≠ none → w.reply? a.serial a.event a.payload ≠ none
  key : a.key = w.nextKey a.serial ∧ a.key < b.nextKey a.serial
  pending : b.Pending a.serial a.key a.cell
  empty : b.cell a.cell = .empty
  waiter : b.waiters a.cell = 1

/-- How an emit that went out by `b` stands at `u`, with the log from there. -/
structure Correlated (a : Ask) (w b : World) (log : List Moment) (u : World) : Prop where
  /-- What came to the emit stays. -/
  settled : u.cell a.cell ≠ .empty → ∀ more x, Run u more x → x.cell a.cell = u.cell a.cell
  /-- A task waits for it on behalf of the application, or was told of it, once. -/
  told_once : u.waiters a.cell + (log.filterMap (·.told? a.cell)).length = 1
  told : ∀ m ∈ log, ∀ s, m.told? a.cell = some s → m.after = m.world.tell s m.job ∧
    ((∃ v, s = .value v ∧ u.cell a.cell = .answered v) ∨
      s = .disconnected ∧ u.cell a.cell = .abandoned ∨
      s = .timeout ∧ m.world.cell a.cell = .empty ∧ ∃ t ∈ m.job.due?, t ≤ m.world.now)
  responded : ∀ v, u.cell a.cell = .answered v → a.Responded b log u v
  /-- Where no server hears it, there is no answer. -/
  unserved : w.reply? a.serial a.event a.payload = none → ∀ v, u.cell a.cell ≠ .answered v
  /-- As long as nothing came to it, it waits at its connection, which is open. -/
  pending : u.cell a.cell = .empty → u.Pending a.serial a.key a.cell
  failed : u.cell a.cell = .empty → ∀ x, u.Turn x → x.isConnected a.serial = false → Failed a x
  /-- A responder that was kept, and is used however late, is this emit's only. -/
  spares_held : ∀ r ticket i v, a.responder = some r → u.held[i]? = some (some r) →
    Spares a u (u.perform ticket (.answer i v)).1
  spares_reply : ∀ task rest r n reply, u.ready = task :: rest →
    task.job = .serveEnd n reply (some r) → a.responder = some r →
    Spares a ((u.begin task rest).serveEnd n reply none) ((u.begin task rest).exec task.job)
  spares_forward : ∀ task rest r n key, u.ready = task :: rest →
    task.job = .receive r (.forward n key) → a.responder = some r →
    Spares a (u.begin task rest) ((u.begin task rest).exec task.job)

theorem Asks.asked {v : World} (h : Asks a v b) (hbegins : Begins a v) (hbounded : v.Bounded)
    (hv : v = { w with ready := v.ready, running := v.running }) : Asked a w b := by
  have hcells : v.cells.length = w.cells.length := congrArg (·.cells.length) hv
  have hnew (r : CellId) (hr : a.responder = some r) : w.cells.length + 1 = r :=
    hcells ▸ (hbegins.responder r hr).symm
  obtain ⟨hcell, hresponder⟩ := h.cell_lt hbegins
  refine ⟨?_, ?_, ⟨?_, hcell⟩, fun r hr => ⟨?_, hresponder r hr, ?_⟩, ?_, ⟨?_, h.key_lt hbegins⟩,
    h.pending hbegins, h.empty hbegins (.inl rfl), h.waiters_eq_one hbegins hbounded⟩
  · exact (congrArg (·.isConnected a.serial) hv).symm.trans hbegins.live
  · exact h.trace.trans (congrArg (·.trace ++ _) hv)
  · exact Nat.le_of_eq (hbegins.cell.trans hcells).symm
  · exact Nat.le_of_lt (hnew r hr ▸ Nat.lt_succ_self _)
  · rintro rfl
    exact hbegins.cell_ne_responder hr
  · have hreply : v.reply? a.serial a.event a.payload = w.reply? a.serial a.event a.payload :=
      congrArg (·.reply? a.serial a.event a.payload) hv
    rw [← hreply]
    exact hbegins.served
  · exact hbegins.key.trans (congrArg (·.nextKey a.serial) hv)

/-- From its turn on, an emit is correlated. -/
theorem Run.correlated (h : Run b log u) (hasked : Asked a w b)
    (hfollows : Follows a [] (a.Responded b [] b) b) (hkeyed : b.Keyed) (hroused : b.Roused) :
    Correlated a w b log u := by
  have hnow := h.follows hfollows
  have hpending := h.pending hkeyed hasked.cell.2 hasked.pending
  have hown {n key : Nat} {r : CellId} (hr : a.responder = some r)
      (hsaid : u.Mentions (.forward r n key)) : n = a.serial ∧ key = a.key :=
    (hnow.said _ hsaid).2.1 hr
  have hwaiting (cell : CellId) (hmem : (a.key, cell) ∈ u.waitingOn a.serial) : cell = a.cell :=
    (hnow.said _ (.expected hmem)).2.2 ⟨rfl, rfl⟩
  refine
    { settled := fun hfull more x hrun => (hrun.settled ⟨hnow.cell_lt, rfl, hfull⟩).2.1
      told_once := (h.told_once hfollows).trans hasked.waiter
      told := fun m hm s htold => ⟨after_of_told? htold, h.of_told hasked.cell.2 hm htold⟩
      responded := fun v hanswered => hnow.value a.cell v (.inl rfl) hanswered
      unserved := fun hnone v hanswered => ?_
      pending := hpending
      failed := fun hempty x hturn hdown => ?_
      spares_held := fun r ticket i v hr hheld => spares_answer u ticket i v hr hheld
      spares_reply := fun task rest r n reply hready hjob hr => ?_
      spares_forward := fun task rest r n key hready hjob hr => ?_ }
  · obtain ⟨r, hr⟩ := (hnow.value a.cell v (.inl rfl) hanswered).asked
    exact hasked.served (by rw [hr]; nofun) hnone
  · obtain ⟨more, hmore⟩ := hturn.after h
    refine (hmore.roused hroused).failed
      (Nat.lt_of_lt_of_le hasked.cell.2 hmore.grows.cells) ?_
    cases hcell : x.cell a.cell with
    | empty =>
      have hlive := (hmore.pending hkeyed hasked.cell.2 hasked.pending hcell).1
      exact nomatch hlive.symm.trans hdown
    | answered v => exact absurd hcell (hnow.unanswered hempty (hpending hempty).1 hturn hdown v)
    | abandoned => rfl
  · rw [hjob]
    exact spares_serveEnd _ n reply hr
  · obtain ⟨rfl, rfl⟩ := hown hr (mentions_running hready (by rw [hjob]; rfl))
    rw [hjob]
    exact spares_forward _ r hwaiting

/-- Every emit that wants an answer is correlated with what its server responds to it. -/
theorem acknowledgments_correlated {w₀ : World} {log₀ : List Moment} {more : List Event}
    {serial : Nat} {event : String} {payload : Json} (hfresh : w₀.Fresh) (hheld : w₀.held = [])
    (hrun : Run w₀ log₀ w) (hturn : w.Turn b) (htrace : b.trace = w.trace ++ more)
    (hemitted : .emitted serial event payload true ∈ more) :
    ∃ a : Ask, (a.serial = serial ∧ a.event = event ∧ a.payload = payload) ∧ Asked a w b ∧
      ∀ log u, Run b log u → Correlated a w b log u := by
  obtain ⟨a, v, hemit, hbegins, hasks, hbounded, hv⟩ :=
    hturn.asks (hrun.bounded (hfresh.bounded hheld)) htrace hemitted
  obtain ⟨later, hlater⟩ := hturn.after hrun
  have hasked := hasks.asked hbegins hbounded hv
  exact ⟨a, hemit, hasked, fun log u h => h.correlated hasked (hasks.follows hbegins hbounded _)
    (hlater.keyed hfresh.keyed) (hlater.roused hfresh.roused)⟩

/-- A server that keeps its responders. -/
def desk : World :=
  { settings := { sockets := [] }
    servers := [{ namespaceName := "/", event := "ask", reply := fun _ _ => { answer := .hold } }] }

/-- An emit with a timeout is about to go out. -/
def deskAsking : List Moment × World := desk.play
  [.command 0 (.openBare "x" "http://home" "" []),
    .command 1 (.emitAction (some "x") { event := "ask", emitTimeout := some 100 }), .steps 1]

/-- It is out. -/
def deskAsked : World := (deskAsking.2.steps 1).2

/-- Another one follows. Then the first one's time is over, and after that its answer comes. -/
def deskAnswered : List Moment × World := deskAsked.play
  [.steps 10, .command 2 (.emitBare "x" "ask" .null), .steps 10, .pass 100, .steps 10,
    .command 3 (.answer 0 (.str "late")), .steps 10]

/-- It changes nothing for who was told, and nothing for who waits. -/
theorem late_answer_after_timeout :
    ∃ a : Ask, Asked a deskAsking.2 deskAsked ∧
      Correlated a deskAsking.2 deskAsked deskAnswered.1 deskAnswered.2 ∧
      deskAnswered.1.filterMap (·.told? a.cell) = [.timeout] ∧
      deskAnswered.2.cell a.cell = .answered (.str "late") ∧
      a.Responded deskAsked deskAnswered.1 deskAnswered.2 (.str "late") ∧
      deskAnswered.2.waitingOn 1 = [(2, 2)] ∧ deskAnswered.2.waiters 2 = 1 := by
  have hrun : Run desk deskAsking.1 deskAsking.2 := .of_play _ rfl
  have hturn : deskAsking.2.Turn deskAsked := .of_ready (List.cons_ne_nil _ _)
  have htrace : deskAsked.trace = deskAsking.2.trace ++ [.emitted 1 "ask" .null true] := rfl
  obtain ⟨a, ⟨hserial, -⟩, hasked, hruns⟩ := acknowledgments_correlated
    (.of_unwatched rfl (List.forall_mem_nil _)) rfl hrun hturn htrace List.mem_cons_self
  have hwaiting : deskAsked.waitingOn 1 = [(1, 0)] := rfl
  have hcell : a.cell = 0 := by
    have hmem := hasked.pending.2
    rw [hserial, hwaiting] at hmem
    exact (Prod.mk.inj (List.mem_singleton.1 hmem)).2
  have hanswered : deskAnswered.2.cell 0 = .answered (.str "late") := rfl
  have hlater : Run deskAsked deskAnswered.1 deskAnswered.2 := .of_play deskAsked rfl
  have hcorrelated := hruns _ _ hlater
  have hothers : deskAnswered.2.waitingOn 1 = [(2, 2)] := rfl
  have hwaits : deskAnswered.2.waiters 2 = 1 := rfl
  refine ⟨a, hasked, hcorrelated, ?_, ?_, hcorrelated.responded _ ?_, hothers, hwaits⟩
  · rw [hcell]
    rfl
  · rw [hcell, hanswered]
  · rw [hcell, hanswered]

end World

end Patchbay
