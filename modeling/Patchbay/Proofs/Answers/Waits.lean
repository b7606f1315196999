import Patchbay.Proofs.Answers.Told
import Patchbay.Proofs.Sessions.Causes

/-!
Emits that wait. As long as nothing came to its cell an emit waits at its connection, and who waits
parked for it is woken when something comes; when the connection closes first, the emit has failed.
-/

namespace Patchbay

namespace World

variable {a : Ask} {b u w w' x : World} {log : List Moment} {n key : Nat} {cell : CellId}
  {job : Job}

/-! Who waits parked -/

theorem Roused.of_same (h : w.Roused) (hparked : w'.parked ⊆ w.parked)
    (hcells : w'.cells = w.cells) :
    w'.Roused := by
  intro p hp cell hclient
  obtain ⟨hsignal, hempty⟩ := h p (hparked hp) cell hclient
  exact ⟨hsignal, (congrArg (·.getD cell .abandoned) hcells).trans hempty⟩

theorem Roused.makes {P : Change → Prop} (h : w.Roused) (hmakes : Makes P w w') : w'.Roused :=
  hmakes.keeps (fun _ ch _ hw => hw.apply ch) h

/-- Nothing is said of who waits. -/
def mute : Permit where
  mentions m := ∀ cell, m ≠ .client cell
  puts _ _ := True
  settles _ _ _ := True

/-- Only a task that waits already parks for an answer. -/
theorem exec_parks (w : World) (hwaits : ∀ cell, job.waitsFor cell = false) :
    ∃ mid e, Makes (fun _ => True) w mid ∧ mid.onward e = w.exec job ∧
      ∀ next signals due, e = .parks next signals due → ∀ cell, next.waitsFor cell = false := by
  have hsilent (h : Does (Change.Within mute) (Continues mute job) w (w.exec job)) :
      ∃ mid e, Makes (fun _ => True) w mid ∧ mid.onward e = w.exec job ∧
        ∀ next signals due, e = .parks next signals due → ∀ cell, next.waitsFor cell = false := by
    obtain ⟨mid, e, hmid, hnext, heq⟩ := h
    refine ⟨mid, e, hmid.mono fun _ _ => trivial, heq, ?_⟩
    rintro next signals due rfl cell
    refine Bool.eq_false_iff.2 fun hparks => ?_
    rcases hnext next rfl _ (Job.mention?_of_waitsFor hparks) with hrunning | hnew
    · exact nomatch (hwaits cell).symm.trans (Job.waitsFor_of_mention? hrunning)
    · exact hnew cell rfl
  cases hturns : job.turns with
  | false =>
    obtain ⟨mid, e, hmid, hleads, heq⟩ := exec_does w job
    refine ⟨mid, e, hmid.mono fun _ _ => trivial, heq, ?_⟩
    rintro next signals due rfl cell
    refine Bool.eq_false_iff.2 fun hparks => ?_
    have hmention := Job.mention?_of_waitsFor hparks
    rcases (hleads next rfl).mention with hturns' | hnone | hsame
    · exact nomatch hturns.symm.trans hturns'
    · exact nomatch hnone.symm.trans hmention
    · exact nomatch (hwaits cell).symm.trans (Job.waitsFor_of_mention? (hsame.symm.trans hmention))
  | true =>
    cases job with
    | transmit run after =>
      rcases transmit_within (g := mute) w run after with ⟨a, -, hasks⟩ | hdoes
      · have hask : Makes (fun _ => True) w (w.ask a) := (ask_makes w a).mono fun _ _ => trivial
        have hexec : w.exec (.transmit run after) = w.transmit run after := rfl
        rw [hexec]
        generalize w.transmit run after = x at hasks ⊢
        cases hasks with
        | @resumes next _ => exact ⟨_, .resumes next, hask, rfl, by rintro _ _ _ ⟨⟩⟩
        | @starts next _ => 
          exact ⟨_, .ended, .more (.spawn next) hask trivial, rfl, by rintro _ _ _ ⟨⟩⟩
      · exact hsilent hdoes
    | serve n event payload ack =>
      exact hsilent (serve_within w n event payload ack fun _ _ _ _ => nofun)
    | _ => cases hturns

theorem exec_roused (h : w.Roused) (job : Job) : (w.exec job).Roused := by
  by_cases hwaits : ∃ cell, job.waitsFor cell = true
  · obtain ⟨cell, hwaits⟩ := hwaits
    rcases exec_of_waitsFor w hwaits with ⟨s, -, heq⟩ | ⟨-, hempty, heq⟩
    · rw [heq]
      rcases w.tell_cases s job with ⟨next, htell, -⟩ | ⟨ticket, outcome, htell⟩ | htell
      · rw [htell]
        exact h.of_same (List.Subset.refl _) rfl
      · rw [htell]
        exact h.of_same (List.Subset.refl _) rfl
      · rwa [htell]
    · rw [heq]
      intro p hp id hclient
      rcases List.mem_append.1 hp with hold | hnew
      · exact h p hold id hclient
      · obtain rfl := List.mem_singleton.1 hnew
        obtain rfl := Mention.client.inj (Option.some.inj
          ((Job.mention?_of_waitsFor hwaits).symm.trans hclient))
        exact ⟨List.mem_cons_self, hempty⟩
  · have hsilent (cell : CellId) : job.waitsFor cell = false :=
      Bool.eq_false_iff.2 fun hcell => hwaits ⟨cell, hcell⟩
    obtain ⟨mid, e, hmid, heq, hparks⟩ := exec_parks w hsilent
    have hroused := h.makes hmid
    rw [← heq]
    cases e with
    | ended => exact hroused
    | resumes next => exact hroused.of_same (List.Subset.refl _) rfl
    | parks next signals due =>
      intro p hp id hclient
      rcases List.mem_append.1 hp with hold | hnew
      · exact hroused p hold id hclient
      · obtain rfl := List.mem_singleton.1 hnew
        exact nomatch (hparks next signals due rfl id).symm.trans (Job.waitsFor_of_mention? hclient)

theorem Run.roused (h : Run w log u) (h₀ : w.Roused) : u.Roused := by
  induction h with
  | start => exact h₀
  | @step log w task rest _ _ ih =>
    have hbegun : (w.begin task rest).Roused := ih.of_same (List.Subset.refl _) rfl
    exact exec_roused hbegun task.job
  | command _ ticket hc ih => exact ih.makes (perform_makes _ ticket hc)
  | pass _ _ ih => exact ih.of_same (List.Subset.refl _) rfl
  | wake _ ih => exact ih.of_same (wakeDue_woken _).parked_subset rfl

/-! Who waits at a connection -/

theorem Run.keyed (h : Run w log u) (h₀ : w.Keyed) : u.Keyed :=
  h.keeps (fun _ ch hu => hu.apply ch) (fun _ _ _ _ _ hu => hu) h₀

/-- As long as nothing has come to its cell, an emit waits and its connection is open. -/
theorem Run.pending (h : Run w log u) (hkeyed : w.Keyed) (hlt : cell < w.cells.length)
    (hpending : w.Pending n key cell) (hempty : u.cell cell = .empty) : u.Pending n key cell := by
  have hkept : u.Keyed ∧ cell < u.cells.length ∧ (u.cell cell = .empty → u.Pending n key cell) := by
    refine h.keeps (I := fun u => u.Keyed ∧ cell < u.cells.length ∧
      (u.cell cell = .empty → u.Pending n key cell)) ?_ (fun _ _ _ _ _ hu => hu)
      ⟨hkeyed, hlt, fun _ => hpending⟩
    rintro u ch ⟨hkeyed, hlt, hpending⟩
    refine ⟨hkeyed.apply ch, Nat.lt_of_lt_of_le hlt (cells_length_apply u ch), fun hafter => ?_⟩
    have hbefore : u.cell cell = .empty := by
      rcases cell_apply u ch hlt with hsame | ⟨hempty, -⟩
      · exact hsame.symm.trans hafter
      · exact hempty
    exact (hpending hbefore).apply hkeyed ch hafter
  exact hkept.2.2 hempty

/-! Closing -/

/-- Anything may be done but give the emit an answer. -/
def unanswering (a : Ask) : Permit where
  mentions _ := True
  puts cell _ := cell ≠ a.cell
  settles _ _ _ := False

theorem Makes.unanswered (h : Makes (Change.Within (unanswering a)) w w')
    (hempty : w.cell a.cell = .empty) (v : Json) : w'.cell a.cell ≠ .answered v := by
  intro hanswered
  refine nomatch hempty.symm.trans (h.answered ?_ (lt_of_getD_empty hempty) hanswered)
  intro x ch hch hputs
  cases ch with
  | answer id v' => exact hch hputs.1
  | settle => exact hch
  | _ => exact hputs

/-- To hand an answer on closes no connection. -/
theorem isConnected_forward (h : w.isConnected n = true) (r : CellId) (serial number : Nat) :
    (w.exec (.receive r (.forward serial number))).isConnected n = true := by
  cases hcell : w.cell r with
  | empty =>
    simp only [exec, receive, hcell]
    exact h
  | abandoned =>
    simp only [exec, receive, hcell]
    exact h
  | answered v =>
    simp only [exec, receive, hcell, resolve_eq]
    exact isConnected_apply h (by simp)

namespace Follows

variable {responded : Json → Prop}

theorem covers_unanswering (h : Follows a log responded w) (w' : World) :
    Covers (unanswering a) w w' where
  fresh cell hnew _ := by
    refine ⟨⟨trivial, trivial, trivial⟩, fun _ => ?_⟩
    rintro rfl
    exact Nat.lt_irrefl _ (Nat.lt_of_le_of_lt hnew h.cell_lt)
  awaited cell _ hsaid := (h.said (.awaited cell) hsaid).1
  called cell _ hsaid := (h.said (.called cell) hsaid).1
  held _ _ _ _ _ := trivial
  replied cell n reply _ hsaid _ := (h.said (.replied cell n reply) hsaid).1

/-- An emit that waits when its connection closes gets no answer in that turn: who answers does not
close the connection. -/
theorem unanswered (h : Follows a log responded u) (hempty : u.cell a.cell = .empty)
    (hlive : u.isConnected a.serial = true) (hturn : u.Turn x)
    (hdown : x.isConnected a.serial = false) (v : Json) : x.cell a.cell ≠ .answered v := by
  cases hturn with
  | @job task rest hready =>
    by_cases hforward : ∃ cell n key, task.job = .receive cell (.forward n key)
    · obtain ⟨cell, n, key, hjob⟩ := hforward
      have hbegun : (u.begin task rest).isConnected a.serial = true := hlive
      rw [hjob, isConnected_forward hbegun] at hdown
      cases hdown
    · rcases exec_within hready (h.covers_unanswering _) (fun _ _ _ _ _ _ _ => trivial)
        (fun cell n key _ hjob _ => hforward ⟨cell, n, key, hjob⟩) with
        ⟨a', -, hasks⟩ | ⟨mid, e, hmid, -, heq⟩
      · exact fun hanswered => nomatch hempty.symm.trans
          ((hasks.kept h.cell_lt).symm.trans hanswered)
      · have hcell : (mid.onward e).cell a.cell = mid.cell a.cell := by cases e <;> rfl
        rw [← heq, hcell]
        exact hmid.unanswered hempty v
  | @command ticket c hc =>
    have hlate (i : Nat) (cell : CellId) (v : Json) (_ : c = .answer i v)
        (hheld : u.held[i]? = some (some cell)) : (unanswering a).puts cell v :=
      (h.said (.held cell) (.held (List.mem_of_getElem? hheld))).1
    rcases perform_within u ticket hc (h.covers_unanswering _) hlate with ⟨a', -, hasks⟩ | hmakes
    · exact fun hanswered => nomatch hempty.symm.trans ((hasks.kept h.cell_lt).symm.trans hanswered)
    · exact hmakes.unanswered hempty v
  | pass ht => exact nomatch hlive.symm.trans hdown
  | wake => exact nomatch hlive.symm.trans hdown

end Follows

/-- The emit has failed: who waits for it is woken, and is told in every run from here that the
connection is closed. -/
structure Failed (a : Ask) (x : World) : Prop where
  woken : ∀ p ∈ x.parked, p.task.job.waitsFor a.cell = false
  cell : ∀ log y, Run x log y → y.cell a.cell = .abandoned
  told : ∀ log y, Run x log y → ∀ m ∈ log, m.job.waitsFor a.cell = true →
    m.told? a.cell = some .disconnected

theorem Roused.failed (h : x.Roused) (hlt : a.cell < x.cells.length)
    (habandoned : x.cell a.cell = .abandoned) : Failed a x := by
  have hsettled : x.Settled a.cell .abandoned := ⟨hlt, habandoned, nofun⟩
  refine ⟨fun p hp => Bool.eq_false_iff.2 fun hwaits => ?_,
    fun log y hrun => (hrun.settled hsettled).2.1,
    fun log y hrun m hm hwaits => ?_⟩
  · have hempty := (h p hp a.cell (Job.mention?_of_waitsFor hwaits)).2
    exact nomatch hempty.symm.trans habandoned
  · simp only [Moment.told?, hwaits, ↓reduceIte, settlement?, hsettled.of_mem hrun hm]

end World

end Patchbay
