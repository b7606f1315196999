import Patchbay.Proofs.Answers.Correlation
import Patchbay.Proofs.Engine.Follow
import Patchbay.Proofs.Listeners.Dismissals
import Patchbay.Proofs.Listeners.Feeding

/-!
Who awaits an event. The cell of an awaited event stays empty only as long as a listener stands that
is to fill it: a delivery fills it, and a listener that is removed leaves it abandoned. So whoever
awaits an event on a connection that is dropped is told. A connection that is merely closed keeps
its listeners, and who awaits an event there waits on.
-/

namespace Patchbay

namespace World

variable {w w' : World} {n : Nat} {cell : CellId} {log : List Moment}

/-! Filled cells -/

/-- Something is in the cell. -/
def Full (cell : CellId) (w : World) : Prop := ∃ content, w.Settled cell content

theorem Full.not_empty (h : Full cell w) : w.cell cell ≠ .empty := by
  obtain ⟨content, -, hcontent, hfull⟩ := h
  rwa [hcontent]

theorem Full.makes {P : Change → Prop} (h : Full cell w) (hmakes : Makes P w w') :
    Full cell w' := by
  obtain ⟨content, hsettled⟩ := h
  exact ⟨content, hmakes.keeps (I := fun w => w.Settled cell content) (fun _ ch _ hw => hw.apply ch)
    hsettled⟩

theorem Full.run (h : Full cell w) (hrun : Run w log w') : Full cell w' := by
  obtain ⟨content, hsettled⟩ := h
  exact ⟨content, hrun.settled hsettled⟩

/-- What is put into a cell is in it, or something was before. -/
theorem full_of_filled (content : Cell) (hgiven : cell < w.cells.length)
    (hcontent : content ≠ .empty)
    (hcells : w'.cells = filled w.cells cell content) : Full cell w' := by
  have hgiven' : cell < w'.cells.length := by rwa [hcells, length_filled]
  by_cases hempty : w.cells.getD cell .abandoned = .empty
  · refine ⟨content, hgiven', ?_, hcontent⟩
    rw [World.cell, hcells, getD_filled_self hempty]
  · refine ⟨w.cell cell, hgiven', ?_, hempty⟩
    rw [World.cell, hcells, getD_filled_of_full hempty, World.cell]

theorem full_answer (hgiven : cell < w.cells.length) (v : Json) : Full cell (w.answer cell v) :=
  full_of_filled (.answered v) hgiven nofun (apply_woken w (.answer cell v)).cells

theorem full_abandon (hgiven : cell < w.cells.length) : Full cell (w.abandon cell) :=
  full_of_filled .abandoned hgiven nofun (apply_woken w (.abandon cell)).cells

/-- Of steps that empty no cell one fills it. -/
theorem foldl_full {α : Type} {f : World → α → World} {a : α} {items : List α} (ha : a ∈ items)
    (hgiven : ∀ w a, cell < w.cells.length → cell < (f w a).cells.length)
    (hkeeps : ∀ w a, Full cell w → Full cell (f w a))
    (hfills : ∀ w, cell < w.cells.length → Full cell (f w a)) (hw : cell < w.cells.length) :
    Full cell (items.foldl f w) := by
  have hkept (items : List α) (w : World) (hw : Full cell w) : Full cell (items.foldl f w) := by
    induction items generalizing w with
    | nil => exact hw
    | cons first rest ih => exact ih _ (hkeeps w first hw)
  induction items generalizing w with
  | nil => cases ha
  | cons first rest ih =>
    rcases List.mem_cons.1 ha with rfl | hrest
    · exact hkept rest _ (hfills w hw)
    · exact ih hrest (hgiven w first hw)

/-! Listeners that go -/

theorem release_length (w : World) (action : Reaction) :
    (w.release action).cells.length = w.cells.length := by
  cases action with
  | await id => exact (congrArg List.length (apply_woken w (.abandon id)).cells).trans length_filled
  | _ => rfl

theorem Full.release (h : Full cell w) (action : Reaction) : Full cell (w.release action) := by
  cases action with
  | await id =>
    have habandoned : Makes Change.Stirs w (w.abandon id) := .one (.abandon id) trivial
    exact h.makes habandoned
  | _ => exact h

/-- A listener that awaited an event and is removed leaves its cell abandoned. -/
theorem full_of_removed {l : Listener Reaction} {out : Listener Reaction → Bool}
    (hgiven : cell < w.cells.length) (hl : l ∈ w.listenersOn n) (hout : out l = true)
    (haction : l.action = .await cell) : Full cell (w.removeListeners n out) := by
  cases hc : w.connection? n with
  | none => simp [listenersOn, hc] at hl
  | some c =>
    rw [listenersOn_of_connection? hc] at hl
    have hremoved : .await cell ∈ (c.listeners.remove out).1 :=
      List.mem_map.2 ⟨l, List.mem_filter.2 ⟨hl, hout⟩, haction⟩
    simp only [removeListeners, hc]
    refine foldl_full hremoved ?_ (fun _ action hw => hw.release action)
      (fun _ hw => full_abandon hw)
      hgiven
    intro v action hv
    rwa [release_length]

theorem full_react (hgiven : cell < w.cells.length) (payload : Json) (ack : Option CellId) :
    Full cell (w.react (.await cell) payload ack) :=
  (full_answer hgiven payload).makes (abandonIf_makes _ ack)

/-- One that hears the event puts it there. -/
theorem full_of_delivered {l : Listener Reaction} {event : String} (hgiven : cell < w.cells.length)
    (hlive : w.isConnected n = true) (hl : l ∈ w.listenersOn n) (hevent : l.event = event)
    (haction : l.action = .await cell) (payload : Json) (ack : Option CellId) :
    Full cell (w.deliver n event payload ack) := by
  obtain ⟨c, hc⟩ := opened_of_isConnected hlive
  have hconnected : c.connected = true := by simpa only [isConnected, hc] using hlive
  rw [listenersOn_of_connection? hc] at hl
  have hheard : .await cell ∈ (c.listeners.deliver event).1.map (·.action) :=
    List.mem_map.2 ⟨l, List.mem_filter.2 ⟨hl, beq_iff_eq.2 hevent⟩, haction⟩
  simp only [World.deliver, hc, hconnected, Bool.not_true, Bool.false_eq_true, ↓reduceIte,
    updateConnection_spend hc]
  have hspent : cell < (w.apply (.spend n event)).cells.length :=
    Nat.lt_of_lt_of_le hgiven (cells_length_apply w _)
  have hreacts (v : World) (action : Reaction) (ack : Option CellId) :
      Makes Change.Reacts v (v.react action payload ack) := react_reacts ..
  revert hheard
  cases (c.listeners.deliver event).1.map (·.action) with
  | nil => simp
  | cons first rest =>
    intro hheard
    rcases List.mem_cons.1 hheard with rfl | hrest
    · have hothers := Makes.foldl (fun v action => hreacts v action none) rest
        ((w.apply (.spend n event)).react (.await cell) payload ack)
      exact (full_react hspent payload ack).makes hothers
    · refine foldl_full hrest ?_ (fun v action hv => hv.makes (hreacts v action none))
        (fun v hv => full_react hv payload none) ?_
      · exact fun v action hv => Nat.lt_of_lt_of_le hv (hreacts v action none).grows.cells
      · exact Nat.lt_of_lt_of_le hspent (hreacts _ first ack).grows.cells

/-! Listeners that stay -/

theorem mem_listenersOn_apply {ch : Change} {l : Listener Reaction} (hch : ¬ ch.Removes)
    (hl : l ∈ w.listenersOn n) : l ∈ (w.apply ch).listenersOn n := by
  have hjoined {serial : Nat} {event : String} {action : Reaction} {once : Bool}
      (h : Joined serial event action once w (w.apply ch)) : l ∈ (w.apply ch).listenersOn n := by
    rcases h n with hsame | ⟨-, id, hnew⟩
    · rwa [hsame]
    · rw [hnew]
      exact List.mem_append_left _ hl
  cases ch with
  | listen serial event action once => exact hjoined (joined_listen w serial event action once)
  | attachWorker worker serial => exact hjoined (joined_attach w worker serial)
  | hush | spend => exact absurd trivial hch
  | _ => rwa [listenersOn_apply id]

theorem mem_listenersOn_removeListeners {l : Listener Reaction} {serial : Nat}
    {out : Listener Reaction → Bool} (hl : l ∈ w.listenersOn n)
    (hstays : ¬ (n = serial ∧ out l = true)) :
    l ∈ (w.removeListeners serial out).listenersOn n := by
  rw [(removeListeners_eq w serial out).listenersOn fun _ hc => hc.not_tunes, listenersOn_hush]
  split
  · rename_i hn
    exact List.mem_filter.2 ⟨hl, by simpa [hn] using hstays⟩
  · exact hl

theorem Makes.listenersOn_of_reacts (h : Makes Change.Reacts w w') (n : Nat) :
    w'.listenersOn n = w.listenersOn n :=
  congrArg (fun c? => (c?.map (·.listeners.entries)).getD []) (h.connection?_of_reacts n)

/-- A delivery takes none off but those that were to hear its event on its connection. -/
theorem mem_listenersOn_deliver {l : Listener Reaction} {serial : Nat} {event : String}
    (hl : l ∈ w.listenersOn n)
    (hstays : ¬ (w.isConnected serial = true ∧ n = serial ∧ l.event = event)) (payload : Json)
    (ack : Option CellId) : l ∈ (w.deliver serial event payload ack).listenersOn n := by
  have habandoned : l ∈ (w.abandonIf ack).listenersOn n :=
    ((abandonIf_reacts w ack).listenersOn_of_reacts n).symm ▸ hl
  cases hc : w.connection? serial with
  | none =>
    simp only [World.deliver, hc]
    exact habandoned
  | some c =>
    cases hlive : c.connected with
    | false =>
      simp only [World.deliver, hc, hlive]
      exact habandoned
    | true =>
      have hspent : l ∈ (w.spend serial event).listenersOn n := by
        rw [World.spend, listenersOn_spend]
        split
        · rename_i hn
          refine List.mem_filter.2 ⟨hl, ?_⟩
          have hother : l.event ≠ event := fun hevent =>
            hstays ⟨by simp only [isConnected, hc, hlive], hn, hevent⟩
          simp [hother]
        · exact hl
      rw [deliver_eq hc hlive 0]
      split
      · exact ((abandonIf_reacts _ ack).listenersOn_of_reacts n).symm ▸ hspent
      · exact ((makeCalls_reacts _ _).listenersOn_of_reacts n).symm ▸ hspent

/-! Cells that listeners are to fill -/

/-- The cell is full, or a listener on that connection is to fill it. -/
structure Attended (w : World) (n : Nat) (cell : CellId) : Prop where
  given : cell < w.cells.length
  filled_or_heard : Full cell w ∨ ∃ l ∈ w.listenersOn n, l.action = .await cell

/-- No cell is left to nobody. -/
theorem attended_heeded (n : Nat) (cell : CellId) : Heeded (·.Attended n cell) where
  change w ch hch h := by
    refine ⟨Nat.lt_of_lt_of_le h.given (cells_length_apply w ch), ?_⟩
    rcases h.filled_or_heard with hfull | ⟨l, hl, haction⟩
    · have hmakes : Makes (fun _ => True) w (w.apply ch) := .one ch trivial
      exact .inl (hfull.makes hmakes)
    · exact .inr ⟨l, mem_listenersOn_apply hch hl, haction⟩
  remove w m out h := by
    have hmakes := removeListeners_makes w m out
    refine ⟨Nat.lt_of_lt_of_le h.given hmakes.grows.cells, ?_⟩
    rcases h.filled_or_heard with hfull | ⟨l, hl, haction⟩
    · exact .inl (hfull.makes hmakes)
    · by_cases hgoes : n = m ∧ out l = true
      · obtain ⟨rfl, hout⟩ := hgoes
        exact .inl (full_of_removed h.given hl hout haction)
      · exact .inr ⟨l, mem_listenersOn_removeListeners hl hgoes, haction⟩
  deliver w m event payload ack h := by
    have hmakes := deliver_makes w m event payload ack
    refine ⟨Nat.lt_of_lt_of_le h.given hmakes.grows.cells, ?_⟩
    rcases h.filled_or_heard with hfull | ⟨l, hl, haction⟩
    · exact .inl (hfull.makes hmakes)
    · by_cases hgoes : w.isConnected m = true ∧ n = m ∧ l.event = event
      · obtain ⟨hlive, rfl, hevent⟩ := hgoes
        exact .inl (full_of_delivered h.given hlive hl hevent haction payload ack)
      · exact .inr ⟨l, mem_listenersOn_deliver hl hgoes payload ack, haction⟩
  idle _ _ _ _ _ h := ⟨h.given, h.filled_or_heard⟩

/-- Where nobody listens any more, nothing waits to be filled. -/
theorem Attended.full (h : w.Attended n cell) (hsilent : w.listenersOn n = []) : Full cell w := by
  rcases h.filled_or_heard with hfull | ⟨l, hl, -⟩
  · exact hfull
  · rw [hsilent] at hl
    cases hl

end World

/-! Awaiting -/

/-- One event that the application awaits, and the task that waits for it. -/
structure Awaiting where
  task : Nat
  cell : CellId
  connection : Nat
  ticket : Nat
  event : String

namespace Awaiting

variable (a : Awaiting)

def job : Job := .receive a.cell (.reply a.ticket a.event)

/-- On an open connection a listener is to hear the event, and the task is ready. -/
structure Starts (b : World) : Prop where
  ready : ⟨a.task, a.job⟩ ∈ b.ready
  attended : b.Attended a.connection a.cell
  live : b.isConnected a.connection = true

/-- The task waits, and a listener stands that is to hear the event. -/
structure Waits (u : World) : Prop where
  parked : ∃ p ∈ u.parked, p.task = ⟨a.task, a.job⟩
  empty : u.cell a.cell = .empty
  heard : ∃ l ∈ u.listenersOn a.connection, l.action = .await a.cell

/-- A payload is reported, or that none will come. -/
def Reports (m : Moment) : Prop :=
  (∃ v, m.world.cell a.cell = .answered v ∧ m.after = m.world.report a.ticket (.value v)) ∨
    m.world.cell a.cell = .abandoned ∧
      m.after = m.world.report a.ticket (.failed (.emit (.disconnected a.event)))

/-- The task has reported that and is gone. -/
structure IsOver (log : List Moment) (u : World) : Prop where
  reported : ∃ m ∈ log, m.task = ⟨a.task, a.job⟩ ∧ a.Reports m
  gone : ∀ job, ⟨a.task, job⟩ ∉ u.tasks

end Awaiting

namespace World

variable {w₀ w u v v' : World} {log₀ log : List Moment} {n : Nat} {a : Awaiting}

/-- What is started when an event is awaited. -/
def awaiting (w : World) (n ticket : Nat) (event : String) : Awaiting :=
  ⟨w.started + 1, w.cells.length, n, ticket, event⟩

theorem starts_of_awaitEvent {name event : String} {handle : Handle}
    (hhandle : w.handle? name = some handle) (hlive : w.isConnected handle.connection = true)
    (ticket : Nat) : (w.awaiting handle.connection ticket event).Starts
      (w.perform ticket (.awaitEvent name event)).1 := by
  let a := w.awaiting handle.connection ticket event
  let heard := w.newCell.1.apply (.listen a.connection event (.await a.cell) true)
  have hstarted : (w.perform ticket (.awaitEvent name event)).1 = heard.apply (.spawn a.job) := by
    simp only [perform, withHandle, hhandle, listen_eq]
    rfl
  rw [hstarted]
  have hopen : w.newCell.1.isConnected handle.connection = true := hlive
  obtain ⟨c, hc⟩ := opened_of_isConnected hopen
  have hlisteners : heard.listenersOn a.connection = w.newCell.1.listenersOn a.connection ++
      if a.connection = a.connection
        then [⟨c.listeners.next, event, .await a.cell, true⟩] else [] :=
    listenersOn_listen hc event (.await a.cell) true a.connection
  rw [if_pos rfl] at hlisteners
  have hheard : heard.isConnected a.connection = true := isConnected_apply hopen (by simp)
  refine ⟨List.mem_append_right _ List.mem_cons_self, ⟨?_, .inr ?_⟩, hheard⟩
  · have hcells : (heard.apply (.spawn a.job)).cells.length = w.cells.length + 1 :=
      List.length_append
    rw [hcells]
    exact Nat.lt_succ_self w.cells.length
  · exact ⟨_, hlisteners ▸ List.mem_append_right _ List.mem_cons_self, rfl⟩

/-- The task reports when it finds something in the cell, and else it waits on. -/
theorem exec_awaiting {m : Moment} (hjob : m.job = a.job) :
    m.after = m.world.park a.job [.cell a.cell] ∨
      ∃ outcome, m.after = m.world.report a.ticket outcome ∧ a.Reports m := by
  have hafter : m.after = m.world.receive a.cell (.reply a.ticket a.event) :=
    congrArg m.world.exec hjob
  cases hcell : m.world.cell a.cell with
  | empty =>
    simp only [receive, hcell] at hafter
    exact .inl hafter
  | answered v =>
    simp only [receive, hcell] at hafter
    exact .inr ⟨_, hafter, .inl ⟨v, hcell, hafter⟩⟩
  | abandoned =>
    simp only [receive, hcell] at hafter
    exact .inr ⟨_, hafter, .inr ⟨hcell, hafter⟩⟩

/-- When nothing is ready, the task waits parked or is over. -/
theorem Run.waits_or_over (h : Run w log u) (hcounted : Counted w.started w.tasks)
    (hroused : w.Roused) (hattended : w.Attended a.connection a.cell)
    (hready : ⟨a.task, a.job⟩ ∈ w.ready) (hquiet : u.ready = []) : a.IsOver log u ∨ a.Waits u := by
  have hgiven : a.task ≤ w.started := hcounted.2 _ (List.mem_append_left _ hready)
  have hstarts : w.Stands a.task (.resumes a.job) := .of_ready hcounted hready
  obtain ⟨e, hcourse, hstands⟩ := h.follow
    (P := fun own e => e.job? = some a.job ∨
      e = .ended ∧ ∃ m ∈ own, m.job = a.job ∧ a.Reports m)
    hcounted hgiven hstarts (.inl rfl) fun own e m hcourse hjob => by
      rcases hcourse with hwaits | ⟨rfl, -⟩
      · have hown : m.job = a.job := Option.some.inj (hjob.symm.trans hwaits)
        rcases exec_awaiting hown with hparks | ⟨outcome, hafter, hreports⟩
        · exact ⟨m.world, .parks a.job [.cell a.cell] none, ⟨fun _ => True, .nothing⟩, hparks.symm,
            .inl rfl⟩
        · exact ⟨m.world.apply (.report a.ticket outcome), .ended,
            ⟨fun _ => True, .one _ trivial⟩, hafter.symm,
            .inr ⟨rfl, m, List.mem_append_right _ List.mem_cons_self, hown, hreports⟩⟩
      · cases hjob
  rcases hcourse with hwaits | ⟨rfl, m, hm, hown, hreports⟩
  · refine .inr ?_
    rcases hstands.ready_or_parked hwaits with hready' | ⟨signals, due, -, hparked⟩
    · rw [hquiet] at hready'
      cases hready'
    · have hempty := ((h.roused hroused) _ hparked a.cell rfl).2
      rcases (h.keeps_heeded (attended_heeded _ _) hattended).filled_or_heard with hfull | hheard
      · exact absurd hempty hfull.not_empty
      · exact ⟨⟨_, hparked, rfl⟩, hempty, hheard⟩
  · obtain ⟨hmem, hid⟩ := List.mem_filter.1 hm
    have htask : m.task = ⟨a.task, a.job⟩ := congrArg₂ Task.mk (beq_iff_eq.1 hid) hown
    refine .inl ⟨⟨m, hmem, htask, hreports⟩, fun job hjob => ?_⟩
    cases (hstands.task job).1 hjob

/-! Connections that are dropped -/

/-- A turn that drops a connection: with a session that is on it, or with the request that failed
for which it was opened. -/
inductive Discards (n : Nat) (w : World) : World → Prop
  | teardown (ticket : Nat) {owner : ComponentId} {s : Session} (hs : s ∈ w.sessionsOf owner)
      (hteardown : s.teardown = true) (hconnection : s.channel.connection = n) :
      Discards n w (w.perform ticket (.teardown owner)).1
  | shutdown (ticket : Nat) {s : Session} (hs : s ∈ w.sessions)
      (hconnection : s.channel.connection = n) :
      Discards n w (w.perform ticket .shutdown).1
  | refused {c : Connecting} {w' : World} (hfresh : c.reused = false)
      (hconnection : c.pass.channel.connection = n) (hfails : Fails c w w') : Discards n w w'

/-- A turn in which the client or the peer closes a connection. -/
inductive HangsUp (n : Nat) (w : World) : World → Prop
  | client (ticket : Nat) {name : String} {handle : Handle} (hhandle : w.handle? name = some handle)
      (hconnection : handle.connection = n) : HangsUp n w (w.perform ticket (.close name)).1
  | peer (ticket : Nat) {name : String} {handle : Handle} (hhandle : w.handle? name = some handle)
      (hconnection : handle.connection = n) : HangsUp n w (w.perform ticket (.kick name)).1
  | server {task : Task} {rest : List Task} {reply : PeerReply} {ack : Option CellId}
      (hready : w.ready = task :: rest) (hjob : task.job = .serveEnd n reply ack)
      (hbreaks : reply.disconnect = true) : HangsUp n w ((w.begin task rest).exec task.job)

theorem Closes.hangsUp_or_discards (h : Closes n v v') : HangsUp n v v' ∨ Discards n v v' := by
  cases h with
  | client ticket hhandle hconnection => exact .inl (.client ticket hhandle hconnection)
  | peer ticket hhandle hconnection => exact .inl (.peer ticket hhandle hconnection)
  | server hready hjob hbreaks => exact .inl (.server hready hjob hbreaks)
  | teardown ticket hs hteardown hconnection =>
    exact .inr (.teardown ticket hs hteardown hconnection)
  | shutdown ticket hs hconnection => exact .inr (.shutdown ticket hs hconnection)

/-- Nobody listens on a connection that is dropped. -/
theorem Discards.silent {openers : List Charge} {muted : Bool} {past : Past} (h : Discards n v v')
    (horderly : Orderly muted past [] v) (hminded : Minded openers [] v) :
    v'.listenersOn n = [] := by
  cases h with
  | @teardown ticket owner s hs hteardown hconnection =>
    have hover : Over s (v.teardown owner).1 := teardown_over hminded.listed
      (fun s hs => horderly.own (hminded.roster.sessionsOf_subset owner hs)) s hs hteardown
    exact hconnection ▸ hover.silent
  | shutdown ticket hs hconnection =>
    exact hconnection ▸ (shutdown_over hminded.listed (fun s hs => horderly.own hs) _ hs).silent
  | refused hfresh hconnection hfails =>
    cases hfails with
    | @discovery task rest result error hready hjob =>
      have hbegun : (v.begin task rest).Listed := hminded.listed
      exact hconnection ▸ (failConnect_gone hbegun hfresh error).silent

/-- Who awaits an event on an open connection is told of a payload or that none will come, or still
waits when nothing is ready. It does not wait when the connection was dropped meanwhile; so when the
connection is closed, the client or the peer has hung up. -/
theorem awaited_event_ends_with_connection (hblank : w₀.Blank) (hrun : Run w₀ log₀ w)
    {name : String} {handle : Handle} (hhandle : w.handle? name = some handle)
    (hlive : w.isConnected handle.connection = true) {ticket : Nat} {event : String}
    (hafter : Run (w.perform ticket (.awaitEvent name event)).1 log u) (hquiet : u.ready = []) :
    let b := (w.perform ticket (.awaitEvent name event)).1
    let a := w.awaiting handle.connection ticket event
    a.IsOver log u ∨ a.Waits u ∧
      (∀ log₁ v v' log₂, Run b log₁ v → v.Turn v' → Discards a.connection v v' → ¬ Run v' log₂ u) ∧
      (u.isConnected a.connection = false →
        ∃ log₁ v v' log₂, Run b log₁ v ∧ HangsUp a.connection v v' ∧ Run v' log₂ u) := by
  intro b a
  have hbefore : Run w₀ log₀ b := hrun.command ticket (c := .awaitEvent name event) nofun
  have hstarts : a.Starts b := starts_of_awaitEvent hhandle hlive ticket
  have horderly {log : List Moment} {v : World} (h : Run b log v) :=
    (hbefore.trans h).orderly hblank.orderly
  have hminded {log : List Moment} {v : World} (h : Run b log v) :=
    (hbefore.trans h).minded hblank.orderly hblank.minded
  rcases hafter.waits_or_over (hbefore.counted hblank.toFresh.counted)
    (hbefore.roused hblank.toFresh.roused) hstarts.attended hstarts.ready hquiet with hover | hwaits
  · exact .inl hover
  have hkept : ∀ log₁ v v' log₂, Run b log₁ v → v.Turn v' → Discards a.connection v v' →
      ¬ Run v' log₂ u := by
    intro log₁ v v' log₂ hearlier hturn hdiscards hlater
    have hsilent := hdiscards.silent (horderly hearlier) (hminded hearlier)
    obtain ⟨more, hturned⟩ := hturn.after hearlier
    have hattended := hturned.keeps_heeded (attended_heeded _ _) hstarts.attended
    exact ((hattended.full hsilent).run hlater).not_empty hwaits.empty
  refine .inr ⟨hwaits, hkept, fun hdown => ?_⟩
  obtain ⟨log₁, v, v', log₂, hearlier, hv, hturn, hv', hlater⟩ := hafter.exists_turn
    (I := fun v => v.isConnected a.connection = true) hstarts.live (Bool.eq_false_iff.1 hdown)
  have hnotDropped (hdiscards : Discards a.connection v v') : False :=
    hkept log₁ v v' log₂ hearlier hturn hdiscards hlater
  rcases hturn.closes (horderly hearlier) (hminded hearlier) hv (Bool.eq_false_iff.2 hv') with
    hcloses | ⟨c, hfresh, hconnection, hfails⟩
  · rcases hcloses.hangsUp_or_discards with hhangs | hdiscards
    · exact ⟨log₁, v, v', log₂, hearlier, hhangs, hlater⟩
    · exact (hnotDropped hdiscards).elim
  · exact (hnotDropped (.refused hfresh hconnection hfails)).elim

/-- A component has a connection. -/
def balcony : List Moment × World := lobby.play [.command 0 (.connect "x" ⟨"a"⟩ {}), .steps 10]

/-- The news are awaited on it. -/
def balconyAwaits : World := (balcony.2.perform 1 (.awaitEvent "x" "news")).1

/-- The component is torn down. -/
def balconyTorn : List Moment × World :=
  balconyAwaits.play [.steps 10, .command 2 (.teardown ⟨"a"⟩), .steps 10]

/-- The client closes the connection. -/
def balconyShut : List Moment × World :=
  balconyAwaits.play [.steps 10, .command 2 (.close "x"), .steps 10]

theorem balcony_runs : Run lobby balcony.1 balcony.2 := .of_play lobby rfl

theorem balcony_open : ∃ handle, balcony.2.handle? "x" = some handle ∧ handle.connection = 1 ∧
    balcony.2.isConnected 1 = true := ⟨_, rfl, rfl, rfl⟩

/-- With the component the call ends. -/
theorem told_at_teardown : balconyTorn.2.ready = [] ∧ balconyTorn.2.isConnected 1 = false ∧
    (balcony.2.awaiting 1 1 "news").IsOver balconyTorn.1 balconyTorn.2 := by
  have hidle : balconyTorn.2.parked = [] := rfl
  have hquiet : balconyTorn.2.ready = [] := rfl
  have hafter : Run balconyAwaits balconyTorn.1 balconyTorn.2 := .of_play balconyAwaits rfl
  obtain ⟨handle, hhandle, hconnection, hlive⟩ := balcony_open
  have hends := awaited_event_ends_with_connection lobby_blank balcony_runs hhandle
    (hconnection ▸ hlive) hafter hquiet
  rw [hconnection] at hends
  refine ⟨hquiet, rfl, hends.resolve_right ?_⟩
  rintro ⟨⟨⟨p, hp, -⟩, -, -⟩, -⟩
  rw [hidle] at hp
  cases hp

/-- When the client only closes the connection it waits on. -/
theorem waits_on_closed_connection :
    ¬ ∀ (w₀ w u : World) (log₀ log : List Moment) (name event : String) (ticket : Nat)
      (handle : Handle), w₀.Blank → Run w₀ log₀ w → w.handle? name = some handle →
      w.isConnected handle.connection = true →
      Run (w.perform ticket (.awaitEvent name event)).1 log u → u.ready = [] →
      u.isConnected handle.connection = false →
      (w.awaiting handle.connection ticket event).IsOver log u := by
  intro h
  obtain ⟨handle, hhandle, hconnection, hlive⟩ := balcony_open
  have hdown : balconyShut.2.isConnected 1 = false := rfl
  have hover :=
    h lobby balcony.2 balconyShut.2 balcony.1 balconyShut.1 "x" "news" 1 handle lobby_blank
      balcony_runs hhandle (hconnection ▸ hlive) (.of_play balconyAwaits rfl) rfl
      (hconnection ▸ hdown)
  have hwaits : ⟨2, .receive 0 (.reply 1 "news")⟩ ∈ balconyShut.2.tasks := List.mem_cons_self
  exact hover.gone _ hwaits

end World

end Patchbay
