import Patchbay.Proofs.Answers.Mentions

/-!
What one turn does about cells. It asks: an emit that wants an answer gets a cell and a number of
its own, and so does its server's answer. Or it goes on with what is said in the world: it fills
what it is there to fill, and says of a cell what follows from what was said.
-/

namespace Patchbay

/-- What may be said of cells, what may be put into them, and which emits may be settled. -/
structure Permit where
  mentions : Mention → Prop
  puts : CellId → Json → Prop
  settles : Nat → Nat → Json → Prop

namespace Change

/-- A change within the permit. No emit begins to wait by it. -/
def Within (g : Permit) : Change → Prop
  | .spawn job => ∀ m, job.mention? = some m → g.mentions m
  | .hold cell => g.mentions (.held cell)
  | .listen _ _ (.await cell) _ => g.mentions (.awaited cell)
  | .answer cell v => g.puts cell v
  | .settle n key v => g.settles n key v
  | .expect .. => False
  | .record (.emitted _ _ _ acked) => acked = false
  | _ => True

variable {g : Permit} {c : Change}

theorem Among.within
    (h : c.Among (Kind.but [.spawn, .hold, .await, .answer, .settle, .expect, .emission])) :
    c.Within g := by
  cases c with
  | record event => cases event <;> first | exact trivial | exact h.elim
  | listen serial event action once => cases action <;> first | exact trivial | exact h.elim
  | _ => first | exact trivial | exact h.elim

theorem Basic.within (h : c.Basic) : c.Within g := Among.within (h.mono rfl)

theorem Orders.within (h : c.Orders) : c.Within g := by
  cases c with
  | spawn job =>
    intro m hm
    rw [h.2] at hm
    cases hm
  | dial => trivial
  | _ => exact Basic.within h

theorem Undoes.within (h : c.Undoes) : c.Within g := Among.within (h.mono rfl)

theorem Enters.within (h : c.Enters) : c.Within g := Among.within (h.mono rfl)

theorem Wires.within (h : c.Wires) : c.Within g := Among.within (h.among.mono rfl)

theorem Acquires.within (h : c.Acquires) : c.Within g := Among.within (h.mono rfl)

theorem Settles.within (h : c.Settles) : c.Within g := Among.within (h.mono rfl)

theorem Shuts.within {serial : Nat} (h : c.Shuts serial) : c.Within g :=
  Among.within (h.among.mono rfl)

theorem Delivers.within {ack : Option CellId} {awaits : CellId → Prop} (h : c.Delivers ack awaits)
    (hawaits : ∀ cell v, awaits cell → g.puts cell v)
    (hack : ∀ cell, ack = some cell → g.mentions (.called cell) ∧ ∀ v, g.puts cell v) :
    c.Within g := by
  cases c with
  | spawn job =>
    cases job with
    | hook hook argument after =>
      cases after with
      | served responder =>
        intro m hm
        obtain ⟨cell, hcell, rfl⟩ := Option.map_eq_some_iff.1 hm
        rcases h with hnone | hsame
        · rw [hnone] at hcell
          cases hcell
        · exact (hack cell (hsame ▸ hcell)).1
      | _ => exact h.elim
    | _ => exact h.elim
  | answer cell v =>
    rcases h with hcell | hcell
    · exact (hack cell hcell).2 v
    · exact hawaits cell v hcell
  | enqueue | spend => trivial
  | _ => exact Basic.within h

end Change

/-- An emit that wants an answer: how it went to the server, the number it waits under and the cell
it waits for; and where the server is to answer, if there is one. -/
structure Ask where
  serial : Nat
  key : Nat
  event : String
  payload : Json
  cell : CellId
  responder : Option CellId

namespace World

variable {g : Permit} {w w' : World} {n : Nat} {event : String} {payload : Json} {cell : CellId}

/-- What the server would reply now. -/
def reply? (w : World) (n : Nat) (event : String) (payload : Json) : Option PeerReply :=
  (w.connection? n).bind fun c =>
    (w.server? c.namespaceName event).map fun server => server.reply server.calls payload

/-! Asking -/

/-- The emit goes out, and its server is asked if there is one. -/
def ask (w : World) (a : Ask) : World :=
  let asked := ((w.apply .newCell).apply
    (.record (.emitted a.serial a.event a.payload true))).apply (.expect a.serial a.cell)
  match a.responder with
  | none => asked
  | some r => ((asked.apply .newCell).apply (.spawn (.receive r (.forward a.serial a.key)))).apply
      (.spawn (.serve a.serial a.event a.payload (some r)))

/-- The emit may go out now: the connection is open, and what it gets is its own. -/
structure Begins (a : Ask) (w : World) : Prop where
  live : w.isConnected a.serial = true
  cell : a.cell = w.cells.length
  key : a.key = w.nextKey a.serial
  responder : ∀ r, a.responder = some r → r = w.cells.length + 1
  served : a.responder ≠ none → w.reply? a.serial a.event a.payload ≠ none

/-- The emit goes out, and a task waits for its answer: the one that emitted, or a new one. -/
inductive Asks (a : Ask) (w : World) : World → Prop
  | resumes {job : Job} (hjob : job.mention? = some (.client a.cell)) :
      Asks a w ((w.ask a).resume job)
  | starts {job : Job} (hjob : job.mention? = some (.client a.cell)) :
      Asks a w ((w.ask a).spawn job)

/-- An emit that is taken with a new cell for its answer goes out. -/
theorem send_asks (hsend : w.newCell.1.send n event payload (some w.cells.length) = .ok w') :
    ∃ a, Begins a w ∧ (a.serial = n ∧ a.event = event ∧ a.payload = payload) ∧ w' = w.ask a := by
  obtain ⟨c, hc, hconnected, rfl⟩ := send_some hsend
  have hc' : w.connection? n = some c := hc
  have hlive : w.isConnected n = true := by simpa only [isConnected, hc'] using hconnected
  have hkey : c.nextKey = w.nextKey n := (nextKey_of_connection? hc').symm
  rcases route_keyed ((w.newCell.1.apply (.record (.emitted n event payload true))).apply
    (.expect n w.cells.length)) n c.namespaceName event payload c.nextKey with heq | ⟨hserver, heq⟩
  · rw [heq]
    exact ⟨⟨n, c.nextKey, event, payload, w.cells.length, none⟩,
      ⟨hlive, rfl, hkey, fun _ h => (by cases h), fun h => absurd rfl h⟩, ⟨rfl, rfl, rfl⟩, rfl⟩
  · have hcells : ((w.newCell.1.apply (.record (.emitted n event payload true))).apply
        (.expect n w.cells.length)).cells.length = w.cells.length + 1 := List.length_append
    rw [heq, hcells]
    refine ⟨⟨n, c.nextKey, event, payload, w.cells.length, some (w.cells.length + 1)⟩,
      ⟨hlive, rfl, hkey, fun r hr => (Option.some.inj hr).symm, fun _ hnone => hserver ?_⟩,
      ⟨rfl, rfl, rfl⟩, rfl⟩
    have hunserved : w.server? c.namespaceName event = none := by
      simpa only [reply?, hc', Option.bind_some, Option.map_eq_none_iff] using hnone
    exact hunserved

/-! Going on -/

/-- The permit has all that may come of what is said now, in a turn from `w` to `w'`. -/
structure Covers (g : Permit) (w w' : World) : Prop where
  fresh : ∀ cell, w.cells.length ≤ cell → cell < w'.cells.length →
    (g.mentions (.client cell) ∧ g.mentions (.called cell) ∧ g.mentions (.awaited cell)) ∧
      ∀ v, g.puts cell v
  awaited : ∀ cell v, w.Mentions (.awaited cell) → g.puts cell v
  called : ∀ cell v, w.Mentions (.called cell) → g.puts cell v
  held : ∀ cell n reply, w.Mentions (.replied cell n reply) → reply.answer = .hold →
    g.mentions (.held cell)
  replied : ∀ cell n reply v, w.Mentions (.replied cell n reply) → reply.answer = .value v →
    g.puts cell v

theorem Makes.awaits {P : Change → Prop} (h : Makes P w w')
    (hP : ∀ serial event cell once, ¬ P (.listen serial event (.await cell) once))
    (hawaits : w'.Awaits cell) : w.Awaits cell := by
  induction h with
  | nothing => exact hawaits
  | more ch _ hch ih =>
    rcases awaits_apply hawaits with hold | ⟨serial, event, once, rfl⟩
    · exact ih hold
    · exact absurd hch (hP serial event cell once)

theorem deliver_within (w : World) (serial : Nat) (event : String) (payload : Json)
    (ack : Option CellId) (hawaits : ∀ cell v, w.Awaits cell → g.puts cell v)
    (hack : ∀ cell, ack = some cell → g.mentions (.called cell) ∧ ∀ v, g.puts cell v) :
    Makes (Change.Within g) w (w.deliver serial event payload ack) :=
  (deliver_makes w serial event payload ack).mono fun _ hc => hc.within hawaits hack

theorem pushes_within (w : World) (serial : Nat) (pushes : List (String × Json))
    (hawaits : ∀ cell v, w.Awaits cell → g.puts cell v) : Makes (Change.Within g) w
      (pushes.foldl (fun w push => w.deliver serial push.1 push.2 none) w) := by
  induction pushes generalizing w with
  | nil => exact .nothing
  | cons push rest ih =>
    have hpush := deliver_makes w serial push.1 push.2 none
    refine (deliver_within w serial push.1 push.2 none hawaits nofun).trans (ih _ ?_)
    exact fun cell v h => hawaits cell v (hpush.awaits (fun _ _ _ _ hlisten => hlisten.elim) h)

theorem serveEnd_within (w : World) (serial : Nat) (reply : PeerReply) (ack : Option CellId)
    (hawaits : ∀ cell v, w.Awaits cell → g.puts cell v)
    (hheld : ∀ cell, ack = some cell → reply.answer = .hold → g.mentions (.held cell))
    (hvalue : ∀ cell v, ack = some cell → reply.answer = .value v → g.puts cell v) :
    Makes (Change.Within g) w (w.serveEnd serial reply ack) := by
  have hpushes := pushes_within w serial reply.pushes hawaits
  have hclosed : Makes (Change.Within g) w (if reply.disconnect then
      (reply.pushes.foldl (fun w push => w.deliver serial push.1 push.2 none) w).close serial
      else reply.pushes.foldl (fun w push => w.deliver serial push.1 push.2 none) w) := by
    split
    · exact hpushes.trans ((close_makes _ serial).mono fun _ hc => hc.within)
    · exact hpushes
  refine hclosed.trans ?_
  cases ack with
  | none => exact .nothing
  | some cell =>
    cases hanswer : reply.answer with
    | hold =>
      simp only [serveEnd, hanswer]
      exact .one (.hold cell) (hheld cell rfl hanswer)
    | drop =>
      simp only [serveEnd, hanswer]
      exact .one (.abandon cell) trivial
    | value v =>
      simp only [serveEnd, hanswer]
      exact .one (.answer cell v) (hvalue cell v rfl hanswer)

/-- An emit that wants no answer leaves no cell behind. -/
theorem send_none_within (hsend : w.send n event payload none = .ok w') :
    Makes (Change.Within g) w w' := by
  unfold send at hsend
  split at hsend
  · cases hsend
  · split at hsend
    · cases hsend
    · obtain rfl := Except.ok.inj hsend
      have hrecord : Makes (Change.Within g) w (w.record (.emitted n event payload false)) :=
        .one (.record _) rfl
      refine hrecord.trans ?_
      unfold route
      split
      · exact .nothing
      · exact .one (.spawn _) nofun

/-! Jobs -/

/-- What the running task goes on to say it said already, or may say. -/
def Continues (g : Permit) (job next : Job) : Prop :=
  ∀ m, next.mention? = some m → job.mention? = some m ∨ g.mentions m

theorem Continues.of_silent {job next : Job} (h : next.mention? = none) : Continues g job next := by
  intro m hm
  rw [h] at hm
  cases hm

theorem transmit_within (w : World) (run : EmitRun) (after : AfterEmit) :
    (∃ a, Begins a w ∧ Asks a w (w.transmit run after)) ∨
      Does (Change.Within g) (Continues g (.transmit run after)) w (w.transmit run after) := by
  cases w.transmit_atTransport run after with
  | refused _ _ heq =>
    rw [heq]
    exact .inr (Makes.nothing.resumes (.of_silent rfl))
  | sent _ hsend heq =>
    rw [heq]
    exact .inr ((send_none_within hsend).resumesHook (fun _ _ => .of_silent rfl) (.of_silent rfl))
  | rejected _ _ heq =>
    rw [heq]
    exact .inr ((Makes.one .newCell trivial).resumes (.of_silent rfl))
  | asked _ hsend heq =>
    obtain ⟨a, hbegins, -, rfl⟩ := send_asks hsend
    rw [heq]
    exact .inl ⟨a, hbegins, .resumes (by rw [hbegins.cell]; rfl)⟩

theorem serve_within (w : World) (n : Nat) (event : String) (payload : Json) (ack : Option CellId)
    (hserved : ∀ cell reply, ack = some cell → w.reply? n event payload = some reply →
      g.mentions (.replied cell n reply)) :
    Does (Change.Within g) (Continues g (.serve n event payload ack)) w
      (w.serve n event payload ack) := by
  unfold serve
  split
  · exact ((abandonIf_makes w ack).mono fun _ hc => hc.within).ends
  · rename_i c hc
    split
    · exact ((abandonIf_makes w ack).mono fun _ hc => hc.within).ends
    · rename_i server hserver
      refine (Makes.more (.countServed c.namespaceName event) (.one (.record _) trivial)
        trivial).resumesAfter ?_ _
      intro m hm
      obtain ⟨cell, hcell, rfl⟩ := Option.map_eq_some_iff.1 hm
      refine .inr (hserved cell _ hcell ?_)
      simp only [reply?, hc, Option.bind_some, hserver, Option.map_some]

theorem receive_within (w : World) (cell : CellId) (after : AfterAnswer)
    (hsettled : ∀ n key v, after = .forward n key → w.cell cell = .answered v → g.settles n key v) :
    Does (Change.Within g) (Continues g (.receive cell after)) w (w.receive cell after) := by
  cases hcell : w.cell cell with
  | empty =>
    simp only [receive, hcell]
    exact Makes.nothing.parks (fun _ hm => .inl hm) _ _
  | answered v =>
    cases after with
    | forward n key =>
      simp only [receive, hcell, resolve_eq]
      exact (Makes.one (.settle n key v) (hsettled n key v rfl hcell)).ends
    | reply | raw =>
      simp only [receive, hcell]
      exact (Makes.one (.report _ _) trivial).ends
  | abandoned =>
    cases after with
    | forward n key =>
      simp only [receive, hcell]
      exact Makes.nothing.ends
    | reply | raw =>
      simp only [receive, hcell]
      exact (Makes.one (.report _ _) trivial).ends

/-- Most jobs go on with what they said, or say no more. -/
theorem exec_continues (w : World) {job : Job} (hmay : ∀ c, job.May c → c.Within g)
    (hturns : job.turns = false) :
    Does (Change.Within g) (Continues g job) w (w.exec job) := by
  refine (exec_does w job).mono hmay ?_
  intro next hleads
  rcases hleads.mention with hturns' | hnone | hsame
  · exact nomatch hturns.symm.trans hturns'
  · exact .of_silent hnone
  · exact fun m hm => .inl (hsame ▸ hm)

/-- A job asks, or does what a permit has that covers its turn; then a server's reply may go on to
its answer, and an answer that is there to its emit. -/
theorem exec_within {task : Task} {rest : List Task} (hready : w.ready = task :: rest)
    (hcovers : Covers g w ((w.begin task rest).exec task.job))
    (hserved : ∀ n event payload cell reply, task.job = .serve n event payload (some cell) →
      (w.begin task rest).reply? n event payload = some reply → g.mentions (.replied cell n reply))
    (hsettled : ∀ cell n key v, task.job = .receive cell (.forward n key) →
      w.cell cell = .answered v → g.settles n key v) :
    (∃ a, Begins a (w.begin task rest) ∧
      Asks a (w.begin task rest) ((w.begin task rest).exec task.job)) ∨
    Does (Change.Within g) (Continues g task.job) (w.begin task rest)
      ((w.begin task rest).exec task.job) := by
  have hsaid {m : Mention} (hm : task.job.mention? = some m) : w.Mentions m :=
    mentions_running hready hm
  cases hjob : task.job with
  | transmit run after => exact transmit_within _ run after
  | serve n event payload ack =>
    refine .inr (serve_within _ n event payload ack ?_)
    rintro cell reply rfl hreply
    exact hserved n event payload cell reply hjob hreply
  | serveEnd n reply ack =>
    rw [hjob] at hsaid
    refine .inr (Makes.ends (serveEnd_within _ n reply ack ?_ ?_ ?_))
    · exact fun cell v h => hcovers.awaited cell v (.awaited h)
    · rintro cell rfl hhold
      exact hcovers.held cell n reply (hsaid rfl) hhold
    · rintro cell v rfl hvalue
      exact hcovers.replied cell n reply v (hsaid rfl) hvalue
  | receive cell after =>
    refine .inr (receive_within _ cell after ?_)
    rintro n key v rfl hcell
    exact hsettled cell n key v hjob hcell
  | hookDone verdict after =>
    cases after with
    | served ack =>
      have hanswer (v : Json) : Makes (Change.Within g) (w.begin task rest)
          ((w.begin task rest).answerIf ack v) := by
        cases ack with
        | none => exact .nothing
        | some cell =>
          rw [hjob] at hsaid
          exact .one (.answer cell v) (hcovers.called cell v (hsaid rfl))
      refine .inr ?_
      cases verdict with
      | ok v => exact (hanswer v).ends
      | error text => exact (hanswer _).ends
    | _ => exact .inr (exec_continues _ (fun _ hc => Change.Basic.within hc) rfl)
  | connect ticket name owner opts =>
    refine .inr (exec_continues _ ?_ rfl)
    rintro c (hacquires | henters | hwires | hfinishes)
    · exact hacquires.within
    · exact henters.within
    · exact hwires.within
    · exact hfinishes.undoes.within
  | emitDone result after =>
    cases after with
    | discovery c =>
      exact .inr (exec_continues _ (fun _ hc => (Change.Finishes.undoes hc).within) rfl)
    | _ => exact .inr (exec_continues _ (fun _ hc => Change.Basic.within hc) rfl)
  | settle result run after =>
    exact .inr (exec_continues _ (fun _ hc => Change.Settles.within hc) rfl)
  | watch back =>
    refine .inr (exec_continues _ ?_ rfl)
    rintro c (_ | _ | _)
    · exact trivial
    · exact nofun
    · exact trivial
  | work worker =>
    refine .inr (exec_continues _ ?_ rfl)
    intro c hc
    rcases Change.Takes.eq_dequeue_or hc with rfl | hbasic
    · exact trivial
    · exact hbasic.within
  | _ => exact .inr (exec_continues _ (fun _ hc => Change.Basic.within hc) rfl)

/-! Commands -/

theorem newCell_lt {P : Change → Prop} (h : Makes P (w.apply .newCell) w') :
    w.cells.length < w'.cells.length := by
  have hlater := h.grows.cells
  simp only [apply, newCell, List.length_append, List.length_singleton] at hlater
  omega

/-- An event is awaited in a new cell. -/
theorem await_within (w : World) (ticket n : Nat) (event : String)
    (hcovers : Covers g w ((w.newCell.1.listen n event (.await w.cells.length) true).1.spawn
      (.receive w.cells.length (.reply ticket event)))) :
    Makes (Change.Within g) w ((w.newCell.1.listen n event (.await w.cells.length) true).1.spawn
      (.receive w.cells.length (.reply ticket event))) := by
  rw [listen_eq] at hcovers ⊢
  have hlater : Makes (fun _ => True) (w.apply .newCell)
      (((w.apply .newCell).apply (.listen n event (.await w.cells.length) true)).apply
        (.spawn (.receive w.cells.length (.reply ticket event)))) :=
    .more _ (.one _ trivial) trivial
  obtain ⟨⟨hclient, -, hawaited⟩, -⟩ :=
    hcovers.fresh w.cells.length (Nat.le_refl _) (newCell_lt hlater)
  refine .more (.spawn _) (.more (.listen ..) (.one .newCell trivial) hawaited) ?_
  intro m hm
  obtain rfl := Option.some.inj hm
  exact hclient

/-- A peer's request is answered in a new cell. -/
theorem request_within (w : World) (ticket n : Nat) (event : String) (payload : Json)
    (hcovers : Covers g w ((w.newCell.1.deliver n event payload (some w.cells.length)).spawn
      (.receive w.cells.length (.raw ticket)))) :
    Makes (Change.Within g) w ((w.newCell.1.deliver n event payload (some w.cells.length)).spawn
      (.receive w.cells.length (.raw ticket))) := by
  have hlater : Makes (fun _ => True) (w.apply .newCell)
      ((w.newCell.1.deliver n event payload (some w.cells.length)).apply
        (.spawn (.receive w.cells.length (.raw ticket)))) :=
    .more _ ((deliver_makes ..).mono fun _ _ => trivial) trivial
  obtain ⟨⟨hclient, hcalled, -⟩, hputs⟩ :=
    hcovers.fresh w.cells.length (Nat.le_refl _) (newCell_lt hlater)
  have hdelivered : Makes (Change.Within g) w.newCell.1
      (w.newCell.1.deliver n event payload (some w.cells.length)) := by
    refine deliver_within _ n event payload _ ?_ ?_
    · intro cell v hawaits
      exact hcovers.awaited cell v (.awaited hawaits)
    · rintro cell hcell
      obtain rfl := Option.some.inj hcell
      exact ⟨hcalled, hputs⟩
  refine .more (.spawn _) (.trans (.one .newCell trivial) hdelivered) ?_
  intro m hm
  obtain rfl := Option.some.inj hm
  exact hclient

theorem startBare_within (w : World) (ticket n : Nat) (event : String) (payload : Json) :
    (∃ a, Begins a w ∧ Asks a w (w.startBare ticket n event payload).1) ∨
      Makes (Change.Within g) w (w.startBare ticket n event payload).1 := by
  unfold startBare
  dsimp only
  split
  · exact .inr (.one .newCell trivial)
  · rename_i hsend
    obtain ⟨a, hbegins, -, rfl⟩ := send_asks hsend
    exact .inl ⟨a, hbegins, .starts (by rw [hbegins.cell]; rfl)⟩

theorem startSend_within (w : World) (ticket n : Nat) (event : String) (payload : Json)
    (ack : Bool) :
    (∃ a, Begins a w ∧ Asks a w (w.startSend ticket n event payload ack).1) ∨
      Makes (Change.Within g) w (w.startSend ticket n event payload ack).1 := by
  unfold startSend
  dsimp only
  split
  · split
    · exact .inr (.one .newCell trivial)
    · rename_i hsend
      obtain ⟨a, hbegins, -, rfl⟩ := send_asks hsend
      exact .inl ⟨a, hbegins, .starts (by rw [hbegins.cell]; rfl)⟩
  · split
    · exact .inr .nothing
    · rename_i hsend
      exact .inr (send_none_within hsend)

/-- A command asks, or does what a permit has that covers its turn, where a responder that was kept
may be used. -/
theorem perform_within (w : World) (ticket : Nat) {c : Command} (hc : ∀ ms, c ≠ .wait ms)
    (hcovers : Covers g w (w.perform ticket c).1)
    (hlate : ∀ i cell v, c = .answer i v → w.held[i]? = some (some cell) → g.puts cell v) :
    (∃ a, Begins a w ∧ Asks a w (w.perform ticket c).1) ∨
      Makes (Change.Within g) w (w.perform ticket c).1 := by
  have hawaits (cell : CellId) (v : Json) (h : w.Awaits cell) : g.puts cell v :=
    hcovers.awaited cell v (.awaited h)
  cases hspeaks : c.speaks with
  | false =>
    refine .inr ((perform_silent w ticket hc hspeaks).mono ?_)
    rintro ch (horders | hundoes)
    · exact horders.within
    · exact hundoes.within
  | true =>
    cases c with
    | emitBare name event payload =>
      cases hhandle : w.handle? name with
      | none => exact .inr (by simp only [perform, withHandle, hhandle]; exact .nothing)
      | some handle =>
        simp only [perform, withHandle, hhandle]
        exact startBare_within ..
    | send name event payload ack =>
      cases hhandle : w.handle? name with
      | none => exact .inr (by simp only [perform, withHandle, hhandle]; exact .nothing)
      | some handle =>
        simp only [perform, withHandle, hhandle]
        exact startSend_within ..
    | awaitEvent name event =>
      refine .inr ?_
      cases hhandle : w.handle? name with
      | none =>
        simp only [perform, withHandle, hhandle]
        exact .nothing
      | some handle =>
        simp only [perform, withHandle, hhandle] at hcovers ⊢
        exact await_within w ticket handle.connection event hcovers
    | push name event payload =>
      refine .inr (withPeer_makes w name fun serial => ?_)
      exact deliver_within w serial event payload none hawaits (fun _ h => by cases h)
    | request name event payload =>
      refine .inr ?_
      cases hhandle : w.handle? name with
      | none =>
        simp only [perform, withPeer, withHandle, hhandle]
        exact .nothing
      | some handle =>
        cases hlisted : w.hub.contains handle.connection with
        | false =>
          simp only [perform, withPeer, withHandle, hhandle, hlisted, Bool.false_eq_true,
            ↓reduceIte]
          exact .nothing
        | true =>
          simp only [perform, withPeer, withHandle, hhandle, hlisted, ↓reduceIte] at hcovers ⊢
          exact request_within w ticket handle.connection event payload hcovers
    | answer i v =>
      refine .inr ?_
      cases hheld : w.held[i]?.join with
      | none =>
        simp only [perform, answerHeld, hheld]
        exact .nothing
      | some cell =>
        have hputs : g.puts cell v := hlate i cell v rfl (Option.join_eq_some_iff.1 hheld)
        simp only [perform, answerHeld, hheld]
        exact .more (.answer cell v) (.one (.unhold i) trivial) hputs
    | _ => cases hspeaks

end World
end Patchbay
