import Patchbay.Proofs.Answers.Correlation

/-!
Closed connections. The hub lists the connections that are open, and nothing waits on a closed one.
A connection that was closed stays closed, and whatever is tried on it then, from either side, moves
nothing: no emit goes out, no delivery is heard, no answer arrives.
-/

namespace Patchbay

/-- An emit begins to wait on that connection. -/
def Change.Parks (n : Nat) : Change → Prop
  | .expect serial _ => serial = n
  | _ => False

namespace World

variable {w₀ w w' : World} {log : List Moment} {n : Nat} {ch : Change} {event : String}
  {payload : Json}

/-! Being listed -/

/-- A connection is as open as it was, unless it is shut. -/
theorem isConnected_apply_iff (w : World) (hdial : ∀ url name, ch ≠ .dial url name) (n : Nat) :
    (w.apply ch).isConnected n = true ↔ w.isConnected n = true ∧ ch ≠ .shut n := by
  by_cases hshut : ch = .shut n
  · subst hshut
    rw [isConnected, connection?_apply_of_ne hdial]
    cases w.connection? n <;> simp [Change.reshape]
  · simp [isConnected_apply_of_ne hdial hshut, hshut]

/-- The hub lists the connections that are open, and no others. -/
def ListsOpen (w : World) : Prop := ∀ n, w.isConnected n = true ↔ n ∈ w.hub

theorem ListsOpen.apply (h : w.ListsOpen) (ch : Change) : (w.apply ch).ListsOpen := by
  intro n
  by_cases hdial : ∃ url name, ch = .dial url name
  · obtain ⟨url, name, rfl⟩ := hdial
    have hhub : (w.apply (.dial url name)).hub = w.hub ++ [w.connections.length + 1] := rfl
    rw [isConnected_dial, hhub, List.mem_append, List.mem_singleton, ← h n]
    split <;> simp [*]
  · have hdial' : ∀ url name, ch ≠ .dial url name := fun url name heq => hdial ⟨url, name, heq⟩
    rw [isConnected_apply_iff w hdial', mem_hub_apply w hdial', h n]

theorem Run.listsOpen (h : Run w₀ log w) (h₀ : w₀.ListsOpen) : w.ListsOpen :=
  h.keeps (fun _ ch hw => ListsOpen.apply hw ch) (fun _ _ _ _ _ hw => hw) h₀

/-! Waiting -/

/-- Nothing waits on a connection that is not open. -/
def WaitsOpen (w : World) : Prop := ∀ n, w.isConnected n = false → w.waitingOn n = []

/-- Where nothing waits, nothing does after a change, unless it is that an emit begins to. -/
theorem waitingOn_apply_eq_nil (h : w.waitingOn n = []) (hch : ¬ ch.Parks n) :
    (w.apply ch).waitingOn n = [] := by
  refine List.eq_nil_iff_forall_not_mem.2 ?_
  rintro ⟨key, cell⟩ hmem
  rcases mem_waitingOn_apply hmem with hold | ⟨rfl, -⟩
  · rw [h] at hold
    cases hold
  · exact hch rfl

theorem waitingOn_shut (w : World) (n : Nat) : (w.apply (.shut n)).waitingOn n = [] := by
  rw [waitingOn, connection?_apply_of_ne (by simp)]
  cases w.connection? n <;> simp [Change.reshape]

namespace WaitsOpen

theorem apply (h : w.WaitsOpen) (hch : ∀ n, ch.Parks n → w.isConnected n = true) :
    (w.apply ch).WaitsOpen := by
  intro n hdown
  cases hlive : w.isConnected n with
  | false => exact waitingOn_apply_eq_nil (h n hlive) fun hparks => by simp [hch n hparks] at hlive
  | true =>
    by_cases hshut : ch = .shut n
    · rw [hshut]
      exact waitingOn_shut w n
    · rw [isConnected_apply hlive hshut] at hdown
      cases hdown

theorem congr (h : w.WaitsOpen) (hconnections : w'.connections = w.connections) : w'.WaitsOpen := by
  intro n hdown
  rw [isConnected_congr hconnections] at hdown
  rw [waitingOn_congr hconnections, h n hdown]

theorem makes {g : Permit} (h : w.WaitsOpen) (hmakes : Makes (Change.Within g) w w') :
    w'.WaitsOpen :=
  hmakes.keeps (I := WaitsOpen) (fun _ ch hch hw => hw.apply fun n hparks => by
    cases ch <;> first | exact hch.elim | exact hparks.elim) h

/-- What an emit waits on is open. -/
theorem ask {a : Ask} (h : w.WaitsOpen) (hlive : w.isConnected a.serial = true) :
    (w.ask a).WaitsOpen := by
  have hsent :
      ((w.apply .newCell).apply (.record (.emitted a.serial a.event a.payload true))).WaitsOpen :=
    (h.apply fun _ => False.elim).apply fun _ => False.elim
  have hasked : (World.apply _ (.expect a.serial a.cell)).WaitsOpen :=
    hsent.apply (by rintro n rfl; exact hlive)
  unfold World.ask
  cases a.responder with
  | none => exact hasked
  | some r =>
    exact ((hasked.apply fun _ => False.elim).apply fun _ => False.elim).apply fun _ => False.elim

end WaitsOpen

theorem Run.waitsOpen (h : Run w₀ log w) (h₀ : w₀.WaitsOpen) : w.WaitsOpen := by
  have hasked {a : Ask} {w u : World} (hbegins : Begins a w) (hasks : Asks a w u)
    (hw : w.WaitsOpen) :
      u.WaitsOpen := by
    cases hasks <;> exact (hw.ask hbegins.live).congr rfl
  induction h with
  | start => exact h₀
  | @step log w task rest _ hready ih =>
    have hbegun : (w.begin task rest).WaitsOpen := ih.congr rfl
    rcases exec_within hready (freely_covers _ _) (fun _ _ _ _ _ _ _ => trivial)
      (fun _ _ _ _ _ _ => trivial) with ⟨a, hbegins, hasks⟩ | ⟨mid, e, hmid, -, heq⟩
    · exact hasked hbegins hasks hbegun
    · rw [← heq]
      cases e <;> exact (hbegun.makes hmid).congr rfl
  | command _ ticket hc ih =>
    rcases perform_within _ ticket hc (freely_covers _ _) (fun _ _ _ _ _ => trivial) with
      ⟨a, hbegins, hasks⟩ | hmakes
    · exact hasked hbegins hasks ih
    · exact ih.makes hmakes
  | pass _ _ ih => exact ih.congr rfl
  | wake _ ih => exact ih.congr rfl

/-! Closed connections -/

/-- The connection is closed, the hub has forgotten it and nothing waits on it. -/
structure Shut (n : Nat) (w : World) : Prop where
  opened : w.Opened n
  down : w.isConnected n = false
  unlisted : n ∉ w.hub
  idle : w.waitingOn n = []

theorem shut_of_closed (hlists : w.ListsOpen) (hwaits : w.WaitsOpen) (hopened : w.Opened n)
    (hdown : w.isConnected n = false) : Shut n w where
  opened := hopened
  down := hdown
  unlisted hmem := by
    rw [(hlists n).2 hmem] at hdown
    cases hdown
  idle := hwaits n hdown

theorem shut_close (hlive : w.isConnected n = true) : Shut n (w.close n) where
  opened := (opened_of_isConnected hlive).makes (close_makes w n)
  down := isConnected_close w n
  unlisted := by
    rw [close_eq hlive, mem_hub_apply w (by simp)]
    simp
  idle := by
    rw [close_eq hlive]
    exact waitingOn_shut w n

/-- How an emit on a closed connection fails. -/
def lost (n : Nat) (event : String) : TransportError :=
  .notConnected (ConnectionId.opened n).text event

namespace Shut

variable (h : Shut n w)
include h

/-- Whatever is done, it stays so, if no emit begins to wait. -/
theorem apply (hch : ¬ ch.Parks n) : Shut n (w.apply ch) := by
  have hdown : (w.apply ch).isConnected n = false := Bool.eq_false_iff.2 fun hlive =>
    Bool.false_ne_true (h.down.symm.trans (h.opened.isConnected_of_apply hlive))
  refine ⟨h.opened.apply ch, hdown, fun hmem => ?_, waitingOn_apply_eq_nil h.idle hch⟩
  by_cases hdial : ∃ url name, ch = .dial url name
  · obtain ⟨url, name, rfl⟩ := hdial
    -- The new connection is open, and this one is not.
    rcases List.mem_append.1 hmem with hold | hnew
    · exact h.unlisted hold
    · rw [isConnected_dial, if_pos (List.mem_singleton.1 hnew)] at hdown
      cases hdown
  · have hold := (mem_hub_apply w (fun url name heq => hdial ⟨url, name, heq⟩) n).1 hmem
    exact h.unlisted hold.1

theorem makes (hmakes : Makes (fun ch => ¬ ch.Parks n) w w') : Shut n w' :=
  hmakes.keeps (fun _ _ hch hw => Shut.apply hw hch) h

theorem send_eq (event : String) (payload : Json) (ack : Option CellId) :
    w.send n event payload ack = .error (lost n event) := by
  obtain ⟨c, hc⟩ := h.opened
  have hdown := h.down
  simp only [isConnected, hc] at hdown
  simp [send, hc, hdown, lost]

theorem deliver_eq (event : String) (payload : Json) (ack : Option CellId) :
    w.deliver n event payload ack = w.abandonIf ack := by
  obtain ⟨c, hc⟩ := h.opened
  have hdown := h.down
  simp only [isConnected, hc] at hdown
  simp [deliver, hc, hdown]

theorem resolve_eq_self (key : Nat) (v : Json) : w.resolve n key v = w := by
  rw [resolve_eq]
  simp [World.apply, h.idle]

theorem close_eq : w.close n = w := close_eq_self h.down

/-- Of a server's reply only the answer is left. -/
theorem serveEnd_eq (reply : PeerReply) (ack : Option CellId) :
    w.serveEnd n reply ack = w.serveEnd n { reply with pushes := [], disconnect := false } ack := by
  have hpushes (pushes : List (String × Json)) :
      pushes.foldl (fun w push => w.deliver n push.1 push.2 none) w = w := by
    induction pushes with
    | nil => rfl
    | cons push rest ih => rw [List.foldl_cons, h.deliver_eq, abandonIf, ih]
  simp only [serveEnd, hpushes, h.close_eq, ite_self]

end Shut

/-- Nobody heard anything: connections, servers and all that handlers write are as they were. What
may be left is a cell nobody fills, and tasks that are told so. -/
structure Unmoved (w w' : World) : Prop where
  connections : w'.connections = w.connections
  hub : w'.hub = w.hub
  servers : w'.servers = w.servers
  trace : w'.trace = w.trace
  components : w'.components = w.components
  store : w'.store = w.store
  workers : w'.workers = w.workers

theorem unmoved_abandonIf (w : World) (ack : Option CellId) : Unmoved w (w.abandonIf ack) := by
  cases ack with
  | none => constructor <;> rfl
  | some cell =>
    simp only [abandonIf, abandon, fill]
    cases w.cell cell <;> constructor <;> rfl

/-- Whatever is tried on the connection comes to nothing. -/
structure Inert (n : Nat) (w : World) : Prop extends Shut n w where
  emits : ∀ event payload ack, w.send n event payload ack = .error (lost n event)
  /-- An emit of the engine goes on to fail in the same way. -/
  transmits : ∀ run after, run.channel.connection = n → Unmoved w (w.transmit run after)
    ∧ (w.transmit run after).ready.head? = some ⟨w.running,
      if run.noAck then .emitDone (.error (.transport (lost n run.event))) after
      else .settle (.error (.transport (lost n run.event))) run after⟩
  starts : ∀ ticket event payload,
    (w.startBare ticket n event payload).2 = .failed (.emit (.transport (lost n event)))
    ∧ Unmoved w (w.startBare ticket n event payload).1
  sends : ∀ ticket event payload ack, (w.startSend ticket n event payload ack).2
      = .refused (lost n event)
    ∧ Unmoved w (w.startSend ticket n event payload ack).1
  hears : ∀ event payload ack, w.deliver n event payload ack = w.abandonIf ack
    ∧ Unmoved w (w.abandonIf ack)
  /-- The answer to an earlier emit. -/
  answers : ∀ key v, w.resolve n key v = w
  forwards : ∀ cell key, w.cell cell ≠ .empty → w.exec (.receive cell (.forward n key)) = w
  replies : ∀ reply ack,
    w.serveEnd n reply ack = w.serveEnd n { reply with pushes := [], disconnect := false } ack
  closes : w.close n = w

theorem Shut.inert (h : Shut n w) : Inert n w where
  toShut := h
  emits := h.send_eq
  transmits run after hn := by
    have hcell : Shut n w.newCell.1 := h.apply fun hparks : Change.Parks n .newCell => hparks
    subst hn
    cases w.transmit_atTransport run after with
    | refused hack hsend heq =>
      obtain rfl := Except.error.inj ((h.send_eq ..).symm.trans hsend)
      rw [heq, hack]
      exact ⟨by constructor <;> rfl, rfl⟩
    | rejected hack hsend heq =>
      obtain rfl := Except.error.inj ((hcell.send_eq ..).symm.trans hsend)
      rw [heq, hack]
      exact ⟨by constructor <;> rfl, rfl⟩
    | sent _ hsend => exact nomatch (h.send_eq ..).symm.trans hsend
    | asked _ hsend => exact nomatch (hcell.send_eq ..).symm.trans hsend
  starts ticket event payload := by
    have hcell : Shut n w.newCell.1 := h.apply fun hparks : Change.Parks n .newCell => hparks
    unfold startBare
    dsimp only
    rw [hcell.send_eq]
    exact ⟨rfl, by constructor <;> rfl⟩
  sends ticket event payload ack := by
    have hcell : Shut n w.newCell.1 := h.apply fun hparks : Change.Parks n .newCell => hparks
    unfold startSend
    dsimp only
    rw [hcell.send_eq, h.send_eq]
    cases ack <;> exact ⟨rfl, by constructor <;> rfl⟩
  hears event payload ack := ⟨h.deliver_eq event payload ack, unmoved_abandonIf w ack⟩
  answers := h.resolve_eq_self
  forwards cell key hcell := by
    simp only [exec, receive]
    cases hcontent : w.cell cell with
    | empty => exact absurd hcontent hcell
    | answered v => exact h.resolve_eq_self key v
    | abandoned => rfl
  replies := h.serveEnd_eq
  closes := h.close_eq

/-- At any time the hub lists the connections that are open, and nothing waits on another. Once a
connection is closed, in the midst of a turn or in any run from there, it stays closed and is
inert. -/
theorem closed_stays_inert (hconnections : w₀.connections = []) (hhub : w₀.hub = [])
    (hrun : Run w₀ log w) :
    (∀ n, w.isConnected n = true ↔ n ∈ w.hub) ∧
      (∀ n, w.isConnected n = false → w.waitingOn n = []) ∧
      (∀ (u x : World) n, u.isConnected n = true → Makes (fun ch => ¬ ch.Parks n) (u.close n) x →
        Inert n x) ∧
      ∀ n, w.Opened n → w.isConnected n = false → ∀ later w', Run w later w' →
        ∀ x, Makes (fun ch => ¬ ch.Parks n) w' x → Inert n x := by
  have hnone (n : Nat) : w₀.connection? n = none := by simp [connection?, hconnections]
  have hlists₀ : w₀.ListsOpen := by
    intro n
    simp [isConnected, hnone, hhub]
  have hwaits₀ : w₀.WaitsOpen := by
    intro n _
    simp [waitingOn, hnone]
  refine ⟨hrun.listsOpen hlists₀, hrun.waitsOpen hwaits₀, ?_, ?_⟩
  · intro u x n hlive hmakes
    exact ((shut_close hlive).makes hmakes).inert
  · intro n hopened hdown later w' hlater x hmakes
    have hopened' : w'.Opened n :=
      hlater.keeps (I := fun w => w.Opened n) (fun _ ch hw => Opened.apply hw ch)
        (fun _ _ _ _ _ hw => hw) hopened
    have hdown' : w'.isConnected n = false := Bool.eq_false_iff.2 fun hlive =>
      Bool.false_ne_true (hdown.symm.trans (hlater.isConnected_earlier hopened hlive))
    have hshut : Shut n w' :=
      shut_of_closed ((hrun.trans hlater).listsOpen hlists₀) ((hrun.trans hlater).waitsOpen hwaits₀)
        hopened' hdown'
    exact (hshut.makes hmakes).inert

/-- The peer closes a connection while an emit waits on it. -/
def deskClosed : List Moment × World := desk.play
  [.command 0 (.openBare "x" "http://home" "" []), .command 1 (.emitBare "x" "ask" .null),
    .steps 10, .command 2 (.kick "x"), .steps 10]

/-- Then the server answers, and the client emits again. -/
def deskLater : List Moment × World := deskClosed.2.play
  [.command 3 (.answer 0 (.str "late")), .steps 10, .command 4 (.emitBare "x" "ask" .null),
    .steps 10]

theorem inert_after_kick : deskClosed.2.hub = [] ∧ deskClosed.2.waitingOn 1 = [] ∧
    Inert 1 deskLater.2 ∧ deskLater.2.trace = deskClosed.2.trace := by
  have hrun : Run desk deskClosed.1 deskClosed.2 := .of_play _ rfl
  have hlater : Run deskClosed.2 deskLater.1 deskLater.2 := .of_play _ rfl
  obtain ⟨hlists, hwaits, -, hinert⟩ := closed_stays_inert rfl rfl hrun
  have hdown : deskClosed.2.isConnected 1 = false := rfl
  exact ⟨rfl, hwaits 1 hdown, hinert 1 ⟨_, rfl⟩ hdown _ _ hlater _ .nothing, rfl⟩

end World

end Patchbay
