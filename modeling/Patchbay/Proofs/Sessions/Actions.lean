import Patchbay.Proofs.Emit.Settlement
import Patchbay.Proofs.Sessions.Origins

/-!
The scope under which the store-level emit reports. It is that of a session on the connection, and
all that are on one connection are of one scope. While there is none, the label of the action stands
where that of the connection should.
-/

namespace Patchbay

/-- The emit of an action on a channel. -/
def EmitAction.run (a : EmitAction) (channel : Channel) : EmitRun :=
  { channel, event := a.event, msg := a.msg, noAck := a.noAck }

namespace World

variable {w₀ w w' : World} {log : List Moment} {o : Grant} {s : Session} {a : EmitAction}
  {handle : Option String} {scope : String} {n : Nat}

/-- Some session is on the connection. -/
def Tracks (w : World) (n : Nat) : Prop := ∃ s ∈ w.sessions, s.channel.connection = n

/-- The connection that an action finds: that of the handle, or the one kept under its label. -/
def found? (w : World) (handle : Option String) (a : EmitAction) : Option Nat :=
  match handle with
  | none => a.label.bind w.persistedForLabel
  | some name => (w.handle? name).map (·.connection)

/-- The action on a connection as an emit under this scope. -/
def actionRun (w : World) (a : EmitAction) (n : Nat) (scope : String) : EmitRun :=
  a.run ⟨n, scope, a.emitTimeout <|> w.sockets.timeout scope⟩

/-- The action that was given on a connection reports under the scope: it takes its timeout from
there unless it brings one, and if it is rejected that is recorded there, under its event, and
nowhere else. An action without an acknowledgment is never recorded. -/
structure ReportsUnder (w : World) (ticket : Nat) (handle : Option String)
    (a : EmitAction) (n : Nat) (scope : String) : Prop where
  starts : w.perform ticket (.emitAction handle a) =
    (w.spawn (.emit (w.actionRun a n scope) (.answer ticket)), .later)
  records : ∀ later w', Run (w.perform ticket (.emitAction handle a)).1 later w' →
    let own := later.filter (·.task.id == w.started + 1)
    (∀ m ∈ own, ∀ scope' event, m.after.sockets.errorsOf scope' event =
      m.world.sockets.errorsOf scope' event ++ m.recorded scope' event) ∧
    ∀ e, .error e ∈ (EmitRun.Seen.of own).outcomes → ∃ stamp, ∀ scope' event,
      (EmitRun.Seen.of own).recorded scope' event =
        if a.noAck = false ∧ scope' = scope ∧ event = a.event then [e.toRecord a.event a.msg stamp]
        else []

/-! The connection and its scope -/

/-- The scope of an action on a connection. -/
def actionScope (w : World) (a : EmitAction) (n : Nat) : String :=
  (w.scopeOf n).getD (a.label.getD "" ++ ((w.connection? n).map (·.namespaceName)).getD "")

theorem perform_emitAction (h : w.found? handle a = some n) (ticket : Nat) :
    w.perform ticket (.emitAction handle a) =
      (w.spawn (.emit (w.actionRun a n (w.actionScope a n)) (.answer ticket)), .later) := by
  cases handle with
  | none =>
    have hlabel : a.label.bind w.persistedForLabel = some n := h
    simp only [perform, startAction?, actionChannel, hlabel]
    rfl
  | some name =>
    obtain ⟨handle, hhandle, rfl⟩ := Option.map_eq_some_iff.1 h
    simp only [perform, withHandle, hhandle]
    rfl

theorem scopeOf_of_untracked (h : ¬ w.Tracks n) : w.scopeOf n = none := by
  refine Option.map_eq_none_iff.2 (List.find?_eq_none.2 fun s hs hn => ?_)
  exact h ⟨s, hs, by simpa using hn⟩

theorem scopeOf_of_tracked (h : w.Tracks n)
    (hscope : ∀ s ∈ w.sessions, s.channel.connection = n → s.channel.scope = scope) :
    w.scopeOf n = some scope := by
  cases hfind : w.sessions.find? (·.channel.connection == n) with
  | none =>
    obtain ⟨s, hs, hn⟩ := h
    exact absurd hn (by simpa using List.find?_eq_none.1 hfind s hs)
  | some s =>
    have hn := List.find?_some hfind
    refine Option.map_eq_some_iff.2 ⟨s, hfind, hscope s (List.mem_of_find?_eq_some hfind) ?_⟩
    simpa using hn

/-- A session is of the scope under which its connection was opened. -/
theorem Rooted.scope_eq (h : Rooted log w) (hgranted : Granted (grants log) w) (ho : o ∈ grants log)
    (hs : s ∈ w.sessions) (hsame : s.channel.connection = o.serial) :
    s.channel.scope = o.resolved.scope := by
  obtain ⟨g, hissued⟩ := h.sessions s hs
  rw [← hissued.channel_eq] at hsame ⊢
  exact (hgranted.slot_eq hissued.mem_grants ho hsame).1

theorem actionScope_of_tracked (h : Rooted log w) (hgranted : Granted (grants log) w)
    (ho : o ∈ grants log) (htracked : w.Tracks o.serial) :
    w.actionScope a o.serial = o.resolved.scope := by
  rw [actionScope, scopeOf_of_tracked htracked fun s hs => h.scope_eq hgranted ho hs]
  rfl

theorem actionScope_of_untracked (hgranted : Granted (grants log) w) (ho : o ∈ grants log)
    (hfresh : o.reused = false) (huntracked : ¬ w.Tracks o.serial) :
    w.actionScope a o.serial = a.label.getD "" ++ o.resolved.namespaceName := by
  obtain ⟨c, hc, -, hname⟩ := hgranted.keeps o ho hfresh
  rw [actionScope, scopeOf_of_untracked huntracked, hc, ← hname]
  rfl

/-- The open connection of a request that does not wait any more has a session. -/
theorem tracked_or_waiting (hblank : w₀.Blank) (hrun : Run w₀ log w) (ho : o ∈ grants log)
    (hfresh : o.reused = false) (hlive : w.isConnected o.serial = true) : w.Tracks o.serial ∨
      ∃ c ∈ w.waiting, c.reused = false ∧ c.pass.channel.connection = o.serial := by
  obtain ⟨m, hm, hg⟩ := List.mem_filterMap.1 ho
  obtain ⟨ticket, name, owner, opts, hjob, -⟩ := started_of_grant? hg
  have hopener := Moment.opener?_of_grant hjob hg
  rw [hfresh] at hopener
  have hminded := hrun.minded hblank.orderly hblank.minded
  have hcharge := hminded.live _ (List.mem_filterMap.2 ⟨m, hm, hopener⟩) hlive
  rcases mem_charges.1 hcharge with ⟨c, hc, hcharge⟩ | ⟨s, hs, hcharge⟩
  · refine .inr ⟨c, hc, ?_, congrArg Charge.connection (Connecting.charge_of_charge? hcharge)⟩
    cases hreused : c.reused with
    | false => rfl
    | true =>
      rw [Connecting.charge?_of_reused hreused] at hcharge
      cases hcharge
  · exact .inl ⟨s, hs, congrArg Charge.connection hcharge⟩

/-! What an action reports -/

theorem spawn_inj {job job' : Job} (h : w.spawn job = w.spawn job') : job = job' := by
  have hready := congrArg World.ready h
  exact (Task.mk.inj (List.singleton_inj.1 (List.append_cancel_left hready))).2

theorem reportsUnder_actionScope (hfresh : w₀.Fresh) (hrun : Run w₀ log w)
    (hfound : w.found? handle a = some n) (ticket : Nat) :
    ReportsUnder w ticket handle a n (w.actionScope a n) := by
  have hstarts := perform_emitAction hfound ticket
  refine ⟨hstarts, fun later w' hlater => ⟨fun m _ => m.errorsOf_after, ?_⟩⟩
  intro e he
  let run := w.actionRun a n (w.actionScope a n)
  have hcounted := (hrun.command (c := .emitAction handle a) ticket nofun).counted hfresh.counted
  rw [hstarts] at hlater hcounted
  have hdue : ⟨w.started + 1, .emit run (.answer ticket)⟩ ∈
      (w.spawn (.emit run (.answer ticket))).ready := List.mem_append_right _ (.head _)
  obtain ⟨_, hstage, -⟩ := EmitRun.Stage.due.later hcounted (Nat.le_refl _)
    (.of_ready hcounted hdue) hlater
  have hlawful : run.Lawful (EmitRun.Seen.of (later.filter (·.task.id == w.started + 1))) :=
    hstage.lawful
  have hunvetoed :
      (EmitRun.Seen.of (later.filter (·.task.id == w.started + 1))).vetoed = false := by
    refine Bool.eq_false_iff.2 fun hveto => ?_
    cases (hlawful.veto hveto).2.2.2 _ he
  cases hack : a.noAck with
  | true =>
    have hnone := (hlawful.unacked hunvetoed hack).1
    exact ⟨"", fun scope' event => by simp [hnone]⟩
  | false =>
    rcases (hlawful.acked hunvetoed hack _ he).2 with ⟨v, hok, -⟩ | ⟨e', stamp, heq, hrecorded, -⟩
    · cases hok
    · obtain rfl := Except.error.inj heq
      refine ⟨stamp, fun scope' event => (hrecorded scope' event).trans ?_⟩
      simp [run, actionRun, EmitAction.run]

/-- An action that finds a connection opened by the engine reports under the scope that it was
opened under as long as it has a session, or if the action has the connection's own label. Otherwise
the label of the action takes its place. An open connection has a session unless the request it was
opened for still waits for the peer's API. -/
theorem action_reports_under (hblank : w₀.Blank) (hrun : Run w₀ log w) (ho : o ∈ grants log)
    (hfresh : o.reused = false) (hfound : w.found? handle a = some o.serial) (ticket : Nat) :
    ∃ scope, ReportsUnder w ticket handle a o.serial scope ∧
      (w.Tracks o.serial → scope = o.resolved.scope) ∧
      (¬ w.Tracks o.serial → scope = a.label.getD "" ++ o.resolved.namespaceName) ∧
      (scope = o.resolved.scope ↔ w.Tracks o.serial ∨ a.label.getD "" = o.resolved.label) ∧
      (w.isConnected o.serial = true → ¬ w.Tracks o.serial →
        ∃ c ∈ w.waiting, c.reused = false ∧ c.pass.channel.connection = o.serial) := by
  have hgranted := hrun.granted hblank.toFresh
  have htracked := actionScope_of_tracked (a := a) (hrun.rooted hblank) hgranted ho
  have huntracked := actionScope_of_untracked (a := a) hgranted ho hfresh
  refine ⟨w.actionScope a o.serial, reportsUnder_actionScope hblank.toFresh hrun hfound ticket,
    htracked, huntracked, ?_, ?_⟩
  · by_cases hsession : w.Tracks o.serial
    · simp [htracked hsession, hsession]
    · obtain ⟨runtime, opts, -, hresolved⟩ := hgranted.made o ho
      have hcut : o.resolved.scope = o.resolved.label ++ o.resolved.namespaceName :=
        hresolved ▸ Resolved.scope_ofEntry
      rw [huntracked hsession, hcut, String.append_left_inj]
      simp [hsession]
  · exact fun hlive hnobody =>
      (tracked_or_waiting hblank hrun ho hfresh hlive).resolve_left hnobody

/-- A component asks at a bureau, with a timeout, and its connection is kept. -/
def asking : List Moment × World :=
  refusing.play [.command 0 (.connect "x" ⟨"a"⟩
    { persist := .key "main", serverApi := some {}, emitTimeout := some 20 }), .steps 10]

/-- An action for the connection that is kept as `main`. -/
def inquiry : EmitAction := { event := "inquire", label := some "main" }

theorem asking_for_home : ∃ o ∈ grants asking.1, o.reused = false ∧ o.serial = 1 ∧
    o.resolved.scope = "home/" ∧ o.resolved.namespaceName = "/" := ⟨_, .head _, rfl, rfl, rfl, rfl⟩

theorem inquiry_reports_under_its_label : asking.2.sockets.timeout "home/" = some 20 ∧
    ReportsUnder asking.2 1 none inquiry 1 "main/" ∧
      (asking.2.actionRun inquiry 1 "main/").bound = none := by
  obtain ⟨o, ho, hfresh, hserial, -, hname⟩ := asking_for_home
  have hrun : Run refusing asking.1 asking.2 := .of_play refusing rfl
  have hfound : asking.2.found? none inquiry = some o.serial := hserial ▸ rfl
  obtain ⟨scope, hreports, -, huntracked, -⟩ :=
    action_reports_under (bureau_blank _) hrun ho hfresh hfound 1
  have hnobody : ¬ asking.2.Tracks o.serial := by
    have hnone : asking.2.sessions = [] := rfl
    rintro ⟨s, hs, -⟩
    rw [hnone] at hs
    cases hs
  obtain rfl : scope = "main/" := (huntracked hnobody).trans (by rw [hname]; rfl)
  exact ⟨rfl, hserial ▸ hreports, rfl⟩

/-- So the scope under which a connection was opened is not always that of its actions. -/
theorem action_reports_under_other_scope :
    ¬ ∀ (w₀ w : World) (log : List Moment) (o : Grant) (handle : Option String) (a : EmitAction)
      (ticket : Nat), w₀.Blank → Run w₀ log w → o ∈ grants log → o.reused = false →
      w.found? handle a = some o.serial →
        ReportsUnder w ticket handle a o.serial o.resolved.scope := by
  intro h
  obtain ⟨o, ho, hfresh, hserial, hscope, -⟩ := asking_for_home
  have hreports :=
    h refusing asking.2 asking.1 o none inquiry 1 (bureau_blank _) (.of_play refusing rfl)
    ho hfresh (hserial ▸ rfl)
  have hreal : (asking.2.perform 1 (.emitAction none inquiry)).1 =
      asking.2.spawn (.emit (asking.2.actionRun inquiry 1 "main/") (.answer 1)) := rfl
  rw [hreports.starts, hserial, hscope] at hreal
  have hruns := (Job.emit.inj (spawn_inj hreal)).1
  have hscopes : "home/" = "main/" := congrArg (fun run => run.channel.scope) hruns
  exact absurd hscopes (by decide)

end World

end Patchbay
