import Patchbay.Proofs.Sessions.Actions

/-!
How long an emit waits that brings no timeout of its own. On the handle of a session that is what
the session's own request resolved to. An action looks it up by scope, where every request that gets
a connection leaves its own: the last one counts, whoever made it and whatever came of it.
-/

namespace Patchbay

/-- A change that leaves the timeouts of the scopes alone. -/
def Change.Untimed : Change → Prop := Among (Kind.but [.setTimeout])

namespace Change

variable {c : Change}

theorem Acquires.untimed (h : c.Acquires) : c.Untimed := h.mono rfl

theorem Evicts.untimed (h : c.Evicts) : c.Untimed := h.mono rfl

theorem Wires.untimed (h : c.Wires) : c.Untimed := h.among.mono rfl

theorem Undoes.untimed (h : c.Undoes) : c.Untimed := h.mono rfl

theorem Commands.untimed (h : c.Commands) : c.Untimed := h.among.mono rfl

end Change

/-- Only a connect request says how long the emits of a scope may take. -/
theorem Job.May.untimed {job : Job} {c : Change} (h : job.May c)
    (hjob : ∀ ticket name owner opts, job ≠ .connect ticket name owner opts) : c.Untimed :=
  (h.among_of_ne_connect hjob).mono rfl

namespace World

variable {w₀ w w' : World} {log : List Moment} {m : Moment} {g : Grant} {s : Session} {h : Handle}
  {a : EmitAction} {name : String} {handle : Option String}

theorem apply_timeouts (w : World) {c : Change} (hc : c.Untimed) :
    (w.apply c).sockets.timeouts = w.sockets.timeouts := by
  rw [(apply_woken w c).sockets]
  by_cases hplants : c.Plants
  · obtain ⟨_, _, _, _, _, _, heq⟩ := effect_plants w hplants
    rw [heq]
  · cases c with
    | setTimeout scope timeout => exact hc.elim
    | track s => simp only [effect, apply, track]; split <;> rfl
    | _ => first | rfl | exact absurd trivial hplants

theorem Makes.timeouts {P : Change → Prop} (h : Makes P w w') (hP : ∀ c, P c → c.Untimed) :
    w'.sockets.timeouts = w.sockets.timeouts :=
  h.keeps (I := fun w' => w'.sockets.timeouts = w.sockets.timeouts)
    (fun w' c hc hw => (apply_timeouts w' (hP c hc)).trans hw) rfl

/-- A request that gets a connection leaves its timeout under its scope, and nothing else does. -/
theorem timeouts_after (m : Moment) :
    m.after.sockets.timeouts = m.grant?.elim m.world.sockets.timeouts
    fun g => m.world.sockets.timeouts.insert g.resolved.scope g.resolved.emitTimeout := by
  cases hg : m.grant? with
  | some g =>
    obtain ⟨ticket, name, owner, opts, -, hok, hacquire, hexec⟩ := started_of_grant? hg
    obtain ⟨acquired, hacquired, -, -, hmakes⟩ := acquired_of_acquire _ hacquire
    obtain ⟨c, mid, -, -, -, hattaches, hends⟩ :=
      startConnect_attaches hok hacquired ticket name owner
    have hkept := hmakes.timeouts fun _ hc => hc.untimed
    have hentered : (acquired.enter g.resolved).sockets.timeouts =
        acquired.sockets.timeouts.insert g.resolved.scope g.resolved.emitTimeout := rfl
    have hmid : mid.sockets.timeouts =
        m.world.sockets.timeouts.insert g.resolved.scope g.resolved.emitTimeout := by
      rw [hattaches.makes.timeouts fun _ hc => hc.untimed, hentered, hkept]
    rw [hexec, Option.elim_some, ← hmid]
    rcases hends with ⟨error, heq⟩ | heq
    · rw [heq]
      exact (failConnect_makes ..).timeouts fun _ hc => hc.undoes.untimed
    · obtain ⟨last, e, hlast, -, honward⟩ := askOrFinish_does mid c
      rw [heq, ← honward, onward_sockets]
      exact hlast.timeouts fun _ hc => hc.finishes.undoes.untimed
  | none =>
    by_cases hconnect : ∃ ticket name owner opts, m.job = .connect ticket name owner opts
    · obtain ⟨ticket, name, owner, opts, hjob⟩ := hconnect
      exact (refused_of_grant? hjob hg).timeouts fun _ hc => hc.untimed
    · obtain ⟨mid, e, hmid, -, heq⟩ := exec_does m.world m.task.job
      have hidle : ∀ ticket name owner opts, m.task.job ≠ .connect ticket name owner opts :=
        fun ticket name owner opts heq => hconnect ⟨ticket, name, owner, opts, heq⟩
      rw [Moment.after, ← heq, onward_sockets]
      exact hmid.timeouts fun _ hc => hc.untimed hidle

/-- The last request of a scope that got a connection. -/
def latest? (log : List Moment) (scope : String) : Option Grant :=
  (grants log).reverse.find? (·.resolved.scope == scope)

theorem latest?_of_refused (hg : m.grant? = none) (scope : String) :
    latest? (log ++ [m]) scope = latest? log scope := by
  simp [latest?, grants, hg]

theorem latest?_of_granted (hg : m.grant? = some g) (scope : String) : latest? (log ++ [m]) scope =
    if scope = g.resolved.scope then some g else latest? log scope := by
  by_cases hscope : scope = g.resolved.scope
  · simp [latest?, grants, hg, hscope]
  · simp [latest?, grants, hg, hscope, Ne.symm hscope]

theorem exists_latest? (hg : g ∈ grants log) : ∃ last, latest? log g.resolved.scope = some last ∧
    last ∈ grants log ∧ last.resolved.scope = g.resolved.scope := by
  cases hlast : latest? log g.resolved.scope with
  | none => exact absurd (List.find?_eq_none.1 hlast g (List.mem_reverse.2 hg)) (by simp)
  | some last =>
    exact ⟨last, rfl, List.mem_reverse.1 (List.mem_of_find?_eq_some hlast),
      by simpa using List.find?_some hlast⟩

/-- Under a scope stands what its last request has left there. -/
theorem Run.timeouts (h : Run w₀ log w) (scope : String) : w.sockets.timeouts.get? scope =
    ((latest? log scope).map (·.resolved.emitTimeout)).or (w₀.sockets.timeouts.get? scope) := by
  induction h with
  | start => rfl
  | @step log w task rest _ hready ih =>
    let m : Moment := ⟨task, w.begin task rest⟩
    have hafter : ((w.begin task rest).exec task.job).sockets.timeouts = _ := timeouts_after m
    rw [hafter]
    cases hg : m.grant? with
    | none =>
      rw [latest?_of_refused hg]
      exact ih
    | some g =>
      rw [latest?_of_granted hg, Option.elim_some, Dict.get?_insert]
      split
      · rfl
      · exact ih
  | @command log w _ ticket c hc ih =>
    rwa [(perform_makes w ticket hc).timeouts fun _ hc => hc.untimed]
  | pass _ _ ih => exact ih
  | wake _ ih => exact ih

theorem Run.timeout (h : Run w₀ log w) {scope : String} (hlast : latest? log scope = some g) :
    w.sockets.timeout scope = g.resolved.emitTimeout := by
  rw [SocketState.timeout, h.timeouts scope, hlast]
  rfl

theorem perform_emit (hhandle : w.handle? name = some h) (hsession : h.session = some s)
    (ticket : Nat) (a : EmitAction) : w.perform ticket (.emit name a.event a.msg none a.noAck) =
      (w.spawn (.emit (a.run s.channel) (.answer ticket)), .later) := by
  simp only [perform, withSession, withHandle, hhandle, hsession]
  rfl

/-- An emit without a timeout that is sent through the handle of a session waits as long as the
session's own request resolved to. The same emit as an action on that connection goes out under the
same scope and waits as long as the last request of the scope resolved to. So the two are the same
request if and only if these two resolved to the same. -/
theorem emit_paths_wait (hblank : w₀.Blank) (hrun : Run w₀ log w) (hs : s ∈ w.sessions)
    (hhandle : w.handle? name = some h) (hsession : h.session = some s)
    (hfound : w.found? handle a = some s.channel.connection) (huntimed : a.emitTimeout = none)
    (ticket : Nat) :
    ∃ m ∈ log, ∃ own opts last, m.Issues own s.channel s.owner s.token ∧
      (∃ ticket name, m.job = .connect ticket name s.owner opts) ∧
      latest? log s.channel.scope = some last ∧
      s.channel.timeout =
        (opts.emitTimeout <|> own.entry.emitTimeout <|> m.world.settings.emitTimeout) ∧
      w.perform ticket (.emit name a.event a.msg none a.noAck) =
        (w.spawn (.emit (a.run s.channel) (.answer ticket)), .later) ∧
      (a.run s.channel).bound = own.resolved.emitTimeout ∧
      w.perform ticket (.emitAction handle a) =
        (w.spawn (.emit (a.run { s.channel with timeout := last.resolved.emitTimeout })
          (.answer ticket)), .later) ∧
      (a.run { s.channel with timeout := last.resolved.emitTimeout }).bound =
        last.resolved.emitTimeout ∧
      (w.perform ticket (.emit name a.event a.msg none a.noAck) =
          w.perform ticket (.emitAction handle a) ↔
        own.resolved.emitTimeout = last.resolved.emitTimeout) := by
  have hgranted := hrun.granted hblank.toFresh
  have hrooted := hrun.rooted hblank
  obtain ⟨own, hissued⟩ := hrooted.sessions s hs
  have hown := hissued.mem_grants
  obtain ⟨m, hm, hissues⟩ := hissued
  have hchannel : s.channel = own.channel := hissues.channel.symm
  obtain ⟨ticket', name', owner', opts, hjob, -, hresolved, -⟩ :=
    Moment.exists_of_grant? hissues.granted
  obtain ⟨_, _, _, hstarts⟩ := hissues.starts
  obtain rfl : owner' = s.owner := by
    rw [hjob] at hstarts
    cases hstarts
    rfl
  obtain ⟨last, hlast, -, -⟩ := exists_latest? hown
  have hscope : s.channel.scope = own.resolved.scope := by rw [hchannel]; rfl
  have hconnection : s.channel.connection = own.serial := by rw [hchannel]; rfl
  have htimeout : s.channel.timeout = own.resolved.emitTimeout := by rw [hchannel]; rfl
  rw [← hscope] at hlast
  have hsent := perform_emit hhandle hsession ticket a
  have hacted : w.perform ticket (.emitAction handle a) =
      (w.spawn (.emit (a.run { s.channel with timeout := last.resolved.emitTimeout })
        (.answer ticket)), .later) := by
    have htracked : w.actionScope a s.channel.connection = s.channel.scope := by
      rw [hconnection, hscope]
      exact actionScope_of_tracked hrooted hgranted hown ⟨s, hs, hconnection⟩
    rw [perform_emitAction hfound ticket, htracked, actionRun, huntimed, hrun.timeout hlast]
    rfl
  have hbound (channel : Channel) : (a.run channel).bound = channel.timeout := rfl
  refine ⟨m, hm, own, opts, last, hissues, ⟨ticket', name', hjob⟩, hlast, ?_, hsent,
    (hbound _).trans htimeout, hacted, hbound _, ?_⟩
  · rw [htimeout, hresolved]
    rfl
  · rw [hsent, hacted, ← htimeout]
    constructor
    · intro hsame
      have hjobs := spawn_inj (congrArg Prod.fst hsame)
      exact congrArg Channel.timeout (congrArg EmitRun.channel (Job.emit.inj hjobs).1)
    · intro hsame
      rw [← hsame]

/-- Two components connect to one socket, each with a timeout of its own. -/
def unlike : List Moment × World :=
  lobby.play [.command 0 (.connect "x" ⟨"a"⟩ { emitTimeout := some 50 }), .steps 10,
    .command 1 (.connect "y" ⟨"b"⟩ { emitTimeout := some 500 }), .steps 10]

def greeting : EmitAction := { event := "hello" }

theorem unlike_session : ∃ h s, unlike.2.handle? "x" = some h ∧ h.session = some s ∧
    s ∈ unlike.2.sessions ∧ s.channel = ⟨1, "home/", some 50⟩ ∧
    unlike.2.found? (some "x") greeting = some s.channel.connection :=
  ⟨_, _, rfl, rfl, .head _, rfl, rfl⟩

theorem greeting_waits_longer_as_action :
    unlike.2.perform 2 (.emit "x" "hello" none none false) =
        (unlike.2.spawn (.emit (greeting.run ⟨1, "home/", some 50⟩) (.answer 2)), .later) ∧
      unlike.2.perform 2 (.emitAction (some "x") greeting) =
        (unlike.2.spawn (.emit (greeting.run ⟨1, "home/", some 500⟩) (.answer 2)), .later) := by
  obtain ⟨h, s, hhandle, hsession, hs, hchannel, hfound⟩ := unlike_session
  have hrun : Run lobby unlike.1 unlike.2 := .of_play lobby rfl
  obtain ⟨m, -, own, opts, last, -, -, hlast, -, hsent, -, hacted, -⟩ :=
    emit_paths_wait lobby_blank hrun hs hhandle hsession hfound rfl 2
  rw [hchannel] at hlast hsent hacted
  have htimeout : last.resolved.emitTimeout = some 500 := by
    have hreal : (latest? unlike.1 "home/").map (·.resolved.emitTimeout) = some (some 500) := rfl
    rw [hlast] at hreal
    exact Option.some.inj hreal
  rw [htimeout] at hacted
  exact ⟨hsent, hacted⟩

/-- So the emit of a session may wait longer as an action than through the session's handle. -/
theorem paths_wait_unlike :
    ¬ ∀ (w₀ w : World) (log : List Moment) (s : Session) (h : Handle) (name : String)
      (handle : Option String) (a : EmitAction) (ticket : Nat), w₀.Blank → Run w₀ log w →
      s ∈ w.sessions → w.isConnected s.channel.connection = true → w.handle? name = some h →
      h.session = some s → w.found? handle a = some s.channel.connection → a.emitTimeout = none →
      ∃ run, w.perform ticket (.emitAction handle a) =
        (w.spawn (.emit run (.answer ticket)), .later) ∧
        run.bound = (a.run s.channel).bound := by
  intro hall
  obtain ⟨h, s, hhandle, hsession, hs, hchannel, hfound⟩ := unlike_session
  obtain ⟨run, hacted, hbound⟩ :=
    hall lobby unlike.2 unlike.1 s h "x" (some "x") greeting 2 lobby_blank
    (.of_play lobby rfl) hs (hchannel ▸ rfl) hhandle hsession hfound rfl
  have hreal : unlike.2.perform 2 (.emitAction (some "x") greeting) =
      (unlike.2.spawn (.emit (greeting.run ⟨1, "home/", some 500⟩) (.answer 2)), .later) := rfl
  have hjobs := spawn_inj (congrArg Prod.fst (hacted.symm.trans hreal))
  rw [(Job.emit.inj hjobs).1, hchannel] at hbound
  exact absurd hbound (by decide)

end World

end Patchbay
