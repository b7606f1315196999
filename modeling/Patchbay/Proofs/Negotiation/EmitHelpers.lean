import Patchbay.Proofs.Emit.Settlement
import Patchbay.Proofs.Negotiation.Callables
import Patchbay.Proofs.Sessions.Origins
import Patchbay.Proofs.Sessions.Reconnect

/-!
The helpers that a connect request brings, and where their calls go. A helper sends on the
connection it was bound to. A component that has one already does not get another when it connects
again, not even when the connection of the first is closed.
-/

namespace Patchbay

namespace World

variable {w : World} {owner : ComponentId} {name event : String} {channel : Channel}

/-! ### Calls of helpers -/

/-- The task sends the event on the channel: it is ready until it goes to the transport, once and on
that connection. -/
structure Transmits (t : Nat) (channel : Channel) (event : String) (own : List Moment)
    (w : World) : Prop where
  addressed : ∀ m ∈ own, ∀ run after, m.job = .transmit run after →
    run.channel = channel ∧ run.event = event
  once : (EmitRun.Seen.of own).attempts.length = 1 ∨
    (EmitRun.Seen.of own).attempts = [] ∧ ∃ job, ⟨t, job⟩ ∈ w.ready
  wire : ∃ payload ack, (EmitRun.Seen.of own).emissions =
    ((EmitRun.Seen.of own).attempts.filter id).map fun _ =>
      .emitted channel.connection event payload ack

/-- To call that name is to send the event on the channel, by a task of the call's own. -/
structure CallSends (w : World) (owner : ComponentId) (name : String) (channel : Channel)
    (event : String) : Prop where
  starts : ∀ ticket argument, w.perform ticket (.call owner name argument) =
    (w.spawn (.call ticket owner (.helper channel event) argument), .later)
  sends : ∀ ticket argument log v, Run (w.perform ticket (.call owner name argument)).1 log v →
    Transmits (w.started + 1) channel event (log.filter (·.task.id == w.started + 1)) v

/-- How far the call of a helper has come, by the jobs it has done. -/
inductive Helping (job : Job) (channel : Channel) (event : String) (after : AfterEmit) :
    List Moment → Onward → Prop
  | called : Helping job channel event after [] (.resumes job)
  | sending {own : List Moment} {e : Onward} {run : EmitRun} (hchannel : run.channel = channel)
    (hevent : run.event = event) (hpre : run.hooks.pre = none)
    (hstage : run.Stage after (.of own) e)
    (haddressed : ∀ m ∈ own, ∀ sent sentAfter, m.job = .transmit sent sentAfter → sent = run) :
    Helping job channel event after own e

variable {ticket : Nat} {argument : Option Json} {own : List Moment} {e : Onward}

/-- A call of a helper has its emit to do, and has done nothing of it. -/
theorem stage_of_call {m : Moment} {run : EmitRun}
    (hjob : m.job = .call ticket owner (.helper channel event) argument)
    (hstarts : m.world.onward (.resumes (.emit run (.helper ticket))) = m.after) :
    run.Stage (.helper ticket) (.of [m]) (.resumes (.emit run (.helper ticket))) := by
  obtain ⟨⟨t, job⟩, w⟩ := m
  obtain rfl : job = .call ticket owner (.helper channel event) argument := hjob
  have hunseen := EmitRun.Seen.add_unseen (m := ⟨⟨t, .call ticket owner (.helper channel event)
    argument⟩, w⟩) {} ⟨rfl, rfl, rfl, rfl⟩ .nothing hstarts
  rw [← List.nil_append [_], EmitRun.Seen.of_append]
  exact hunseen ▸ .due

theorem Helping.leads {m : Moment}
    (h : Helping (.call ticket owner (.helper channel event) argument) channel event
      (.helper ticket) own e)
    (hjob : e.job? = some m.job) :
    ∃ mid e', (∃ Q, Makes Q m.world mid) ∧ mid.onward e' = m.after ∧
      Helping (.call ticket owner (.helper channel event) argument) channel event (.helper ticket)
        (own ++ [m]) e' := by
  cases h with
  | called =>
    obtain ⟨⟨t, job⟩, w⟩ := m
    obtain rfl : Job.call ticket owner (.helper channel event) argument = job :=
      Option.some.inj hjob
    obtain ⟨run, hchannel, hevent, hpre, hstarts⟩ : ∃ run : EmitRun, run.channel = channel ∧
        run.event = event ∧ run.hooks.pre = none ∧
        w.onward (.resumes (.emit run (.helper ticket))) =
          w.startCall ticket owner (.helper channel event) argument := ⟨_, rfl, rfl, rfl, rfl⟩
    refine ⟨w, _, ⟨Change.Basic, .nothing⟩, hstarts, .sending hchannel hevent hpre ?_ ?_⟩
    · exact stage_of_call rfl hstarts
    · intro m hm sent sentAfter hsent
      rw [List.mem_singleton.1 hm] at hsent
      cases hsent
  | sending hchannel hevent hpre hstage haddressed =>
    obtain ⟨mid, e', hmakes, hafter, hnext⟩ := hstage.leads hjob
    refine ⟨mid, e', hmakes, hafter, .sending hchannel hevent hpre ?_ ?_⟩
    · rwa [EmitRun.Seen.of_append]
    · intro m' hm' sent sentAfter hsent
      rcases List.mem_append.1 hm' with hold | hlast
      · exact haddressed m' hold sent sentAfter hsent
      · rw [List.mem_singleton.1 hlast] at hsent
        exact hstage.transmits (hsent ▸ hjob)

theorem Stands.ready_of_resumes {t : Nat} {job : Job} (h : w.Stands t (.resumes job)) :
    ⟨t, job⟩ ∈ w.ready :=
  (h.ready_or_parked rfl).resolve_right fun ⟨_, _, heq, _⟩ => by cases heq

theorem Helping.transmits {t : Nat} {job : Job} {after : AfterEmit}
    (h : Helping job channel event after own e) (hstands : w.Stands t e) :
    Transmits t channel event own w := by
  cases h with
  | called =>
    exact ⟨fun _ hm => absurd hm List.not_mem_nil, .inr ⟨rfl, job, hstands.ready_of_resumes⟩,
      .null, false, rfl⟩
  | @sending _ _ run hchannel hevent hpre hstage haddressed =>
    refine ⟨?_, ?_, run.payload, !run.noAck, ?_⟩
    · intro m hm sent sentAfter hsent
      rw [haddressed m hm sent sentAfter hsent]
      exact ⟨hchannel, hevent⟩
    · refine (hstage.attempts hpre).imp_right ?_
      rintro ⟨hnone, job, rfl⟩
      exact ⟨hnone, job, hstands.ready_of_resumes⟩
    · rw [hstage.lawful.wire.2, EmitRun.emission, hchannel, hevent]

/-- Where a name has a helper, to call it is to send on the helper's channel. -/
theorem callSends_of_helper (hcounted : Counted w.started w.tasks)
    (hhelper : w.callable? owner name = some (.helper channel event)) :
    CallSends w owner name channel event := by
  have hstarts := perform_call hhelper
  refine ⟨hstarts, fun ticket argument log v hrun => ?_⟩
  have hcounted' :=
    (Run.start.command (c := .call owner name argument) ticket (by simp)).counted hcounted
  rw [hstarts] at hrun hcounted'
  have hdue : ⟨w.started + 1, .call ticket owner (.helper channel event) argument⟩ ∈
      (w.spawn (.call ticket owner (.helper channel event) argument)).ready :=
    List.mem_append_right _ List.mem_cons_self
  let job := Job.call ticket owner (.helper channel event) argument
  obtain ⟨e, hhelping, hstands⟩ :=
    Run.follow (P := Helping job channel event (.helper ticket)) hcounted'
    (Nat.le_refl _) (.of_ready hcounted' hdue) .called (fun _ _ _ h hjob => h.leads hjob) hrun
  exact hhelping.transmits hstands

/-! ### The request that a session comes from -/

variable {w₀ v mid : World} {log : List Moment} {m : Moment} {s : Session} {c : Connecting}
  {d : Descriptor}

/-- The passes of a request bring the emitters of its namespace at most. -/
theorem Passes.emitters {start : World} (h : Passes c start mid) :
    EmittersOnly c.pass c.resolved.namespaceConfig.emitters start mid := by
  obtain ⟨v, attached, attached', hnamespace, hstore⟩ := h.wiring
  have hstatus := h.opened.makes (wireStatus_makes start c.pass c.resolved.statusKey c.resolved.url)
  have hwired := hstatus.makes (wireNamespace_makes hnamespace)
  exact ((EmittersOnly.of_same (sameCallables_wireStatus ..)).trans
    (emittersOnly_wireNamespace hstatus hnamespace)).trans (emittersOnly_wireStore hwired hstore)

theorem components_of_acquired {warnings : List Warning} {r : Resolved} {result acquired}
    (h : (warnings.foldl warn w).acquire r = (result, acquired)) :
    acquired.components = w.components := by
  have hgot := components_acquire (warnings.foldl warn w) r
  rw [h, foldl_warn_eq] at hgot
  exact hgot

/-- What a request has come to when its session begins. -/
structure Establishes (log : List Moment) (m : Moment) (s : Session) (c : Connecting)
    (mid : World) :
    Prop where
  began : Began log c
  yields : Connecting.Yields c s
  emitters : EmittersOnly c.pass c.resolved.namespaceConfig.emitters m.world mid
  ends : ∃ api, m.after = mid.finishConnect c api

/-- The request is the one that the session's channel and token were given to. -/
theorem Establishes.resolved_eq {g : Grant} (h : Establishes log m s c mid) (hrun : Run w₀ log w)
    (hissued : Issued log g s.channel s.owner s.token) : c.resolved = g.resolved := by
  obtain ⟨g', ⟨begun, hbegun, hissues'⟩, hresolved⟩ := h.began
  obtain ⟨asked, hasked, hissues⟩ := hissued
  rw [h.yields.2.2] at hissues
  obtain rfl := hrun.issued_once hbegun hasked hissues' hissues
  obtain rfl : g' = g := Option.some.inj (hissues'.granted.symm.trans hissues.granted)
  exact hresolved.symm

/-- A request that is over at once has made its passes. -/
theorem establishes_of_grant? {g : Grant} (log : List Moment) (hg : m.grant? = some g)
    (hs : s ∈ m.after.sessions) (hnew : s ∉ m.world.sessions) :
    ∃ c mid, Establishes (log ++ [m]) m s c mid := by
  obtain ⟨ticket, name, owner, opts, hjob, hok, hacquire, hexec⟩ := started_of_grant? hg
  obtain ⟨acquired, hacquired, -, htokens, -⟩ := acquired_of_acquire _ hacquire
  rcases startConnect_passes hok hacquired ticket name owner with
    ⟨v, c, error, hmade, hfailed⟩ | ⟨c, mid, hpass, hresolved, hmade, hpasses, hasked⟩
  · have hsame : m.after.sessions = m.world.sessions := by
      rw [hexec, hfailed, sessions_failConnect]
      exact hmade.sessions fun _ hc => hc.still
    exact absurd (hsame ▸ hs) hnew
  · have hsame : mid.sessions = m.world.sessions := hmade.sessions fun _ hc => hc.still
    have hends := finishConnect_of_begins (hexec.trans hasked) hsame ⟨s, hs, hnew⟩
    rw [htokens] at hpass
    refine ⟨c, mid, began_of_grant? log hg hjob hpass hresolved, ?_, ?_, none, hends⟩
    · rw [hends] at hs
      exact (sessions_finishConnect hs).resolve_left fun hold => hnew (hsame ▸ hold)
    · have hacquires := SameCallables.of_components (components_of_acquired hacquired)
      have henters : SameCallables acquired (acquired.enter g.resolved) := .of_components rfl
      exact (EmittersOnly.of_same (hacquires.trans henters)).trans hpasses.emitters

/-- One that its peer has answered has bound the peer's API. -/
theorem establishes_of_answer {result : Except EmitError EmitOutcome} (hbegan : Began log c)
    (hafter : m.after = m.world.finishEmit result (.discovery c))
    (hs : s ∈ m.after.sessions) (hnew : s ∉ m.world.sessions) :
    ∃ c mid, Establishes (log ++ [m]) m s c mid := by
  rw [hafter] at hs
  obtain ⟨outcome, d, -, -, hends⟩ := finishEmit_completes ⟨s, hs, hnew⟩
  let bound := m.world.bindServerApi c.pass c.resolved.ignoredEvents d c.wired
  exact ⟨{ c with wired := bound.2.1 }, bound.1, hbegan.later [m],
    (sessions_finishEmit hs).resolve_left hnew,
    .of_same (sameCallables_bindServerApi ..), _, hafter.trans hends⟩

/-- A session begins when a request is over, at once or when its peer has answered. -/
theorem exists_establishes (hrunning : ∀ c, m.job.connecting? = some c → Began log c)
    (hs : s ∈ m.after.sessions) (hnew : s ∉ m.world.sessions) :
    ∃ c mid, Establishes (log ++ [m]) m s c mid := by
  have hafter : m.after = m.world.exec m.job := rfl
  have hunchanged (hsame : m.after.sessions = m.world.sessions) : False := hnew (hsame ▸ hs)
  rcases exec_cases m.world m.job with
    ⟨ticket, name, owner, opts, hjob⟩ | ⟨result, c, hjob⟩ | ⟨-, -, mid, e, hmid, -, heq⟩
  · cases hg : m.grant? with
    | none =>
      exact (hunchanged ((refused_of_grant? hjob hg).sessions fun _ hc => hc.acquires.still)).elim
    | some g => exact establishes_of_grant? log hg hs hnew
  · exact establishes_of_answer (hrunning c (by rw [hjob]; rfl)) (by rw [hafter, hjob]; rfl) hs hnew
  · have hsame : (mid.onward e).sessions = m.world.sessions := by
      rw [← hmid.sessions fun _ hc => hc.adds.still]
      cases e <;> rfl
    exact (hunchanged (hafter ▸ heq ▸ hsame)).elim

theorem Run.establishes (hblank : w₀.Blank) (hrun : Run w₀ log v) (hv : v.ready ≠ [])
    (hs : s ∈ (v.next hv).after.sessions) (hnew : s ∉ v.sessions) :
    ∃ c mid, Establishes (log ++ [v.next hv]) (v.next hv) s c mid := by
  have hrooted := hrun.rooted hblank
  have hbegun := begin_waiting (List.cons_head_tail hv).symm
  refine exists_establishes (fun c hc => hrooted.waiting c ?_) hs hnew
  have htask : (v.ready.head hv).job.connecting? = some c := hc
  rw [hbegun, htask]
  exact List.mem_cons_self

theorem components_finishConnect (w : World) (c : Connecting) (api : Option ServerApi) :
    (w.finishConnect c api).components = (w.bindOwnApi c).1.components := by
  obtain ⟨handle, heq⟩ := finishConnect_eq w c api
  have htrack (w : World) (s : Session) : (w.track s).components = w.components := by
    unfold track
    split <;> rfl
  rw [heq]
  exact htrack ..

/-- What stands under a helper's name when the session begins. -/
theorem Establishes.callable? (h : Establishes log m s c mid) (hd : c.resolved.clientApi = some d)
    (hdefaults : (d.eventDefaults event).isSome = true)
    (hunnamed : m.after.Unnamed s.owner (helperName event)) :
    ∃ callable, m.after.callable? s.owner (helperName event) = some callable ∧
      (callable = (m.world.callable? s.owner (helperName event)).getD (.helper s.channel event) ∨
        ∃ raw ∈ c.resolved.namespaceConfig.emitters, ∃ b hooks,
          Directive.compile raw .emitter = .ok b ∧
          b.action = helperName event ∧ callable = .emitter s.channel b hooks) := by
  obtain ⟨hchannel, howner, -⟩ := h.yields
  obtain ⟨api, hends⟩ := h.ends
  let published := (c.resolved.serverApi.bind (·.event)).getD ServerApi.defaultEvent
  have hcomponents :
      m.after.components = (mid.bindClientApi c.pass d published c.wired).1.components := by
    rw [hends, components_finishConnect, bindOwnApi, hd]
  rw [howner] at hunnamed ⊢
  rw [hchannel]
  have hbound := callable?_bindClientApi hdefaults published c.wired
    (hunnamed.of_components hcomponents.symm)
  rw [← (SameCallables.of_components hcomponents).callable?_eq] at hbound
  refine ⟨_, hbound, ?_⟩
  rcases h.emitters (helperName event) with
    hsame | ⟨raw, hraw, b, hooks, hcompile, haction, hemitter⟩
  · exact .inl (by rw [hsame])
  · exact .inr ⟨raw, hraw, b, hooks, hcompile, haction, by rw [hemitter, Option.getD_some]⟩

/-- A connect request binds the helpers that its component is without. When its session begins, each
event of the own API with default fields has its callable, if neither the data nor a handler has
that name. It is the callable that the component had, or else a helper of the request's own
connection, unless an emitter of the request's namespace has taken the name. Whichever helper it is,
a call of it sends the event of the helper on the connection of the helper. -/
theorem connect_binds_missing_helpers {g : Grant} (hblank : w₀.Blank) (hrun : Run w₀ log v)
    (hv : v.ready ≠ []) (hs : s ∈ (v.next hv).after.sessions) (hnew : s ∉ v.sessions)
    (hissued : Issued (log ++ [v.next hv]) g s.channel s.owner s.token)
    (hd : g.resolved.clientApi = some d) (hdefaults : (d.eventDefaults event).isSome = true)
    (hunnamed : (v.next hv).after.Unnamed s.owner (helperName event)) :
    ∃ callable, (v.next hv).after.callable? s.owner (helperName event) = some callable ∧
      (callable = (v.callable? s.owner (helperName event)).getD (.helper s.channel event) ∨
        ∃ raw ∈ g.resolved.namespaceConfig.emitters, ∃ b hooks,
          Directive.compile raw .emitter = .ok b ∧
          b.action = helperName event ∧ callable = .emitter s.channel b hooks) ∧
      ∀ channel sent, callable = .helper channel sent →
        CallSends (v.next hv).after s.owner (helperName event) channel sent := by
  have hrun' := hrun.next hv
  obtain ⟨c, mid, hestablishes⟩ := hrun.establishes hblank hv hs hnew
  have hresolved := hestablishes.resolved_eq hrun' hissued
  obtain ⟨callable, hcallable, hwhich⟩ :=
    hestablishes.callable? (by rw [hresolved, hd]) hdefaults hunnamed
  rw [hresolved] at hwhich
  refine ⟨callable, hcallable, hwhich, ?_⟩
  rintro channel sent rfl
  exact callSends_of_helper (hrun'.counted hblank.counted) hcallable

/-! A component that pings, and is closed, and connects again -/

def pings : Descriptor where
  label := none
  version := .null
  events := .ofList [("ping", ⟨some .emptyObject, []⟩)]
  methods := .empty

/-- The component asks for a connection. -/
def pinging : List Moment × World :=
  lobby.play [.command 0 (.connect "x" ⟨"a"⟩ { clientApi := some pings })]

theorem pinging_ready : pinging.2.ready ≠ [] := List.cons_ne_nil _ _

/-- It has got one, which is closed then, and asks again. -/
def pingingAgain : List Moment × World :=
  lobby.play [.command 0 (.connect "x" ⟨"a"⟩ { clientApi := some pings }), .steps 10,
    .command 1 (.close "x"), .steps 10, .command 2 (.connect "y" ⟨"a"⟩ { clientApi := some pings })]

theorem pingingAgain_ready : pingingAgain.2.ready ≠ [] := List.cons_ne_nil _ _

theorem pinging_begins : ∃ g s, s ∈ (pinging.2.next pinging_ready).after.sessions ∧
    s ∉ pinging.2.sessions ∧ s.owner = ⟨"a"⟩ ∧ s.channel = ⟨1, "home/", none⟩ ∧
      Issued (pinging.1 ++ [pinging.2.next pinging_ready]) g s.channel s.owner s.token ∧
        g.resolved.clientApi = some pings :=
  ⟨_, _, .head _, List.not_mem_nil, rfl, rfl, ⟨_, .head _, ⟨_, _, _, rfl⟩, rfl, rfl, rfl⟩, rfl⟩

theorem first_helper_sends_on_its_connection :
    CallSends (pinging.2.next pinging_ready).after ⟨"a"⟩
      (helperName "ping") ⟨1, "home/", none⟩ "ping" := by
  obtain ⟨g, s, hs, hnew, howner, hchannel, hissued, hd⟩ := pinging_begins
  have hrun : Run lobby pinging.1 pinging.2 := .of_play lobby rfl
  have hunnamed : (pinging.2.next pinging_ready).after.Unnamed s.owner (helperName "ping") := by
    rw [howner]
    exact ⟨rfl, rfl⟩
  obtain ⟨callable, hcallable, -, hsends⟩ :=
    connect_binds_missing_helpers lobby_blank hrun pinging_ready
    hs hnew hissued hd rfl hunnamed
  have hhelper : (pinging.2.next pinging_ready).after.callable? ⟨"a"⟩ (helperName "ping") =
      some (.helper ⟨1, "home/", none⟩ "ping") := rfl
  rw [howner] at hcallable hsends
  exact hsends _ _ (Option.some.inj (hcallable.symm.trans hhelper))

theorem pingingAgain_begins : ∃ g s, s ∈ (pingingAgain.2.next pingingAgain_ready).after.sessions ∧
    s ∉ pingingAgain.2.sessions ∧ s.owner = ⟨"a"⟩ ∧ s.channel = ⟨2, "home/", none⟩ ∧
      Issued (pingingAgain.1 ++ [pingingAgain.2.next pingingAgain_ready])
        g s.channel s.owner s.token ∧
        g.resolved.clientApi = some pings := by
  have hbefore : pingingAgain.2.sessions.map (·.token) = [0] := rfl
  obtain ⟨g, s, hs, howner, hchannel, htoken, hissued⟩ :
      ∃ g s, s ∈ (pingingAgain.2.next pingingAgain_ready).after.sessions ∧ s.owner = ⟨"a"⟩ ∧
        s.channel = ⟨2, "home/", none⟩ ∧ s.token = 1 ∧
          Issued (pingingAgain.1 ++ [pingingAgain.2.next pingingAgain_ready]) g s.channel s.owner
            s.token ∧ g.resolved.clientApi = some pings :=
    ⟨_, _, .tail _ (.head _), rfl, rfl, rfl,
      ⟨_, .tail _ (.head _), ⟨_, _, _, rfl⟩, rfl, rfl, rfl⟩, rfl⟩
  refine ⟨g, s, hs, fun hold => ?_, howner, hchannel, hissued⟩
  have hmem := List.mem_map_of_mem (f := (·.token)) hold
  rw [hbefore, htoken] at hmem
  exact absurd hmem (by decide)

/-- The component pings then. -/
def pingCalled : World :=
  ((pingingAgain.2.next pingingAgain_ready).after.perform 3
    (.call ⟨"a"⟩ (helperName "ping") none)).1

def pingSent : List Moment × World := pingCalled.play [.steps 3]

theorem pingSent_on_first : ∃ m ∈ pingSent.1, m.task.id = 3 ∧ ∃ sent after,
    m.job = .transmit sent after ∧ sent.channel = ⟨1, "home/", none⟩ :=
  ⟨_, .tail _ (.tail _ (.head _)), rfl, _, _, rfl, rfl⟩

/-- So a helper does not always send on the connection that its component has just got. -/
theorem helper_sends_on_closed_connection :
    ¬ ∀ (w₀ v : World) (log : List Moment) (hv : v.ready ≠ []) (s : Session) (g : Grant)
      (d : Descriptor) (event : String), w₀.Blank → Run w₀ log v → s ∈ (v.next hv).after.sessions →
      s ∉ v.sessions → Issued (log ++ [v.next hv]) g s.channel s.owner s.token →
      g.resolved.clientApi = some d → (d.eventDefaults event).isSome = true →
      (v.next hv).after.Unnamed s.owner (helperName event) →
      CallSends (v.next hv).after s.owner (helperName event) s.channel event := by
  intro h
  obtain ⟨g, s, hs, hnew, howner, hchannel, hissued, hd⟩ := pingingAgain_begins
  have hsends :=
    h lobby pingingAgain.2 pingingAgain.1 pingingAgain_ready s g pings "ping" lobby_blank
    (.of_play lobby rfl) hs hnew hissued hd rfl (by rw [howner]; exact ⟨rfl, rfl⟩)
  have hstarted : (pingingAgain.2.next pingingAgain_ready).after.started = 2 := rfl
  have hlater : Run pingCalled pingSent.1 pingSent.2 := .of_play pingCalled rfl
  rw [howner, hchannel] at hsends
  obtain ⟨m, hm, hid, sent, after, hjob, hclosed⟩ := pingSent_on_first
  have hown : m ∈ pingSent.1.filter
      (·.task.id == (pingingAgain.2.next pingingAgain_ready).after.started + 1) :=
    List.mem_filter.2 ⟨hm, by rw [hid, hstarted]; rfl⟩
  have hopen := ((hsends.sends 3 none _ _ hlater).addressed m hown sent after hjob).1
  exact absurd (hclosed.symm.trans hopen) (by decide)

end World

end Patchbay
