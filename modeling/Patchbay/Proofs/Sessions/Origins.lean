import Patchbay.Proofs.Sessions.Isolation

/-!
Where sessions come from. A session has the connection, the scope and the timeout that its own
connect request got, and so has a request that waits for the peer's API; all that are on one
connection are of one scope.
-/

namespace Patchbay

/-- The connection of a request under its scope, with the timeout that the request resolved to. -/
def Grant.channel (g : Grant) : Channel := ⟨g.serial, g.resolved.scope, g.resolved.emitTimeout⟩

/-- A connect request that got this channel, and this token with it. -/
structure Moment.Issues (m : Moment) (g : Grant) (channel : Channel) (owner : ComponentId)
    (token : Token) : Prop where
  starts : ∃ ticket name opts, m.job = .connect ticket name owner opts
  granted : m.grant? = some g
  channel : g.channel = channel
  token : m.world.tokens = token

namespace World

variable {w₀ w w' : World} {log more : List Moment} {m : Moment} {c : Connecting} {s : Session}
  {channel : Channel} {owner : ComponentId} {token : Token}

/-- The request of the run that got this channel, with what it got. -/
def Issued (log : List Moment) (g : Grant) (channel : Channel) (owner : ComponentId)
    (token : Token) :
    Prop :=
  ∃ m ∈ log, m.Issues g channel owner token

variable {g : Grant}

theorem Issued.later (h : Issued log g channel owner token) (more : List Moment) :
    Issued (log ++ more) g channel owner token := by
  obtain ⟨m, hm, hissues⟩ := h
  exact ⟨m, List.mem_append_left _ hm, hissues⟩

theorem Issued.mem_grants (h : Issued log g channel owner token) : g ∈ grants log := by
  obtain ⟨m, hm, hissues⟩ := h
  exact List.mem_filterMap.2 ⟨m, hm, hissues.granted⟩

theorem Issued.channel_eq (h : Issued log g channel owner token) : g.channel = channel := by
  obtain ⟨m, -, hissues⟩ := h
  exact hissues.channel

/-- The request began in the run, and is what it resolved to then. -/
def Began (log : List Moment) (c : Connecting) : Prop :=
  ∃ g, Issued log g c.pass.channel c.pass.owner c.pass.token ∧ g.resolved = c.resolved

theorem Began.later (h : Began log c) (more : List Moment) : Began (log ++ more) c := by
  obtain ⟨g, hissued, hresolved⟩ := h
  exact ⟨g, hissued.later more, hresolved⟩

/-- A request that gets a connection begins with it. -/
theorem began_of_grant? {ticket : Nat} {name : String} {opts : ConnectOptions} {warnings : Bool}
    (log : List Moment) (hg : m.grant? = some g) (hjob : m.job = .connect ticket name owner opts)
    (hpass : c.pass = ⟨⟨g.serial, g.resolved.scope, g.resolved.emitTimeout⟩, owner, m.world.tokens,
      warnings⟩)
    (hresolved : c.resolved = g.resolved) : Began (log ++ [m]) c := by
  refine ⟨g, ?_, hresolved.symm⟩
  rw [hpass]
  exact ⟨m, by simp, ⟨ticket, name, opts, hjob⟩, hg, rfl, rfl⟩

/-! No two requests get the same token -/

theorem tokens_lt_of_grant? (hg : m.grant? = some g) : m.world.tokens < m.after.tokens := by
  obtain ⟨ticket, name, owner, opts, -, hok, hacquire, hexec⟩ := started_of_grant? hg
  rw [hexec]
  exact startConnect_tokens hok hacquire ticket name owner

theorem Run.spent (h : Run w₀ log w) :
    (∀ m ∈ log, ∀ g, m.grant? = some g → m.world.tokens < w.tokens) ∧
      log.Pairwise fun m m' => ∀ g, m.grant? = some g → m.world.tokens < m'.world.tokens := by
  induction h with
  | start => exact ⟨fun _ hm => absurd hm List.not_mem_nil, .nil⟩
  | @step log w task rest hrun hready ih =>
    obtain ⟨hspent, happart⟩ := ih
    obtain ⟨mid, e, hmid, -, heq⟩ := exec_does (w.begin task rest) task.job
    have hlater : w.tokens ≤ ((w.begin task rest).exec task.job).tokens := by
      rw [← heq]
      cases e <;> exact hmid.tokens
    constructor
    · intro m hm g hg
      rcases List.mem_append.1 hm with hold | hnew
      · exact Nat.lt_of_lt_of_le (hspent m hold g hg) hlater
      · rw [List.mem_singleton.1 hnew] at hg ⊢
        exact tokens_lt_of_grant? hg
    · refine List.pairwise_append.2 ⟨happart, List.pairwise_singleton .., fun m hm m' hm' => ?_⟩
      rw [List.mem_singleton.1 hm']
      exact hspent m hm
  | command _ ticket hc ih =>
    obtain ⟨hspent, happart⟩ := ih
    exact ⟨fun m hm g hg => Nat.lt_of_lt_of_le (hspent m hm g hg)
      (perform_makes _ ticket hc).tokens, happart⟩
  | pass _ _ ih => exact ih
  | @wake _ w _ ih =>
    obtain ⟨_, _, heq, -, -⟩ := wakeDue_woken w
    rw [heq]
    exact ih

/-- Two requests of a run with one token are the same request. -/
theorem Run.issued_once {m' : Moment} {g' : Grant} {channel' : Channel} {owner' : ComponentId}
    (h : Run w₀ log w) (hm : m ∈ log) (hm' : m' ∈ log) (hissues : m.Issues g channel owner token)
    (hissues' : m'.Issues g' channel' owner' token) : m' = m := by
  have hsame : m'.world.tokens = m.world.tokens := hissues'.token.trans hissues.token.symm
  obtain ⟨i, hi, rfl⟩ := List.getElem_of_mem hm
  obtain ⟨j, hj, rfl⟩ := List.getElem_of_mem hm'
  have hapart := List.pairwise_iff_getElem.1 h.spent.2
  rcases Nat.lt_trichotomy i j with hlt | rfl | hlt
  · have := hapart i j hi hj hlt g hissues.granted
    omega
  · rfl
  · have := hapart j i hj hi hlt g' hissues'.granted
    omega

/-! What is new -/

theorem mem_of_mem_track {s' : Session} (h : s' ∈ (w.track s).sessions) :
    s' = s ∨ s' ∈ w.sessions := by
  unfold track at h
  split at h
  · simp only [sessions, List.flatMap_append, List.flatMap_cons, List.flatMap_nil, List.append_nil,
      List.mem_append, List.mem_singleton] at h ⊢
    rcases h with (hold | hnew) | hdetached
    · exact .inr (.inl hold)
    · exact .inl hnew
    · exact .inr (.inr hdetached)
  · rcases List.mem_append.1 h with howned | hdetached
    · obtain ⟨entry, hentry, hmem⟩ := List.mem_flatMap.1 howned
      obtain ⟨⟨o, hers⟩, hold, rfl⟩ := List.mem_map.1 hentry
      have hbefore (hmem : s' ∈ hers) : s' ∈ w.sessions :=
        List.mem_append_left _ (List.mem_flatMap.2 ⟨_, hold, hmem⟩)
      dsimp only at hmem
      split at hmem
      · exact (List.mem_append.1 hmem).elim (fun h => .inr (hbefore h))
          fun h => .inl (List.mem_singleton.1 h)
      · exact .inr (hbefore hmem)
    · exact .inr (List.mem_append_right _ hdetached)

/-- The session is that of the request. -/
def Connecting.Yields (c : Connecting) (s : Session) : Prop :=
  s.channel = c.pass.channel ∧ s.owner = c.pass.owner ∧ s.token = c.pass.token

theorem sessions_finishConnect {api : Option ServerApi} (h : s ∈ (w.finishConnect c api).sessions) :
    s ∈ w.sessions ∨ Connecting.Yields c s := by
  obtain ⟨handle, heq⟩ := finishConnect_eq w c api
  rw [heq] at h
  rcases mem_of_mem_track (w := (w.bindOwnApi c).1) h with rfl | hold
  · exact .inr ⟨rfl, rfl, rfl⟩
  · have hsame : (w.bindOwnApi c).1.sessions = w.sessions :=
      (bindOwnApi_makes w c).sessions fun _ hc => hc.wires.still
    exact .inl (hsame ▸ hold)

theorem sessions_askOrFinish (h : s ∈ (w.askOrFinish c).sessions) :
    s ∈ w.sessions ∨ Connecting.Yields c s := by
  unfold askOrFinish at h
  split at h
  · exact sessions_finishConnect h
  · exact .inl h

theorem sessions_finishEmit {result : Except EmitError EmitOutcome}
    (h : s ∈ (w.finishEmit result (.discovery c)).sessions) :
    s ∈ w.sessions ∨ Connecting.Yields c s := by
  have hold {error : EngineError} (h : s ∈ (w.failConnect c error).sessions) : s ∈ w.sessions := by
    rwa [(failConnect_makes w c error).sessions fun _ hc => hc.still] at h
  rcases finishDiscovery_cases w result c with ⟨error, hfailed⟩ | ⟨_, d, -, -, hfinished⟩
  · exact .inl (hold (hfailed ▸ h))
  · rw [hfinished] at h
    let bound := w.bindServerApi c.pass c.resolved.ignoredEvents d c.wired
    have hsame : bound.1.sessions = w.sessions :=
      (bindServerApi_makes w c.pass c.resolved.ignoredEvents d c.wired).sessions
        fun _ hc => hc.wires.still
    rcases sessions_finishConnect (c := { c with wired := bound.2.1 }) h with hold | hyields
    · exact .inl (hsame ▸ hold)
    · exact .inr hyields

/-- When a component is torn down its sessions go or are kept apart. -/
theorem sessions_teardown_subset (w : World) (owner : ComponentId) :
    (w.teardown owner).1.sessions ⊆ w.sessions := by
  obtain ⟨howned, hdetached⟩ := teardown_owned w owner
  have hers : w.sessionsOf owner ⊆ w.sessions := by
    intro s hs
    cases hlookup : w.owned.lookup owner with
    | none => simp [sessionsOf, hlookup] at hs
    | some list =>
      rw [sessionsOf, hlookup] at hs
      exact List.mem_append_left _ (List.mem_flatMap.2 ⟨_, mem_of_lookup hlookup, hs⟩)
  intro s hs
  rw [sessions, howned, hdetached] at hs
  rcases List.mem_append.1 hs with hothers | hkept
  · obtain ⟨entry, hentry, hmem⟩ := List.mem_flatMap.1 hothers
    exact List.mem_append_left _ (List.mem_flatMap.2 ⟨entry, (List.mem_filter.1 hentry).1, hmem⟩)
  · rcases List.mem_append.1 hkept with hold | hnew
    · exact List.mem_append_right _ hold
    · exact hers (List.mem_filter.1 hnew).1

/-- When the engine is shut down no session is left. -/
theorem sessions_shutdown (w : World) : w.shutdown.sessions = [] :=
  ((Makes.foldl closeSession_makes w.sessions (w.apply .disownAll)).sessions
    fun _ hc => hc.still).trans rfl

/-! The invariant -/

/-- Sessions and requests that wait have the channels of their own requests. -/
structure Rooted (log : List Moment) (w : World) : Prop where
  waiting : ∀ c ∈ w.waiting, Began log c
  sessions : ∀ s ∈ w.sessions, ∃ g, Issued log g s.channel s.owner s.token

namespace Rooted

theorem fewer (h : Rooted log w) (hwaiting : w'.waiting ⊆ w.waiting)
    (hsessions : w'.sessions ⊆ w.sessions) :
    Rooted log w' :=
  ⟨fun c hc => h.waiting c (hwaiting hc), fun s hs => h.sessions s (hsessions hs)⟩

theorem later (h : Rooted log w) (more : List Moment) : Rooted (log ++ more) w where
  waiting c hc := (h.waiting c hc).later more
  sessions s hs := by
    obtain ⟨g, hissued⟩ := h.sessions s hs
    exact ⟨g, hissued.later more⟩

theorem makes {P : Change → Prop} (h : Rooted log w) (hmakes : Makes P w w')
    (hP : ∀ ch, P ch → ch.Still) : Rooted log w' :=
  h.fewer (hmakes.waiting fun _ hjob => hP _ hjob).subset fun _ hs => hmakes.sessions hP ▸ hs

/-- A session that a request yields comes from where the request began. -/
theorem yields (hbegan : Began log c) (hyields : Connecting.Yields c s) :
    ∃ g, Issued log g s.channel s.owner s.token := by
  obtain ⟨g, hissued, -⟩ := hbegan
  obtain ⟨hchannel, howner, htoken⟩ := hyields
  exact ⟨g, by rwa [hchannel, howner, htoken]⟩

/-- A request that gets a connection is where its session comes from. -/
theorem starts (h : Rooted log m.world) (hg : m.grant? = some g) :
    Rooted (log ++ [m]) m.after := by
  obtain ⟨ticket, name, owner, opts, hjob, hok, hacquire, hexec⟩ := started_of_grant? hg
  obtain ⟨acquired, hacquired, -, htokens, hmakes⟩ := acquired_of_acquire _ hacquire
  obtain ⟨c, mid, hpass, hresolved, -, hattaches, hends⟩ :=
    startConnect_attaches hok hacquired ticket name owner
  rw [htokens] at hpass
  have hbegan : Began (log ++ [m]) c := began_of_grant? log hg hjob hpass hresolved
  have hmid : Rooted (log ++ [m]) mid :=
    (((h.later [m]).makes hmakes fun _ hc => hc.still).makes (enter_makes ..) fun _ hc =>
      hc.adds.still).makes hattaches.makes fun _ hc => hc.still
  rw [hexec]
  rcases hends with ⟨error, heq⟩ | heq
  · rw [heq]
    exact hmid.makes (failConnect_makes ..) fun _ hc => hc.still
  · rw [heq]
    constructor
    · intro c' hc'
      rcases askOrFinish_waiting hc' with rfl | hold
      · exact hbegan
      · exact hmid.waiting c' hold
    · intro s hs
      exact (sessions_askOrFinish hs).elim (hmid.sessions s) (yields hbegan)

/-- What a job leaves behind comes from requests of the run, if what it goes on with does. -/
theorem exec (h : Rooted log m.world) (hrunning : ∀ c, m.job.connecting? = some c → Began log c) :
    Rooted (log ++ [m]) m.after := by
  have hafter : m.after = m.world.exec m.job := rfl
  rcases exec_cases m.world m.job with
    ⟨ticket, name, owner, opts, hjob⟩ | ⟨result, c, hjob⟩ | ⟨-, -, mid, e, hmid, hleads, heq⟩
  · cases hg : m.grant? with
    | none => exact (h.later [m]).makes (refused_of_grant? hjob hg) fun _ hc => hc.acquires.still
    | some g => exact h.starts hg
  · have hdone : m.after = m.world.finishEmit result (.discovery c) := by rw [hafter, hjob]; rfl
    have hbegan : Began (log ++ [m]) c := (hrunning c (by rw [hjob]; rfl)).later [m]
    obtain ⟨hwaiting, hsessions⟩ := h.later [m]
    rw [hdone]
    constructor
    · intro c' hc'
      have hmakes := m.world.finishEmit_finishes result (.discovery c)
      exact hwaiting c' ((hmakes.waiting fun _ hjob => hjob.elim).subset hc')
    · intro s hs
      exact (sessions_finishEmit hs).elim (hsessions s) (yields hbegan)
  · have hmid := (h.later [m]).makes hmid fun _ hc => hc.adds.still
    rw [hafter, ← heq]
    refine ⟨fun c hc => ?_, ?_⟩
    · rcases List.mem_append.1 ((onward_waiting mid e).subset hc) with hnext | hold
      · obtain ⟨next, hnext, hc⟩ := List.mem_filterMap.1 hnext
        exact (hrunning c (hleads next (Option.mem_toList.1 hnext) c hc)).later [m]
      · exact hmid.waiting c hold
    · cases e <;> exact hmid.sessions

theorem perform (h : Rooted log w) (ticket : Nat) {c : Command} (hc : ∀ ms, c ≠ .wait ms) :
    Rooted log (w.perform ticket c).1 := by
  have hwaiting : (w.perform ticket c).1.waiting ⊆ w.waiting :=
    ((perform_makes w ticket hc).waiting fun _ hch => hch.spawns.1).subset
  rcases perform_cases w ticket hc with
    ⟨owner, rfl⟩ | rfl | ⟨-, serial, hshuts⟩ | ⟨-, hhushes⟩ | hasks
  · exact h.fewer hwaiting (sessions_teardown_subset w owner)
  · have hnone : (w.perform ticket .shutdown).1.sessions = [] := sessions_shutdown w
    exact h.fewer hwaiting (hnone ▸ List.nil_subset _)
  · exact h.makes hshuts fun _ hc => hc.works.adds.still
  · exact h.makes hhushes fun _ hc => hc.still
  · exact h.makes hasks fun _ hc => hc.works.adds.still

end Rooted

theorem Run.rooted (hblank : w₀.Blank) (h : Run w₀ log w) : Rooted log w := by
  induction h with
  | start =>
    have hidle : w₀.waiting = [] := by
      simp [World.waiting, jobs, tasks, hblank.ready, hblank.parked]
    have hnobody : w₀.sessions = [] := by simp [World.sessions, hblank.owned, hblank.detached]
    constructor <;> simp [hidle, hnobody]
  | @step log w task rest _ hready ih =>
    have hbegun := begin_waiting hready
    refine Rooted.exec (m := ⟨task, w.begin task rest⟩) ?_ fun c hc => ?_
    · exact ih.fewer (hbegun ▸ List.subset_append_right _ _) (List.Subset.refl _)
    · refine ih.waiting c ?_
      have htask : task.job.connecting? = some c := hc
      rw [hbegun, htask]
      exact List.mem_cons_self
  | command _ ticket hc ih => exact ih.perform ticket hc
  | pass _ _ ih => exact ih.fewer (List.Subset.refl _) (List.Subset.refl _)
  | @wake _ w _ ih =>
    exact ih.fewer (((wakeDue_woken w).tasks.map _).filterMap _).subset (List.Subset.refl _)

end World

end Patchbay
