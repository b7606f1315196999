import Patchbay.Proofs.Sessions.Charges

/-!
Somebody answers for everything in every world of a run, whatever is opened, kept, handed out again,
evicted, torn down or fails meanwhile.
-/

namespace Patchbay

theorem Connecting.charge?_of_fresh {c : Connecting} (h : c.reused = false) :
    c.charge? = some c.charge := by
  simp [charge?, h]

theorem Connecting.charge?_of_reused {c : Connecting} (h : c.reused = true) : c.charge? = none := by
  simp [charge?, h]

theorem Connecting.charge_of_charge? {c : Connecting} {a : Charge} (h : c.charge? = some a) :
    c.charge = a := by
  unfold charge? at h
  split at h
  · cases h
  · exact Option.some.inj h

theorem Change.Wires.still {c : Change} (h : c.Wires) : c.Still := Among.still (h.among.mono rfl)

theorem Change.Acquires.still {c : Change} (h : c.Acquires) : c.Still := Among.still (h.mono rfl)

namespace World

variable {w₀ w w' acquired : World} {openers front : List Charge} {a : Charge} {c : Connecting}
  {s : Session} {owner : ComponentId} {r : Resolved} {serial : Nat} {reused : Bool} {past : Past}
  {log : List Moment} {m : Moment}

namespace Minded

/-! Sessions -/

/-- A request that is done goes on as a session. -/
theorem track (h : Minded openers [s.charge] w) : Minded openers [] (w.apply (.track s)) := by
  have hroster := h.roster.track s
  have hsessions := (track_sessions h.roster.once s).1
  simp only [apply] at hroster ⊢
  obtain ⟨owned, heq⟩ := track_eq w s
  rw [heq] at hsessions hroster ⊢
  refine h.regroup rfl rfl rfl rfl hroster ?_
  have hcharges :=
    (hsessions.map Session.charge).append_left (w.waiting.filterMap Connecting.charge?)
  exact (hcharges.trans List.perm_middle).symm.subset

theorem outlive (h : Minded openers (s.charge :: front) w) (hs : s.teardown = false) :
    Minded openers front (w.apply (.outlive s)) := by
  refine h.regroup rfl rfl rfl rfl (h.roster.outlive hs) ?_
  have hcharges := ((outlive_sessions w s).map Session.charge).append_left
    (w.waiting.filterMap Connecting.charge?)
  exact (((hcharges.trans List.perm_middle).append_left front).trans List.perm_middle).symm.subset

theorem disown (h : Minded openers [] w) (owner : ComponentId) :
    Minded openers ((w.sessionsOf owner).map Session.charge) (w.apply (.disown owner)) := by
  refine h.regroup rfl rfl rfl rfl (h.roster.disown owner) ?_
  have hsessions := (disown_sessions h.roster.once owner).map Session.charge
  rw [List.map_append] at hsessions
  have hmoved : (w.charges).Perm ((w.sessionsOf owner).map Session.charge ++
      (w.apply (.disown owner)).charges) := by
    refine (hsessions.symm.append_left _).trans ?_
    unfold charges
    rw [← List.append_assoc, ← List.append_assoc]
    exact List.perm_append_comm.append_right _
  exact hmoved.subset

theorem disownAll (h : Minded openers [] w) :
    Minded openers (w.sessions.map Session.charge) (w.apply .disownAll) := by
  refine h.regroup rfl rfl rfl rfl (.disownAll w) ?_
  have hnone : (w.apply .disownAll).charges = w.waiting.filterMap Connecting.charge? := by
    simp [charges, waiting, sessions, apply, jobs, tasks]
  have hmoved : w.charges.Perm (w.sessions.map Session.charge ++
      w.waiting.filterMap Connecting.charge?) := List.perm_append_comm
  rw [hnone]
  exact hmoved.subset

/-- A session that is closed leaves nothing behind that somebody would have to answer for. -/
theorem closeSession (h : Minded openers (s.charge :: front) w) :
    Minded openers front (w.closeSession s) :=
  (h.makes (closeSession_makes w s) fun _ hc => hc.minds).drop (closeSession_over h.listed s).toGone

theorem teardown (h : Minded openers [] w) (owner : ComponentId) :
    Minded openers [] (w.teardown owner).1 := by
  rw [teardown_eq]
  refine foldl_ends (I := fun front (acc : World × Nat) => Minded openers front acc.1) ?_ _ _
    (h.disown owner)
  intro acc s front hacc
  rcases parted_cases acc s with ⟨-, heq⟩ | ⟨hstays, heq⟩ <;> rw [heq]
  · exact hacc.closeSession
  · exact hacc.outlive hstays

theorem shutdown (h : Minded openers [] w) : Minded openers [] w.shutdown :=
  foldl_ends (fun _ _ _ hacc => hacc.closeSession) _ _ h.disownAll

/-! Connect requests -/

/-- What a pass registers somebody answers for who answers for its connection. -/
theorem attaches {p : Pass} {S : Scope → Prop} {held items : List Detach}
    (h : Minded openers front w) (ha : a ∈ front ++ w.charges)
    (hconnection : a.connection = p.channel.connection) (hattaches : Attaches p S held w items w') :
    Minded openers front w' := by
  refine h.later (hattaches.makes.mono fun _ hc => hc.still) ?_ ?_
  · intro r hr
    obtain ⟨more, hlog, hmore⟩ := hattaches.gains
    rw [hlog] at hr
    refine (List.mem_append.1 hr).imp_right fun hnew => ⟨a, ha, ?_⟩
    rw [(hmore r hnew).1, hconnection]
    rfl
  · have hfewer : w'.persisted ⊆ w.persisted := by
      refine hattaches.makes.keeps (I := fun w' => w'.persisted ⊆ w.persisted) ?_
        (List.Subset.refl _)
      exact fun w' ch hch hw => List.Subset.trans (apply_loosens w' hch.holds).kept.subset hw
    exact fun entry hentry => .inl (hfewer hentry)

theorem failConnect (h : Minded openers c.charge?.toList w) (error : EngineError) :
    Minded openers [] (w.failConnect c error) := by
  have hmade := h.makes (failConnect_makes w c error) fun _ hc => hc.minds
  cases hreused : c.reused with
  | true =>
    rw [Connecting.charge?_of_reused hreused] at hmade
    exact hmade
  | false =>
    rw [Connecting.charge?_of_fresh hreused] at hmade
    exact hmade.drop (failConnect_gone h.listed hreused error)

/-- The session of a request answers for the connection, also if that was kept. -/
theorem finishConnect (h : Minded openers [c.charge] w)
    (hopened : w.Opened c.pass.channel.connection)
    (api : Option ServerApi) : Minded openers [] (w.finishConnect c api) := by
  obtain ⟨handle, hfinished⟩ := finishConnect_eq w c api
  have hbound : Minded openers [(c.session (w.bindOwnApi c).2).charge] (w.bindOwnApi c).1 :=
    h.attaches (S := fun _ => True) List.mem_cons_self rfl (.bindOwnApi (.nothing hopened) trivial)
  rw [hfinished]
  exact hbound.track.makes (P := Change.Basic)
    (.more (.report _ _) (.one (.insertHandle _ _) trivial) trivial) fun _ hc => hc.works.minds

theorem answering (h : Minded openers c.charge?.toList w) : Minded openers [c.charge] w := by
  refine h.enlist ?_
  cases hreused : c.reused with
  | true => simp [Connecting.charge?_of_reused hreused]
  | false => simp [Connecting.charge?_of_fresh hreused]

theorem discovered (h : Minded openers c.charge?.toList w)
    (hopened : w.Opened c.pass.channel.connection) (answer : Json) :
    Minded openers [] (w.discovered c answer) := by
  rcases discovered_cases w c answer with ⟨error, hfailed⟩ | ⟨d, -, hfinished⟩
  · rw [hfailed]
    exact h.failConnect _
  · rw [hfinished]
    have hstart : Attaches c.pass (fun _ => True) c.wired.items w c.wired.items w :=
      .nothing hopened
    have hbinds := hstart.bindServerApi trivial c.resolved.ignoredEvents d
    have hbound := h.answering.attaches List.mem_cons_self rfl hbinds
    refine finishConnect ?_ ?_ _
    · exact hbound
    · exact hbinds.opened

theorem askOrFinish (h : Minded openers c.charge?.toList w)
    (hopened : w.Opened c.pass.channel.connection) : Minded openers [] (w.askOrFinish c) := by
  unfold World.askOrFinish
  split
  · exact h.answering.finishConnect hopened none
  · refine h.regroup rfl rfl rfl rfl (h.roster.congr rfl rfl) ?_
    have hsame (job : Job) : (w.resume job).sessions = w.sessions := rfl
    simp only [charges, resume_waiting, hsame, List.nil_append, Job.connecting?,
      AfterEmit.connecting?, Option.toList_some, List.singleton_append, List.filterMap_cons]
    cases c.charge? <;> exact List.Subset.refl _

/-- A request that gets a kept connection finds somebody who answers for it. -/
theorem acquire_reused (h : Minded openers front w)
    (hacquired : w.acquire r = (.ok (serial, true), acquired)) :
    acquired = w ∧ ∃ a ∈ front ++ w.charges, a.connection = serial := by
  rcases acquire_ok (congrArg Prod.fst hacquired) with ⟨-, hsame, -, slot, -, hkept⟩ | ⟨hfresh, -⟩
  · rw [hacquired] at hsame
    obtain ⟨a, ha, hheld⟩ := h.kept _ hkept
    exact ⟨hsame, a, ha, hheld.symm⟩
  · cases hfresh

/-- A request that opens a connection answers for it. -/
theorem acquire_fresh (h : Minded openers [] w)
    (hacquired : w.acquire r = (.ok (a.connection, false), acquired)) :
    Minded (openers ++ [a]) [a] acquired := by
  rcases acquire_cases w r with ⟨_, _, -, -, -, heq⟩ | ⟨start, hstart, -, heq⟩
  · rw [hacquired] at heq
    cases heq
  · have hopened := acquired_opened hacquired
    rw [hacquired] at heq
    have hstarted : Minded openers [a] start :=
      (h.makes hstart fun _ hc => hc.minds).enlist (List.nil_subset _)
    have hmakes := openFor_makes start r
    obtain ⟨hregistry, hkept⟩ := openFor_ok (congrArg Prod.fst heq).symm
    rw [← heq] at hmakes hregistry hkept
    refine opens (hstarted.later (hmakes.mono fun _ hc => hc.still) ?_ ?_) hopened
    · exact fun r hr => .inl (hregistry ▸ hr)
    · exact fun entry hentry => (hkept entry hentry).imp_right fun hheld =>
        ⟨a, List.mem_cons_self, hheld⟩

/-- After its first job a connect request has failed, waits for the peer's API or is a session. -/
theorem starts (h : Minded openers [] m.world) {ticket : Nat} {name : String} {owner : ComponentId}
    {opts : ConnectOptions} (hjob : m.job = .connect ticket name owner opts) :
    Minded (openers ++ m.opener?.toList) [] m.after := by
  cases hg : m.grant? with
  | none =>
    rw [Moment.opener?_of_refused hg, Option.toList_none, List.append_nil]
    exact h.makes (refused_of_grant? hjob hg) fun _ hc => hc.minds
  | some g =>
    obtain ⟨ticket', name', owner', opts', hjob', hok, hacquire, hexec⟩ := started_of_grant? hg
    obtain ⟨rfl, rfl, rfl, rfl⟩ := Job.connect.inj (hjob.symm.trans hjob')
    obtain ⟨acquired, hacquired, -, htokens, -⟩ := acquired_of_acquire _ hacquire
    obtain ⟨c, mid, hpass, hresolved, hreused, hattaches, hends⟩ :=
      startConnect_attaches hok hacquired ticket name owner
    have hwarned := h.makes (foldl_warn_makes m.world
      (Resolved.ofRequest m.world.settings m.world.runtimeSockets opts).2) fun _ hc =>
        hc.works.minds
    have hanswered : Minded (openers ++ m.opener?.toList) c.charge?.toList acquired ∧
        ∃ a ∈ c.charge?.toList ++ acquired.charges, a.connection = c.pass.channel.connection := by
      cases hkept : g.reused with
      | true =>
        have hnone : m.opener? = none := by
          rw [Moment.opener?_of_grant hjob hg, hkept]
          rfl
        rw [hkept] at hacquired hreused
        rw [hnone, Connecting.charge?_of_reused hreused, hpass]
        obtain ⟨rfl, hfound⟩ := hwarned.acquire_reused hacquired
        simpa using ⟨hwarned, hfound⟩
      | false =>
        rw [hkept] at hacquired hreused
        have hcharge : m.opener? = some c.charge := by
          rw [Moment.opener?_of_grant hjob hg, hkept, Connecting.charge, hpass, hresolved, htokens]
          rfl
        rw [hcharge, Connecting.charge?_of_fresh hreused]
        have hconnection : c.charge.connection = g.serial := by rw [Connecting.charge, hpass]
        rw [← hconnection] at hacquired
        exact ⟨hwarned.acquire_fresh hacquired, c.charge, List.mem_cons_self, rfl⟩
    obtain ⟨hminded, a, ha, hconnection⟩ := hanswered
    have hentered := hminded.makes (enter_makes acquired g.resolved) fun _ hc => hc.works.minds
    have hwired := hentered.attaches ha hconnection hattaches
    rw [hexec]
    rcases hends with ⟨error, heq⟩ | heq
    · exact heq ▸ hwired.failConnect error
    · exact heq ▸ hwired.askOrFinish hattaches.opened

/-! Steps and commands -/

/-- A request that waits is under way while its task runs. -/
theorem begin {task : Task} {rest : List Task} (h : Minded openers [] w)
    (hready : w.ready = task :: rest) :
    Minded openers (task.job.connecting?.bind Connecting.charge?).toList (w.begin task rest) := by
  refine h.regroup rfl rfl rfl rfl (h.roster.congr rfl rfl) ?_
  have hsame : (w.begin task rest).sessions = w.sessions := rfl
  simp only [charges, begin_waiting hready, hsame, List.filterMap_append, List.append_assoc,
    List.nil_append]
  cases task.job.connecting? with
  | none => simp
  | some c =>
    simp only [Option.toList_some, List.filterMap_cons, List.filterMap_nil, Option.bind_some]
    cases c.charge? <;> simp

theorem exec (h : Minded openers (m.job.connecting?.bind Connecting.charge?).toList m.world)
    (hopened : ∀ c, m.job.connecting? = some c → m.world.Opened c.pass.channel.connection) :
    Minded (openers ++ m.opener?.toList) [] m.after := by
  have hafter : m.after = m.world.exec m.job := rfl
  rcases exec_cases m.world m.job with
    ⟨ticket, name, owner, opts, hjob⟩ | ⟨result, c, hjob⟩ | ⟨hidle, hgoing, mid, e, hmid, -, heq⟩
  · rw [hjob] at h
    exact starts h hjob
  · rw [Moment.opener?_of_idle (by simp [hjob]), Option.toList_none, List.append_nil, hafter, hjob]
    rw [hjob] at h hopened
    cases result with
    | error e => exact h.failConnect _
    | ok outcome => exact h.discovered (hopened c rfl) _
  · have hsame : (mid.onward e).connections = mid.connections ∧ (mid.onward e).hub = mid.hub ∧
        (mid.onward e).registry = mid.registry ∧ (mid.onward e).persisted = mid.persisted ∧
          (mid.onward e).owned = mid.owned ∧ (mid.onward e).detached = mid.detached := by
      cases e <;> exact ⟨rfl, rfl, rfl, rfl, rfl, rfl⟩
    obtain ⟨hconnections, hhub, hregistry, hpersisted, howned, hdetached⟩ := hsame
    have hdone := h.makes hmid fun _ hc => hc.minds
    rw [Moment.opener?_of_idle hidle, Option.toList_none, List.append_nil, hafter]
    have hgoes : ∀ c, m.job.connecting? = some c → c ∈ (mid.onward e).waiting := fun c hc =>
      heq ▸ exec_goes_on hc fun result => hgoing result c
    rw [← heq]
    refine hdone.regroup hconnections hhub hregistry hpersisted
      (hdone.roster.congr howned hdetached) ?_
    intro a ha
    rcases List.mem_append.1 ha with hfront | hothers
    · obtain ⟨c, hc, hcharge⟩ := Option.bind_eq_some_iff.1 (Option.mem_toList.1 hfront)
      exact mem_charges.2 (.inl ⟨c, hgoes c hc, hcharge⟩)
    · refine mem_charges.2 ((mem_charges.1 hothers).imp ?_ ?_)
      · rintro ⟨c, hc, hcharge⟩
        exact ⟨c, (onward_waiting mid e).symm.subset (List.mem_append_right _ hc), hcharge⟩
      · rintro ⟨s, hs, hcharge⟩
        refine ⟨s, ?_, hcharge⟩
        rwa [sessions, howned, hdetached]

theorem perform (h : Minded openers [] w) (ticket : Nat) {c : Command} (hc : ∀ ms, c ≠ .wait ms) :
    Minded openers [] (w.perform ticket c).1 := by
  rcases perform_cases w ticket hc with
    ⟨owner, rfl⟩ | rfl | ⟨-, serial, hshuts⟩ | ⟨-, hhushes⟩ | hasks
  · exact h.teardown owner
  · exact h.shutdown
  · exact h.makes hshuts fun _ hc => hc.works.minds
  · exact h.makes hhushes fun _ hc => hc.minds
  · exact h.makes hasks fun _ hc => hc.works.minds

theorem wake (h : Minded openers [] w) : Minded openers [] w.wakeDue := by
  have hwoken := wakeDue_woken w
  refine h.regroup rfl rfl rfl rfl (h.roster.congr rfl rfl) ?_
  have hcharges : w.wakeDue.charges.Perm w.charges :=
    charges_perm ((hwoken.tasks.map _).filterMap _) rfl rfl
  exact hcharges.symm.subset

end Minded

/-- In every world of a run somebody answers for what was opened in it. -/
theorem Run.minded (h : Run w₀ log w) (horderly : Orderly true past [] w₀)
    (h₀ : Minded openers [] w₀) : Minded (openers ++ log.filterMap Moment.opener?) [] w := by
  induction h with
  | start => simpa using h₀
  | @step log w task rest hrun hready ih =>
    have hopened : ∀ c, task.job.connecting? = some c →
        (w.begin task rest).Opened c.pass.channel.connection := by
      intro c hc
      have hwaits : c ∈ w.waiting := by
        rw [begin_waiting hready, hc]
        exact List.mem_cons_self
      exact (hrun.orderly horderly).held.opened c.holder (mem_holding_of_waiting hwaits)
    rw [filterMap_concat, ← List.append_assoc]
    exact Minded.exec (m := ⟨task, w.begin task rest⟩) (ih.begin hready) hopened
  | command _ ticket hc ih => exact ih.perform ticket hc
  | pass _ _ ih => exact ih.regroup rfl rfl rfl rfl (ih.roster.congr rfl rfl) (List.Subset.refl _)
  | wake _ ih => exact ih.wake

end World

end Patchbay
