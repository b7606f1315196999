import Patchbay.Proofs.Sessions.Minded

/-!
What is left when a component is torn down, and when the engine is shut down: nothing of what is
closed, and in the end nothing at all.
-/

namespace Patchbay

namespace World

variable {w₀ w₁ w : World} {openers : List Charge} {log log₁ log₂ : List Moment} {m : Moment}
  {g : Grant} {ticket : Nat} {name : String} {owner : ComponentId} {opts : ConnectOptions}

/-- Nothing was done yet, and nobody has anything. -/
structure Blank (w : World) : Prop extends Fresh w where
  hub : w.hub = []
  registry : w.registry.log = []
  owned : w.owned = []
  detached : w.detached = []

namespace Blank

/-- A world of servers, components and a store is blank when nothing of them is watched. -/
theorem of_unwatched {settings : Settings} {servers : List Server} {components : Fields Component}
    {store : Store} (hstore : store.tree.watches = [])
    (hcomponents : ∀ entry ∈ components, entry.2.data.watches = []) :
    Blank { settings, servers, components, store } where
  toFresh := .of_unwatched hstore hcomponents
  hub := rfl
  registry := rfl
  owned := rfl
  detached := rfl

theorem minded (h : w.Blank) : Minded [] [] w where
  listed n hn := by
    rw [h.hub] at hn
    cases hn
  roster := by
    constructor <;> simp [h.owned, h.detached]
  opened a ha := absurd ha List.not_mem_nil
  live a ha := absurd ha List.not_mem_nil
  registered r hr := by
    rw [h.registry] at hr
    cases hr
  kept entry hentry := by
    rw [h.persisted] at hentry
    cases hentry

theorem orderly (h : w.Blank) : Orderly true ⟨0, []⟩ [] w :=
  h.toFresh.orderly h.owned h.detached

end Blank

/-! Shutdown -/

/-- When nobody waits, nobody answers for anything after the engine is shut down. -/
theorem charges_shutdown (hidle : w.waiting = []) : w.shutdown.charges = [] := by
  have hclosed : Makes Change.Still (w.apply .disownAll) w.shutdown :=
    (Makes.foldl closeSession_makes _ _).mono fun _ hc => hc.still
  have hnone : (w.apply .disownAll).charges = [] := by
    have hwaiting : (w.apply .disownAll).waiting = w.waiting := rfl
    rw [charges, hwaiting, hidle]
    rfl
  exact List.perm_nil.1 (hnone ▸ hclosed.charges)

/-- So there is nothing for which anybody would have to. -/
theorem Minded.shutdown_clears (h : Minded openers [] w) (hidle : w.waiting = []) :
    (∀ a ∈ openers, w.shutdown.isConnected a.connection = false) ∧
      w.shutdown.registry.log = [] ∧ w.shutdown.persisted = [] := by
  have hdone := h.shutdown
  have hnobody (a : Charge) : a ∉ [] ++ w.shutdown.charges := by
    rw [charges_shutdown hidle]
    exact List.not_mem_nil
  refine ⟨fun a ha => Bool.eq_false_iff.2 fun hlive => hnobody a (hdone.live a ha hlive), ?_, ?_⟩
  · refine List.eq_nil_iff_forall_not_mem.2 fun r hr => ?_
    obtain ⟨a, ha, -⟩ := hdone.registered r hr
    exact hnobody a ha
  · refine List.eq_nil_iff_forall_not_mem.2 fun entry hentry => ?_
    obtain ⟨a, ha, -⟩ := hdone.kept entry hentry
    exact hnobody a ha

/-- When a component is torn down, nothing is left of the connections of its sessions that were to
go with it, these are counted, and it has no session any more. When the engine is shut down and no
connect request waits, all connections that were handed out are closed, and nothing is registered or
kept. -/
theorem closing_leaves_no_residue (hblank : w₀.Blank) (hrun : Run w₀ log w) :
    (∀ owner, (∀ s ∈ w.sessionsOf owner, s.teardown = true → Over s (w.teardown owner).1) ∧
        (w.teardown owner).2 = (w.sessionsOf owner).countP (·.teardown) ∧
        (w.teardown owner).1.sessionsOf owner = []) ∧
      (w.waiting = [] → (∀ g ∈ grants log, w.shutdown.isConnected g.serial = false) ∧
        w.shutdown.registry.log = [] ∧ w.shutdown.persisted = []) := by
  have horderly := hrun.orderly hblank.orderly
  have hminded := hrun.minded hblank.orderly hblank.minded
  constructor
  · intro owner
    refine ⟨teardown_over hminded.listed ?_, teardown_count w owner, sessionsOf_teardown w owner⟩
    exact fun s hs => horderly.own (hminded.roster.sessionsOf_subset owner hs)
  · intro hidle
    obtain ⟨hclosed, hregistry, hpersisted⟩ := hminded.shutdown_clears hidle
    refine ⟨?_, hregistry, hpersisted⟩
    intro g hg
    obtain ⟨o, ho, hfresh, hserial, -⟩ := (hrun.granted hblank.toFresh).opened g hg
    obtain ⟨m, hm, hgrant⟩ := List.mem_filterMap.1 ho
    obtain ⟨ticket, name, owner, opts, hjob, -⟩ := started_of_grant? hgrant
    have hopener := Moment.opener?_of_grant hjob hgrant
    rw [hfresh] at hopener
    rw [← hserial]
    exact hclosed _ (List.mem_append_right [] (List.mem_filterMap.2 ⟨m, hm, hopener⟩))

theorem lobby_blank : lobby.Blank := .of_unwatched rfl (List.forall_mem_nil _)

def leaving : ConnectOptions := { persist := .key "main", teardown := some true }

/-- One component opens a connection and another gets it too; the peer closes it, and it is
replaced; a third has one of its own. -/
def lobbyCrowded : List Moment × World :=
  lobby.play [.command 0 (.connect "x" ⟨"a"⟩ leaving), .steps 10,
    .command 1 (.connect "y" ⟨"b"⟩ shared), .steps 10, .command 2 (.kick "x"), .steps 10,
    .command 3 (.connect "z" ⟨"a"⟩ leaving), .steps 10,
    .command 4 (.connect "u" ⟨"c"⟩ {}), .steps 10]

theorem no_residue_of_crowded_lobby :
    ((lobbyCrowded.2.teardown ⟨"a"⟩).2 = 2 ∧ Gone 2 (lobbyCrowded.2.teardown ⟨"a"⟩).1) ∧
      lobbyCrowded.2.isConnected 3 = true ∧ lobbyCrowded.2.shutdown.isConnected 3 = false ∧
      lobbyCrowded.2.shutdown.registry.log = [] ∧ lobbyCrowded.2.shutdown.persisted = [] := by
  have hrun : Run lobby lobbyCrowded.1 lobbyCrowded.2 := .of_play lobby rfl
  obtain ⟨htorn, hshut⟩ := closing_leaves_no_residue lobby_blank hrun
  obtain ⟨hover, hcount, -⟩ := htorn ⟨"a"⟩
  obtain ⟨hclosed, hregistry, hpersisted⟩ := hshut rfl
  obtain ⟨s, hs, hteardown, hconnection⟩ : ∃ s ∈ lobbyCrowded.2.sessionsOf ⟨"a"⟩,
      s.teardown = true ∧ s.channel.connection = 2 := ⟨_, .tail _ (.head _), rfl, rfl⟩
  obtain ⟨g, hg, hserial⟩ : ∃ g ∈ grants lobbyCrowded.1, g.serial = 3 :=
    ⟨_, .tail _ (.tail _ (.tail _ (.head _))), rfl⟩
  refine ⟨⟨hcount.trans rfl, hconnection ▸ (hover s hs hteardown).toGone⟩, rfl, ?_, hregistry,
    hpersisted⟩
  exact hserial ▸ hclosed g hg

/-! Teardown while a request is under way -/

/-- After a component is torn down only its requests that wait answer for what is to go with it. -/
theorem Minded.charges_teardown (h : Minded openers [] w) {a : Charge}
    (ha : a ∈ (w.teardown owner).1.charges) (howner : a.owner = owner)
    (hteardown : a.teardown = true) :
    ∃ c ∈ w.waiting, c.charge? = some a := by
  rcases mem_charges.1 ha with ⟨c, hc, hcharge⟩ | ⟨s, hs, hcharge⟩
  · exact ⟨c, ((teardown_makes w owner).waiting fun _ h => h.elim).subset hc, hcharge⟩
  · have hsession := (h.teardown owner).roster.mem_sessionsOf hs
      ((congrArg Charge.teardown hcharge).trans hteardown)
    have hs' : s.owner = owner := (congrArg Charge.owner hcharge).trans howner
    rw [hs', sessionsOf_teardown] at hsession
    cases hsession

/-- Which connections a component's requests with teardown on have opened and left open, when the
component was torn down and they are over: those of requests that were under way at that time or
began later. Each has a session of the component by now, to be closed when it is torn down again. -/
theorem teardown_misses_only_requests_under_way (hblank : w₀.Blank) (hbefore : Run w₀ log₁ w₁)
    (hafter : Run (w₁.teardown owner).1 log₂ w) (hm : m ∈ log₁ ++ log₂)
    (hjob : m.job = .connect ticket name owner opts) (hg : m.grant? = some g)
    (hfresh : g.reused = false) (hteardown : g.resolved.teardown = true)
    (hdone : ∀ c ∈ w.waiting, c.pass.token ≠ m.world.tokens)
    (hlive : w.isConnected g.serial = true) :
    (m ∈ log₂ ∨ ∃ c ∈ w₁.waiting, c.pass.token = m.world.tokens ∧
        c.pass.channel.connection = g.serial) ∧
      ∃ s ∈ w.sessionsOf owner, s.token = m.world.tokens ∧ s.channel.connection = g.serial ∧
        s.teardown = true := by
  let a : Charge := ⟨g.serial, m.world.tokens, owner, true⟩
  have ha : m.opener? = some a := by
    rw [Moment.opener?_of_grant hjob hg, hfresh, hteardown]
    rfl
  have hopens {log : List Moment} (hm : m ∈ log) : a ∈ [] ++ log.filterMap Moment.opener? :=
    List.mem_filterMap.2 ⟨m, hm, ha⟩
  constructor
  · rcases List.mem_append.1 hm with hm | hm
    · have hminded := hbefore.minded hblank.orderly hblank.minded
      have htorn := hminded.teardown owner
      have hlasted := hafter.isConnected_earlier (htorn.opened a (hopens hm)) hlive
      have hanswers : a ∈ (w₁.teardown owner).1.charges := htorn.live a (hopens hm) hlasted
      obtain ⟨c, hc, hcharge⟩ := hminded.charges_teardown hanswers rfl rfl
      have heq := Connecting.charge_of_charge? hcharge
      exact .inr ⟨c, hc, congrArg Charge.token heq, congrArg Charge.connection heq⟩
    · exact .inl hm
  · have htorn : Run w₀ log₁ (w₁.teardown owner).1 := hbefore.command 0 (c := .teardown owner) nofun
    have hminded := (htorn.trans hafter).minded hblank.orderly hblank.minded
    rcases mem_charges.1 (hminded.live a (hopens hm) hlive) with ⟨c, hc, hcharge⟩ | ⟨s, hs, hcharge⟩
    · exact absurd (congrArg Charge.token (Connecting.charge_of_charge? hcharge)) (hdone c hc)
    · have hsession := hminded.roster.mem_sessionsOf hs (congrArg Charge.teardown hcharge)
      have howner : s.owner = owner := congrArg Charge.owner hcharge
      rw [howner] at hsession
      exact ⟨s, hsession, congrArg Charge.token hcharge, congrArg Charge.connection hcharge,
        congrArg Charge.teardown hcharge⟩

/-- A socket whose peer takes its time to say what it offers. -/
def bureau (answer : Json) : World :=
  { settings := { sockets := [{ name := "home", url := some "http://home" }] }
    servers := [{ namespaceName := "/", event := "getAPI",
                  reply := fun _ _ => { delay := some 50, answer := .value answer } }] }

theorem bureau_blank (answer : Json) : (bureau answer).Blank :=
  .of_unwatched rfl (List.forall_mem_nil _)

/-- A component asks. -/
def bureauAsked : List Moment × World :=
  (bureau (.obj [])).play [.command 0 (.connect "x" ⟨"a"⟩ { serverApi := some {} }), .steps 10]

/-- It is torn down, and then the peer answers. -/
def bureauAnswered : List Moment × World :=
  (bureauAsked.2.teardown ⟨"a"⟩).1.play [.pass 60, .steps 20]

theorem bureau_runs : Run (bureau (.obj [])) bureauAsked.1 bureauAsked.2 ∧
    Run (bureauAsked.2.teardown ⟨"a"⟩).1 bureauAnswered.1 bureauAnswered.2 :=
  ⟨.of_play _ rfl, .of_play _ rfl⟩

/-- The request that it made first. -/
theorem bureau_asks : ∃ m ∈ bureauAsked.1, ∃ ticket name opts g,
    m.job = .connect ticket name ⟨"a"⟩ opts ∧ m.grant? = some g ∧
      (g.serial, g.reused, g.resolved.teardown) = (1, false, true) :=
  ⟨_, .head _, _, _, _, _, rfl, rfl, rfl⟩

/-- It gets a session after all. -/
theorem session_after_answer : bureauAnswered.2.isConnected 1 = true ∧
    ∃ s ∈ bureauAnswered.2.sessionsOf ⟨"a"⟩, s.channel.connection = 1 ∧ s.teardown = true := by
  have hlive : bureauAnswered.2.isConnected 1 = true := rfl
  have hidle : bureauAnswered.2.waiting = [] := rfl
  obtain ⟨m, hm, ticket, name, opts, g, hjob, hg, hfacts⟩ := bureau_asks
  simp only [Prod.mk.injEq] at hfacts
  obtain ⟨hserial, hfresh, hteardown⟩ := hfacts
  have hdone : ∀ c ∈ bureauAnswered.2.waiting, c.pass.token ≠ m.world.tokens := by
    rw [hidle]
    exact fun c hc => absurd hc List.not_mem_nil
  obtain ⟨-, s, hs, -, hconnection, hstays⟩ := teardown_misses_only_requests_under_way
    (bureau_blank _) bureau_runs.1 bureau_runs.2
      (List.mem_append_left _ hm) hjob hg hfresh hteardown
    hdone (hserial ▸ hlive)
  exact ⟨hlive, s, hs, hconnection.trans hserial, hstays⟩

/-- So its connection is open when the component was torn down and all its requests are over. -/
theorem open_after_teardown :
    ¬ ∀ (w₀ w₁ w : World) (log₁ log₂ : List Moment) (m : Moment) (g : Grant) (ticket : Nat)
      (name : String) (owner : ComponentId) (opts : ConnectOptions), w₀.Blank → Run w₀ log₁ w₁ →
      Run (w₁.teardown owner).1 log₂ w → m ∈ log₁ → m.job = .connect ticket name owner opts →
      m.grant? = some g → g.reused = false → g.resolved.teardown = true → w.waiting = [] →
      w.isConnected g.serial = false := by
  intro h
  obtain ⟨m, hm, ticket, name, opts, g, hjob, hg, hfacts⟩ := bureau_asks
  simp only [Prod.mk.injEq] at hfacts
  obtain ⟨hserial, hfresh, hteardown⟩ := hfacts
  have hclosed := h _ _ _ _ _ m g ticket name _ opts (bureau_blank _) bureau_runs.1 bureau_runs.2 hm
    hjob hg hfresh hteardown rfl
  rw [hserial] at hclosed
  cases hclosed

end World

end Patchbay
