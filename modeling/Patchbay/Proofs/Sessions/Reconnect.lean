import Patchbay.Proofs.Negotiation.Claimed
import Patchbay.Proofs.Sessions.Added
import Patchbay.Proofs.Sessions.RolledBack

/-!
A component that connects again with the same options, and gets the connection that it has. What the
second request would claim is claimed since the first, so its passes and its APIs attach nothing.
Only the listeners that keep the status of the connection are not claimed, and come again.
-/

namespace Patchbay

namespace World

/-! ### Requests that come through -/

/-- A request fails for want of a source, or has made both its passes. -/
theorem connectNamespace_cases (w : World) (c : Connecting) :
    (∃ v c' error, Makes Change.Wires w v ∧ w.connectNamespace c = v.failConnect c' error) ∨
      ∃ v mid attached attached', w.wireNamespace c.pass c.resolved.namespaceConfig =
        (v, .ok attached) ∧
        v.wireStore c.pass c.resolved.store = (mid, .ok attached') ∧
        w.connectNamespace c =
          mid.askOrFinish { c with wired := (c.wired.append attached).append attached' } := by
  rcases hnamespace : w.wireNamespace c.pass c.resolved.namespaceConfig with ⟨v, error | attached⟩
  · exact .inl ⟨w, c, _, .nothing, connectNamespace_of_error hnamespace⟩
  · rw [connectNamespace_of_ok hnamespace]
    rcases hstore : v.wireStore c.pass c.resolved.store with ⟨mid, error | attached'⟩
    · exact .inl ⟨v, { c with wired := c.wired.append attached }, .binding error,
        wireNamespace_makes hnamespace, connectStore_of_error hstore⟩
    · exact .inr ⟨v, mid, attached, attached', rfl, hstore, connectStore_of_ok hstore⟩

theorem sessions_failConnect (w : World) (c : Connecting) (error : EngineError) :
    (w.failConnect c error).sessions = w.sessions :=
  (failConnect_makes w c error).sessions fun _ hc => hc.still

end World

/-- The API that the peer has answered with. -/
def Moment.answered? (m : Moment) : Option Descriptor :=
  match m.job with
  | .emitDone (.ok outcome) (.discovery _) => read? (Json.ofOption outcome.answer?)
  | _ => none

/-- A connect request that comes through, from its start to its end: at once, or when the peer has
answered. A session begins with that. -/
structure Moment.Connects (m last : Moment) (owner : ComponentId) (opts : ConnectOptions)
    (g : Grant) : Prop where
  starts : ∃ ticket name, m.job = .connect ticket name owner opts
  granted : m.grant? = some g
  meanwhile : World.Meanwhile m last
  ends : last = m ∨ ∃ result c, last.job = .emitDone result (.discovery c) ∧
    c.pass.token = m.world.tokens
  begins : ∃ s ∈ last.after.sessions, s ∉ last.world.sessions

namespace World

variable {w w' start mid : World} {serial : Nat} {m last : Moment} {owner : ComponentId}
  {opts : ConnectOptions} {g : Grant} {c : Connecting}

/-- The passes of a request that goes well: it keeps the status, wires the namespace and the
store. -/
structure Passes (c : Connecting) (start mid : World) : Prop where
  opened : start.Opened c.pass.channel.connection
  wiring : ∃ v attached attached',
    (start.wireStatus c.pass c.resolved.statusKey c.resolved.url).1.wireNamespace c.pass
      c.resolved.namespaceConfig = (v, .ok attached) ∧
    v.wireStore c.pass c.resolved.store = (mid, .ok attached')

theorem Passes.adds (h : Passes c start mid) : Makes Change.Adds start mid := by
  obtain ⟨v, attached, attached', hnamespace, hstore⟩ := h.wiring
  exact (((wireStatus_makes ..).mono fun _ hc => hc.adds).trans
    ((wireNamespace_makes hnamespace).mono fun _ hc => hc.adds)).trans
      ((wireStore_makes hstore).mono fun _ hc => hc.adds)

/-- A request that got a connection fails for want of a source, or makes its passes. -/
theorem startConnect_passes {acquired : World} {r : Resolved} {reused : Bool}
    (hresolved : (Resolved.ofRequest w.settings w.runtimeSockets opts).1 = .ok r)
    (hacquired : ((Resolved.ofRequest w.settings w.runtimeSockets opts).2.foldl warn w).acquire r =
      (.ok (serial, reused), acquired)) (ticket : Nat) (name : String) (owner : ComponentId) :
    (∃ v c error, Makes Change.Adds w v ∧
      w.startConnect ticket name owner opts = v.failConnect c error) ∨
      ∃ c mid, c.pass = ⟨⟨serial, r.scope, r.emitTimeout⟩, owner, acquired.tokens, r.warnings⟩ ∧
        c.resolved = r ∧ Makes Change.Adds w mid ∧ Passes c (acquired.enter r) mid ∧
        w.startConnect ticket name owner opts = mid.askOrFinish c := by
  have hgot : Makes Change.Adds w acquired :=
    (acquired_makes hacquired).mono fun _ hc => hc.adds
  have hentered : Makes Change.Adds w (acquired.enter r) :=
    hgot.trans ((enter_makes ..).mono fun _ hc => hc.adds)
  have hopened : (acquired.enter r).Opened serial :=
    (acquired_opened hacquired).makes (enter_makes ..)
  rw [startConnect_of_acquired hresolved hacquired]
  generalize acquired.enter r = start at hentered hopened ⊢
  let p : Pass := ⟨⟨serial, r.scope, r.emitTimeout⟩, owner, acquired.tokens, r.warnings⟩
  rcases connectNamespace_cases (start.wireStatus p r.statusKey r.url).1
      ⟨ticket, name, r, p, reused, (start.wireStatus p r.statusKey r.url).2⟩ with
    ⟨v, c, error, hwires, hfailed⟩ | ⟨v, mid, attached, attached', hnamespace, hstore, hwired⟩
  · have hstatus : Makes Change.Adds start (start.wireStatus p r.statusKey r.url).1 :=
      (wireStatus_makes ..).mono fun _ hc => hc.adds
    exact .inl ⟨v, c, error,
      (hentered.trans hstatus).trans (hwires.mono fun _ hc => hc.adds), hfailed⟩
  · let wired := ((start.wireStatus p r.statusKey r.url).2.append attached).append attached'
    have hpasses : Passes ⟨ticket, name, r, p, reused, wired⟩ start mid :=
      ⟨hopened, v, attached, attached', hnamespace, hstore⟩
    exact .inr ⟨_, mid, rfl, rfl, hentered.trans hpasses.adds, hpasses, hwired⟩

/-- What a claim depends on is the same: the registry, who has a handler, and who was open still
is. -/
structure SameClaims (w w' : World) : Prop where
  registry : w'.registry = w.registry
  handlers : ∀ id, w'.handler? id = w.handler? id
  opened : ∀ n, w.Opened n → w'.Opened n

namespace SameClaims

theorem trans {w'' : World} (h : SameClaims w w') (h' : SameClaims w' w'') : SameClaims w w'' :=
  ⟨h'.registry.trans h.registry, fun id => (h'.handlers id).trans (h.handlers id),
    fun n hn => h'.opened n (h.opened n hn)⟩

theorem claimed {p q : Pass} {r : Resolved} {api : Option Descriptor} (h : SameClaims w w')
    (hclaimed : w.Claimed p r api) (hchannel : q.channel = p.channel) (howner : q.owner = p.owner) :
    w'.Claimed q r api :=
  hclaimed.later hchannel howner (h.registry ▸ List.Subset.refl _) (h.handlers p.owner)

end SameClaims

theorem Meantime.sameClaims (h : Meantime w w') : SameClaims w w' := by
  obtain ⟨log, hlog⟩ := h.run
  exact ⟨h.sameEntries.registry, hlog.handler?_eq, fun n hn => hlog.opened hn⟩

theorem Makes.sameClaims (h : Makes Change.Quiet w w') : SameClaims w w' :=
  ⟨h.registry_of_quiet, h.handler?_eq, fun _ hn => hn.makes h⟩

theorem sameClaims_resume (w : World) (job : Job) : SameClaims w (w.resume job) :=
  ⟨rfl, fun _ => rfl, fun _ h => h⟩

theorem sameClaims_begin (w : World) (task : Task) (rest : List Task) :
    SameClaims w (w.begin task rest) :=
  ⟨rfl, fun _ => rfl, fun _ h => h⟩

/-- How it ends after that: at once, or when the peer has answered. -/
inductive Completes (c : Connecting) (mid : World) (m : Moment) : Moment → Prop
  | once (hunasked : m.answered? = none) (hafter : m.after = mid.finishConnect c none) :
    Completes c mid m m
  | later {last : Moment} {d : Descriptor} (hasked : ∃ job, m.after = mid.resume job)
    (hmeantime : SameClaims m.after last.world) (hanswered : last.answered? = some d)
    (hafter : last.after = last.world.finishWith c d) : Completes c mid m last

/-- The answer to a request that comes through can be read. -/
theorem finishEmit_completes {v : World} {result : Except EmitError EmitOutcome}
    (hbegins : ∃ s ∈ (v.finishEmit result (.discovery c)).sessions, s ∉ v.sessions) :
    ∃ outcome d, result = .ok outcome ∧ read? (Json.ofOption outcome.answer?) = some d ∧
      v.finishEmit result (.discovery c) = v.finishWith c d := by
  obtain ⟨s, hs, hnew⟩ := hbegins
  have hnone {error : EngineError}
      (heq : v.finishEmit result (.discovery c) = v.failConnect c error) : False := by
    rw [heq, sessions_failConnect] at hs
    exact hnew hs
  refine (finishDiscovery_cases v result c).resolve_left ?_
  exact fun ⟨_, hfailed⟩ => hnone hfailed

/-- The request that is over at a later moment waits after its first job, and no claim is made or
given up meanwhile. -/
theorem waits_of_connects (h : m.Connects last owner opts g)
    (hspent : m.world.tokens < m.after.tokens) (hne : last ≠ m) :
    ∃ result c, last.job = .emitDone result (.discovery c) ∧ c.pass.token = m.world.tokens ∧
      c ∈ m.after.waiting ∧ SameClaims m.after last.world := by
  obtain ⟨result, c, hdone, htoken⟩ := h.ends.resolve_left hne
  cases h.meanwhile with
  | once => exact absurd rfl hne
  | @later v task rest hmeantime hready =>
    obtain ⟨log, hlog⟩ := hmeantime.run
    have htask : task.job = .emitDone result (.discovery c) := hdone
    have hconnecting : task.job.connecting? = some c := by
      rw [htask]
      rfl
    exact ⟨result, c, hdone, htoken, (hlog.step hready).waited
      (List.mem_append_right _ List.mem_cons_self) hconnecting (htoken ▸ hspent),
      hmeantime.sameClaims.trans (sameClaims_begin ..)⟩

/-- A request that was over at once has become a session. -/
theorem finishConnect_of_begins (hasked : w' = mid.askOrFinish c)
    (hsame : mid.sessions = w.sessions)
    (hbegins : ∃ s ∈ w'.sessions, s ∉ w.sessions) : w' = mid.finishConnect c none := by
  unfold askOrFinish at hasked
  split at hasked
  · exact hasked
  · obtain ⟨s, hs, hnew⟩ := hbegins
    rw [hasked] at hs
    exact absurd (hsame ▸ hs) hnew

/-- A request that comes through makes both its passes and completes. -/
theorem completes_of_connects (h : m.Connects last owner opts g)
    (hgiven : ∀ c ∈ m.world.waiting, c.pass.token < m.world.tokens) :
    ∃ acquired c mid, c.pass = ⟨⟨g.serial, g.resolved.scope, g.resolved.emitTimeout⟩, owner,
        m.world.tokens, g.resolved.warnings⟩ ∧ c.resolved = g.resolved ∧
      ((Resolved.ofRequest m.world.settings m.world.runtimeSockets opts).2.foldl warn
        m.world).acquire g.resolved = (.ok (g.serial, g.reused), acquired) ∧
      Passes c (acquired.enter g.resolved) mid ∧ Completes c mid m last := by
  obtain ⟨ticket, name, hstart⟩ := h.starts
  obtain ⟨ticket', name', owner', opts', hjob, hok, hacquire, hexec⟩ := started_of_grant? h.granted
  rw [hjob] at hstart
  obtain ⟨rfl, rfl, rfl, rfl⟩ := Job.connect.inj hstart.symm
  obtain ⟨acquired, hacquired, -, htokens, -⟩ := acquired_of_acquire _ hacquire
  have hspent := startConnect_tokens hok hacquire ticket name owner
  rw [← hexec] at hspent
  have hothers {v : World} (hmade : Makes Change.Adds m.world v) :
      v.sessions = m.world.sessions ∧ ∀ c ∈ v.waiting, c.pass.token ≠ m.world.tokens :=
    ⟨hmade.sessions fun _ hc => hc.still, fun c hc =>
      Nat.ne_of_lt (hgiven c ((hmade.waiting fun _ hj => hj).subset hc))⟩
  rcases startConnect_passes hok hacquired ticket name owner with
    ⟨v, c, error, hmade, hfailed⟩ | ⟨c, mid, hpass, hresolved, hmade, hpasses, hasked⟩
  · exfalso
    obtain ⟨hsame, hwaits⟩ := hothers hmade
    have hfailed := hexec.trans hfailed
    by_cases honce : last = m
    · obtain ⟨s, hs, hnew⟩ := honce ▸ h.begins
      rw [hfailed, sessions_failConnect, hsame] at hs
      exact hnew hs
    · obtain ⟨result, c', -, htoken, hstill, -⟩ := waits_of_connects h hspent honce
      rw [hfailed] at hstill
      exact hwaits c' ((failConnect_waiting v c error).subset hstill) htoken
  · obtain ⟨hsame, hwaits⟩ := hothers hmade
    refine ⟨acquired, c, mid, htokens ▸ hpass, hresolved, hacquired, hpasses, ?_⟩
    have hasked := hexec.trans hasked
    by_cases honce : last = m
    · subst honce
      refine .once ?_ (finishConnect_of_begins hasked hsame h.begins)
      simp only [Moment.answered?, hjob]
    · obtain ⟨result, c', hdone, htoken, hstill, hsame⟩ := waits_of_connects h hspent honce
      obtain ⟨rfl, hwaiting⟩ := asked_of_waits hstill htoken hwaits (.inr hasked)
      have hbegins := h.begins
      have hover : last.after = last.world.finishEmit result (.discovery c') := by
        have htask : last.task.job = .emitDone result (.discovery c') := hdone
        rw [Moment.after, htask]
        rfl
      rw [hover] at hbegins
      obtain ⟨outcome, d, rfl, hread, heq⟩ := finishEmit_completes hbegins
      refine .later hwaiting hsame ?_ (hover.trans heq)
      simp only [Moment.answered?, hdone, hread]

/-! ### The first request claims, the second finds all claimed -/

/-- The passes of a request leave nothing of their lanes free. -/
theorem Passes.claimed (h : Passes c start mid) :
    ∀ l ∈ namespaceLanes c.pass c.resolved.namespaceConfig ++ storeLanes c.pass c.resolved.store,
      l.Claimed mid.registry := by
  obtain ⟨v, attached, attached', hnamespace, hstore⟩ := h.wiring
  have hstatus := h.opened.makes (wireStatus_makes start c.pass c.resolved.statusKey c.resolved.url)
  have hwired := hstatus.makes (wireNamespace_makes hnamespace)
  have hlater := (wireStore_makes hstore).registered fun _ hc => hc
  intro l hl
  rcases List.mem_append.1 hl with hl | hl
  · exact ((wireNamespace_exactly hstatus hnamespace).claimed l hl).mono hlater
  · exact (wireStore_exactly hwired hstore).claimed l hl

/-- Where nothing of the lanes is free, only the status is kept from then on. -/
theorem Passes.addsOnly (h : Passes c start mid)
    (hclaimed : ∀ l ∈ namespaceLanes c.pass c.resolved.namespaceConfig ++
      storeLanes c.pass c.resolved.store, l.Claimed start.registry) :
    AddsOnly c.pass.channel.connection
      (start.statusListeners c.pass.owner c.resolved.statusKey c.pass.token) start mid := by
  obtain ⟨v, attached, attached', hnamespace, hstore⟩ := h.wiring
  have hstatus := wireStatus_addsOnly h.opened c.resolved.statusKey c.resolved.url
  rw [← hstatus.registry] at hclaimed
  obtain rfl :=
    wireNamespace_of_claimed (fun l hl => hclaimed l (List.mem_append_left _ hl)) hnamespace
  obtain rfl := wireStore_of_claimed (fun l hl => hclaimed l (List.mem_append_right _ hl)) hstore
  exact hstatus

theorem finishConnect_inert {answered : Option Descriptor}
    (h : w.Claimed c.pass c.resolved answered)
    (api : Option ServerApi) : Makes Change.Inert w (w.finishConnect c api) := by
  obtain ⟨handle, heq⟩ := finishConnect_eq w c api
  have hbound := (bindOwnApi_of_claimed h).mono fun _ hc => hc.inert
  rw [heq]
  exact .more (.report _ _)
    (.more (.insertHandle _ _) (.more (.track _) hbound trivial) trivial) trivial

theorem finishWith_inert {d : Descriptor} (h : w.Claimed c.pass c.resolved (some d)) :
    Makes Change.Inert w (w.finishWith c d) := by
  have hbound := bindServerApi_of_claimed (h.events d rfl) c.wired
  have hclaimed := hbound.sameClaims.claimed h rfl rfl
  let ending : Connecting :=
    { c with wired := (w.bindServerApi c.pass c.resolved.ignoredEvents d c.wired).2.1 }
  exact (hbound.mono fun _ hc => hc.inert).trans (finishConnect_inert (c := ending) hclaimed _)

/-- A request that has completed has claimed all that a request of its kind claims. -/
theorem Completes.claims (h : Completes c mid m last)
    (hopened : mid.Opened c.pass.channel.connection)
    (hlanes : ∀ l ∈ namespaceLanes c.pass c.resolved.namespaceConfig ++
      storeLanes c.pass c.resolved.store, l.Claimed mid.registry) :
    last.after.Claimed c.pass c.resolved last.answered? := by
  cases h with
  | once hunasked hafter =>
    rw [hunasked, hafter]
    exact finishConnect_claims hlanes (by simp) none
  | @later last d hasked hmeantime hanswered hafter =>
    obtain ⟨job, hasked⟩ := hasked
    have hsame : SameClaims mid last.world := by
      exact (sameClaims_resume mid job).trans (hasked ▸ hmeantime)
    have hbound :=
      bindServerApi_negotiates (hsame.opened _ hopened) c.resolved.ignoredEvents d c.wired
    have hlater := (bindServerApi_makes last.world c.pass c.resolved.ignoredEvents d
      c.wired).registered_of_binds
    rw [← hsame.registry] at hlanes
    let ending : Connecting :=
      { c with wired := (last.world.bindServerApi c.pass c.resolved.ignoredEvents d c.wired).2.1 }
    rw [hanswered, hafter]
    refine finishConnect_claims (c := ending) (fun l hl => (hlanes l hl).mono hlater) ?_ _
    rintro d' hd' event hevent
    obtain rfl := Option.some.inj hd'
    exact hbound.claimed hevent

/-- What a request adds that finds everything claimed: nothing but the listeners that keep the
status of its connection. -/
theorem Completes.addsOnly (h : Completes c mid m last) (hpasses : Passes c start mid)
    (hclaimed : start.Claimed c.pass c.resolved last.answered?) :
    AddsOnly c.pass.channel.connection
        (start.statusListeners c.pass.owner c.resolved.statusKey c.pass.token) start m.after ∧
      (last = m ∨ AddsOnly c.pass.channel.connection [] last.world last.after) := by
  have hadds := hpasses.addsOnly hclaimed.lanes
  have hsame : SameClaims start mid :=
    ⟨hadds.registry, hpasses.adds.handler?_eq, fun _ hn => hn.makes hpasses.adds⟩
  have hmid := hsame.claimed hclaimed rfl rfl
  cases h with
  | once hunasked hafter =>
    rw [hafter]
    exact ⟨hadds.after ((finishConnect_inert hmid none).addsOnly (fun _ h => h) _), .inl rfl⟩
  | @later last d hasked hmeantime hanswered hafter =>
    obtain ⟨job, hasked⟩ := hasked
    rw [hasked] at hmeantime ⊢
    rw [hanswered] at hmid
    refine ⟨hadds.after (.resume _ mid job), .inr ?_⟩
    rw [hafter]
    exact (finishWith_inert (((sameClaims_resume mid job).trans hmeantime).claimed hmid rfl
      rfl)).addsOnly (fun _ h => h) _

/-! ### Connecting again -/

variable {w₀ u v : World} {log : List Moment} {firstLast secondLast : Moment} {g' : Grant}

theorem Run.settings (h : Run w₀ log w) : w.settings = w₀.settings :=
  h.keeps (I := fun w => w.settings = w₀.settings)
    (fun w ch hw => (apply_settings w ch).trans hw) (fun _ _ _ _ _ hw => hw) rfl

theorem Meanwhile.run (h : Meanwhile m last) : ∃ log, Run m.after log last.after := by
  cases h with
  | once => exact ⟨[], .start⟩
  | later hmeantime hready =>
    obtain ⟨log, hlog⟩ := hmeantime.run
    exact ⟨_, hlog.step hready⟩

/-- With the same lists of sockets the same options resolve to the same. -/
theorem resolved_eq_of_connects {m' last' : Moment} (h : m.Connects last owner opts g)
    (h' : m'.Connects last' owner opts g') (hsettings : m'.world.settings = m.world.settings)
    (hsockets : m'.world.runtimeSockets = m.world.runtimeSockets) : g'.resolved = g.resolved := by
  have hresolves {m last : Moment} {g : Grant} (h : m.Connects last owner opts g) :
      (Resolved.ofRequest m.world.settings m.world.runtimeSockets opts).1 = .ok g.resolved := by
    obtain ⟨ticket, name, hstart⟩ := h.starts
    obtain ⟨ticket', name', owner', opts', hjob, hok, -, -⟩ := started_of_grant? h.granted
    rw [hjob] at hstart
    obtain ⟨rfl, rfl, rfl, rfl⟩ := Job.connect.inj hstart.symm
    exact hok
  have hsame := hresolves h'
  rw [hsettings, hsockets, hresolves h] at hsame
  exact (Except.ok.inj hsame).symm

/-- A request that reuses a connection changes little before it wires. -/
theorem enter_of_reused {warnings : List Warning} {acquired : World} {r : Resolved}
    (h : (warnings.foldl warn w).acquire r = (.ok (serial, true), acquired)) :
    SameClaims w (acquired.enter r) ∧ AddsOnly serial [] w (acquired.enter r) ∧
      ∀ place, (acquired.enter r).tree place = w.tree place := by
  obtain ⟨-, hsame, -⟩ | ⟨hfresh, -⟩ := acquire_ok (congrArg Prod.fst h)
  · rw [h] at hsame
    obtain rfl : acquired = warnings.foldl warn w := hsame
    rw [foldl_warn_eq]
    have htree (place : Place) :
        (({ w with trace := w.trace ++ warnings.map .warned } : World).enter r).tree place =
          w.tree place := by
      cases place <;> rfl
    exact ⟨⟨rfl, fun _ => rfl, fun _ h => h⟩,
      ⟨rfl, fun place => congrArg Tree.created (htree place),
      ⟨[], (List.append_nil _).symm, rfl⟩, fun _ _ => rfl⟩, htree⟩
  · cases hfresh

/-- Connecting again attaches the status listeners again, and nothing else. A component connects,
and when that is over, and nothing was claimed or given up since, it connects again with the same
options and gets the same connection; the peer answers with the same API, if it is asked. Whatever
the component's data are, the second request starts with the listeners that keep the status, where
the data have a place for it: these are attached without a claim. It registers nothing, starts no
watch, makes nobody else listen, and goes on in the same way while it waits and when the peer has
answered. -/
theorem reconnect_repeats_status_only (hfresh : w₀.Fresh) (hrun : Run w₀ log u) (hu : u.ready ≠ [])
    (hfirst : (u.next hu).Connects firstLast owner opts g) (hmeantime : Meantime firstLast.after v)
    (hv : v.ready ≠ []) (hsecond : (v.next hv).Connects secondLast owner opts g')
    (hsockets : v.runtimeSockets = u.runtimeSockets) (hreused : g'.reused = true)
    (hserial : g'.serial = g.serial) (hanswer : secondLast.answered? = firstLast.answered?) :
    AddsOnly g.serial (v.statusListeners owner g.resolved.statusKey v.tokens) (v.next hv).world
        (v.next hv).after ∧
      (∀ m : Moment, m.Asks v.tokens → AddsOnly g.serial [] m.world m.after) ∧
      (secondLast = v.next hv ∨ AddsOnly g.serial [] secondLast.world secondLast.after) := by
  have hbegun (w : World) (hw : w.ready ≠ []) : w.ready = w.ready.head hw :: w.ready.tail :=
    (List.cons_head_tail hw).symm
  obtain ⟨log₁, hover⟩ := hfirst.meanwhile.run
  obtain ⟨log₂, hthen⟩ := hmeantime.run
  have hrun' := ((hrun.next hu).trans hover).trans hthen
  obtain ⟨_, c, mid, hpass, hresolved, -, hpasses, hcompletes⟩ :=
    completes_of_connects hfirst (hrun.begin_given hfresh (hbegun u hu))
  have hclaimed := hcompletes.claims (hpasses.opened.makes hpasses.adds) hpasses.claimed
  obtain ⟨acquired, c', mid', hpass', hresolved', hacquired, hpasses', hcompletes'⟩ :=
    completes_of_connects hsecond (hrun'.begin_given hfresh (hbegun v hv))
  have hsame : g'.resolved = g.resolved :=
    resolved_eq_of_connects hfirst hsecond (hrun'.settings.trans hrun.settings.symm) hsockets
  rw [hreused] at hacquired
  obtain ⟨hclaims, hentered, htree⟩ := enter_of_reused hacquired
  have hconnection : c'.pass.channel.connection = g.serial := by rw [hpass', hserial]
  have hstill : (acquired.enter g'.resolved).Claimed c'.pass c'.resolved secondLast.answered? := by
    have hkept := (hmeantime.sameClaims.trans (sameClaims_begin ..)).trans hclaims
    have hthere := hkept.claimed (q := c'.pass) hclaimed (by rw [hpass', hpass, hsame, hserial])
      (by rw [hpass', hpass])
    rw [hresolved']
    rwa [hresolved, ← hsame, ← hanswer] at hthere
  obtain ⟨hadds, hlast⟩ := hcompletes'.addsOnly hpasses' hstill
  have hlisteners : (acquired.enter g'.resolved).statusListeners c'.pass.owner c'.resolved.statusKey
      c'.pass.token = v.statusListeners owner g.resolved.statusKey v.tokens := by
    have hdata := htree (.component owner)
    simp only [statusListeners, hpass', hresolved', hsame] at hdata ⊢
    rw [hdata]
    rfl
  rw [hconnection] at hlast
  rw [hlisteners, hconnection] at hadds
  rw [hserial] at hentered
  exact ⟨hentered.before hadds, fun _ hasks => hasks.addsOnly _, hlast⟩

/-! A component that reads the news and asks for the peer's API, twice -/

/-- What the peer answers. -/
def offersOnly : Json := .obj [("evts", .obj [("offers", .emptyObject)])]

/-- Its data has a place for the status of the connection. -/
def vestibule : World :=
  { settings := { sockets := [{ name := "home", url := some "http://home" }] }
    components := [("a", { data := .ofJson (.obj [("socketStatus", .emptyObject)]) })]
    servers := [{
      namespaceName := "/", event := "getAPI",
      reply := fun _ _ => { answer := .value offersOnly } }] }

theorem vestibule_fresh : vestibule.Fresh :=
  .of_unwatched rfl fun entry hentry => by rw [List.mem_singleton.1 hentry]; rfl

def newsAndApi : ConnectOptions :=
  { persist := .key "main", namespaceConfig := reading "news", serverApi := some {} }

def vestibuleCalled : List Moment × World :=
  vestibule.play [.command 0 (.connect "x" ⟨"a"⟩ newsAndApi)]

theorem vestibuleCalled_ready : vestibuleCalled.2.ready ≠ [] := List.cons_ne_nil _ _

/-- The peer answers the first request. -/
def vestibuleAnswered : World := ((vestibuleCalled.2.next vestibuleCalled_ready).after.steps 10).2

theorem vestibuleAnswered_ready : vestibuleAnswered.ready ≠ [] := List.cons_ne_nil _ _

/-- The component asks again. -/
def vestibuleAgain : World :=
  ((vestibuleAnswered.next vestibuleAnswered_ready).after.perform 1
    (.connect "y" ⟨"a"⟩ newsAndApi)).1

theorem vestibuleAgain_ready : vestibuleAgain.ready ≠ [] := List.cons_ne_nil _ _

/-- The peer answers as before. -/
def vestibuleDone : World := ((vestibuleAgain.next vestibuleAgain_ready).after.steps 9).2

theorem vestibuleDone_ready : vestibuleDone.ready ≠ [] := List.cons_ne_nil _ _

/-- A session with a new token has begun. -/
theorem begins_of_tokens {m : Moment} {old new : List Token} {t : Token}
    (hbefore : m.world.sessions.map (·.token) = old) (hafter : m.after.sessions.map (·.token) = new)
    (ht : t ∈ new) (hnew : t ∉ old) : ∃ s ∈ m.after.sessions, s ∉ m.world.sessions := by
  obtain ⟨s, hs, rfl⟩ := List.mem_map.1 (hafter ▸ ht)
  exact ⟨s, hs, fun hold => hnew (hbefore ▸ List.mem_map_of_mem hold)⟩

theorem vestibule_connects : ∃ g,
    (vestibuleCalled.2.next vestibuleCalled_ready).Connects
      (vestibuleAnswered.next vestibuleAnswered_ready) ⟨"a"⟩ newsAndApi g ∧
      (g.serial, g.resolved.statusKey) = (1, "socketStatus") := by
  obtain ⟨g, hg, hfacts⟩ : ∃ g, (vestibuleCalled.2.next vestibuleCalled_ready).grant? = some g ∧
      (g.serial, g.resolved.statusKey) = (1, "socketStatus") := ⟨_, rfl, rfl⟩
  have hmeantime :
      Meantime (vestibuleCalled.2.next vestibuleCalled_ready).after vestibuleAnswered :=
    Meantime.start.steps 10 rfl
  obtain ⟨result, c, hdone, htoken⟩ : ∃ result c,
      (vestibuleAnswered.next vestibuleAnswered_ready).job = .emitDone result (.discovery c) ∧
        c.pass.token = 0 := ⟨_, _, rfl, rfl⟩
  have hgiven : (vestibuleCalled.2.next vestibuleCalled_ready).world.tokens = 0 := rfl
  have hbefore :
      (vestibuleAnswered.next vestibuleAnswered_ready).world.sessions.map (·.token) = [] :=
    rfl
  have hafter :
      (vestibuleAnswered.next vestibuleAnswered_ready).after.sessions.map (·.token) = [0] :=
    rfl
  exact ⟨g, {
    starts := ⟨_, _, rfl⟩
    granted := hg
    meanwhile := hmeantime.next vestibuleAnswered_ready
    ends := .inr ⟨result, c, hdone, htoken.trans hgiven.symm⟩
    begins := begins_of_tokens hbefore hafter List.mem_cons_self List.not_mem_nil }, hfacts⟩

theorem vestibule_connects_again : ∃ g,
    (vestibuleAgain.next vestibuleAgain_ready).Connects
      (vestibuleDone.next vestibuleDone_ready) ⟨"a"⟩
      newsAndApi g ∧ (g.serial, g.reused) = (1, true) := by
  obtain ⟨g, hg, hfacts⟩ : ∃ g, (vestibuleAgain.next vestibuleAgain_ready).grant? = some g ∧
      (g.serial, g.reused) = (1, true) := ⟨_, rfl, rfl⟩
  have hmeantime : Meantime (vestibuleAgain.next vestibuleAgain_ready).after vestibuleDone :=
    Meantime.start.steps 9 rfl
  obtain ⟨result, c, hdone, htoken⟩ : ∃ result c,
      (vestibuleDone.next vestibuleDone_ready).job = .emitDone result (.discovery c) ∧
        c.pass.token = 1 := ⟨_, _, rfl, rfl⟩
  have hgiven : (vestibuleAgain.next vestibuleAgain_ready).world.tokens = 1 := rfl
  have hbefore : (vestibuleDone.next vestibuleDone_ready).world.sessions.map (·.token) = [0] := rfl
  have hafter : (vestibuleDone.next vestibuleDone_ready).after.sessions.map (·.token) =
      [0, 1] := rfl
  exact ⟨g, {
    starts := ⟨_, _, rfl⟩
    granted := hg
    meanwhile := hmeantime.next vestibuleDone_ready
    ends := .inr ⟨result, c, hdone, htoken.trans hgiven.symm⟩
    begins := begins_of_tokens hbefore hafter (t := 1) (by decide) (by decide) }, hfacts⟩

theorem vestibule_answers_alike : (vestibuleDone.next vestibuleDone_ready).answered? =
    (vestibuleAnswered.next vestibuleAnswered_ready).answered? := by
  have hfirst : (vestibuleAnswered.next vestibuleAnswered_ready).answered? = read? offersOnly := rfl
  have hsecond : (vestibuleDone.next vestibuleDone_ready).answered? = read? offersOnly := rfl
  exact hsecond.trans hfirst.symm

theorem vestibule_meantime :
    Meantime (vestibuleAnswered.next vestibuleAnswered_ready).after vestibuleAgain :=
  Meantime.start.command 1 nofun rfl

/-- Its second request brings nine listeners for the status, and nothing when it is answered. -/
theorem status_heard_twice :
    AddsOnly 1
      (statusEvents.map fun entry => (entry.1, .status ⟨"a"⟩ ("socketStatus." ++ entry.2) 1))
        (vestibuleAgain.next vestibuleAgain_ready).world
        (vestibuleAgain.next vestibuleAgain_ready).after ∧
      AddsOnly 1 [] (vestibuleDone.next vestibuleDone_ready).world
        (vestibuleDone.next vestibuleDone_ready).after := by
  obtain ⟨g, hfirst, hfacts⟩ := vestibule_connects
  obtain ⟨g', hsecond, hfacts'⟩ := vestibule_connects_again
  simp only [Prod.mk.injEq] at hfacts hfacts'
  obtain ⟨hserial, hkey⟩ := hfacts
  obtain ⟨hserial', hreused⟩ := hfacts'
  have hrun : Run vestibule vestibuleCalled.1 vestibuleCalled.2 := .of_play _ rfl
  obtain ⟨hstarts, -, hends⟩ := reconnect_repeats_status_only vestibule_fresh hrun
    vestibuleCalled_ready hfirst vestibule_meantime vestibuleAgain_ready hsecond rfl hreused
    (hserial'.trans hserial.symm) vestibule_answers_alike
  rw [hserial, hkey] at hstarts
  rw [hserial] at hends
  refine ⟨hstarts, hends.resolve_left fun hsame => ?_⟩
  have htask := congrArg (fun m : Moment => m.job.connecting?.isSome) hsame
  cases htask

/-- So to connect again is not without effect, even when it gives the component nothing new. -/
theorem reconnect_adds_listeners :
    ¬ ∀ (w₀ u v : World) (log : List Moment) (firstLast secondLast : Moment) (owner : ComponentId)
      (opts : ConnectOptions) (g g' : Grant) (hu : u.ready ≠ []) (hv : v.ready ≠ []), w₀.Fresh →
      Run w₀ log u → (u.next hu).Connects firstLast owner opts g → Meantime firstLast.after v →
      (v.next hv).Connects secondLast owner opts g' → v.runtimeSockets = u.runtimeSockets →
      g'.reused = true → g'.serial = g.serial → secondLast.answered? = firstLast.answered? →
      AddsOnly g.serial [] (v.next hv).world (v.next hv).after := by
  intro h
  obtain ⟨g, hfirst, hfacts⟩ := vestibule_connects
  obtain ⟨g', hsecond, hfacts'⟩ := vestibule_connects_again
  simp only [Prod.mk.injEq] at hfacts hfacts'
  obtain ⟨hserial, -⟩ := hfacts
  obtain ⟨hserial', hreused⟩ := hfacts'
  have hrun : Run vestibule vestibuleCalled.1 vestibuleCalled.2 := .of_play _ rfl
  have hadds :=
    h _ _ _ _ _ _ _ _ g g' vestibuleCalled_ready vestibuleAgain_ready vestibule_fresh hrun
      hfirst vestibule_meantime hsecond rfl hreused
      (hserial'.trans hserial.symm) vestibule_answers_alike
  rw [hserial] at hadds
  obtain ⟨more, hheard, hnone⟩ := hadds.heard
  rw [List.map_eq_nil_iff.1 hnone, List.append_nil] at hheard
  have hbefore : ((vestibuleAgain.next vestibuleAgain_ready).world.listenersOn 1).length = 11 := rfl
  have hafter : ((vestibuleAgain.next vestibuleAgain_ready).after.listenersOn 1).length = 20 := rfl
  rw [hheard, hbefore] at hafter
  cases hafter

end World

end Patchbay
