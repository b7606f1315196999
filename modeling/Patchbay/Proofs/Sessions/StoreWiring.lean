import Patchbay.Proofs.Sessions.Attached
import Patchbay.Proofs.Sessions.Endpoint

/-!
The store's directives of a component that is connected. Those that a connect request finds free it
attaches to its connection, where they stay until the connection is closed or the session ends;
those that another connection has registered are left to that one.
-/

namespace Patchbay

namespace World

variable {w₀ w₁ w w' : World} {past : Past} {log log₁ : List Moment} {m : Moment} {g : Grant}
  {channel : Channel} {t : Token} {sink : Sink} {items : List Detach} {area : StoreArea}
  {b : Binding}

/-- The channel's connection has a listener for the binding that feeds a worker of its target. -/
def Receives (w : World) (channel : Channel) (t : Token) (sink : Sink) (b : Binding) : Prop :=
  w.isCancelled t = false ∧ ∃ c l k worker, w.connection? channel.connection = some c ∧
    l ∈ c.listeners.entries ∧ l.event = b.action ∧ l.action = .enqueue k t ∧
      w.workers[k]? = some worker ∧ worker.target = b.targetOrAction ∧ worker.sink = sink

/-- A loop watches the binding's source in the store and emits on the channel. -/
def Sends (w : World) (channel : Channel) (t : Token) (b : Binding) : Prop :=
  ∃ back : EmitBack, .watch back ∈ w.jobs ∧ w.isStopped back = false ∧ back.token = t ∧
    back.channel = channel ∧ back.event = b.action ∧ back.place = .store ∧
      w.store.tree.Follows back.watch b.sourceOrAction

/-- A directive of the store is live on a channel. -/
def Serves (w : World) (channel : Channel) (t : Token) : StoreArea → Binding → Prop
  | .actions => w.Receives channel t .dispatch
  | .mutations => w.Receives channel t .commit
  | .emitBacks => w.Sends channel t

theorem Receiver.receives (h : w.Receiver channel t sink items b)
    (hintact : ∀ item ∈ items, w.Intact item) (ht : w.Intact (.token t)) :
    w.Receives channel t sink b := by
  obtain ⟨l, k, worker, hitem, hevent, haction, ⟨c, hc, -, hown⟩, ⟨x, hx, hsame⟩,
    htarget, hsink⟩ := h
  obtain ⟨c', l', hc', hl', hid, -⟩ := hintact _ hitem
  obtain rfl : c = c' := Option.some.inj (hc.symm.trans hc')
  obtain rfl := hown l' hl' hid
  refine ⟨ht, c, l', k, x, hc, hl', hevent, haction, hx, ?_, ?_⟩
  · rw [hsame]
    exact htarget
  · rw [hsame]
    exact hsink

theorem Sender.sends (hfresh : w₀.Fresh) (hbefore : Run w₀ log₁ w₁) (hrun : Run w₁ log w)
    (h : w₁.Sender channel t items b) (hintact : ∀ item ∈ items, w.Intact item)
    (ht : w.Intact (.token t)) : w.Sends channel t b := by
  obtain ⟨back, hitem, htoken, hchannel, hevent, hplace, hjob, hpath⟩ := h
  have hlive : w.isStopped back = false := by
    rw [isStopped, Bool.or_eq_false_iff, htoken]
    exact ⟨ht, hintact _ hitem⟩
  have hloop := hrun.loop_goes_on hjob hlive
  have hpath' : w.watchedPath .store back.watch = some b.sourceOrAction :=
    hrun.keeps (I := fun w => w.watchedPath .store back.watch = some b.sourceOrAction)
      (fun _ ch hw => watchedPath_apply hw ch) (fun _ _ _ _ _ hw => hw) hpath
  obtain ⟨taken, hsees, -⟩ := ((hbefore.trans hrun).tended hfresh).even back hloop
  rw [hplace] at hsees
  exact ⟨back, hloop, hlive, htoken, hchannel, hevent, hplace, hsees.follows hpath'⟩

/-- What was attached and is still held works. -/
theorem Attached.serves (hfresh : w₀.Fresh) (hbefore : Run w₀ log₁ w₁) (hrun : Run w₁ log w)
    (h : w₁.Attached channel t items area b) (hintact : ∀ item ∈ items, w.Intact item)
    (ht : w.Intact (.token t)) : w.Serves channel t area b := by
  have hreceiver {sink : Sink} (h : w₁.Receiver channel t sink items b) :
      w.Receives channel t sink b :=
    (hrun.keeps (I := fun w => w.Receiver channel t sink items b) (fun _ ch hw => hw.apply ch)
      (fun _ _ _ _ _ hw => hw) h).receives hintact ht
  cases area with
  | actions => exact hreceiver h
  | mutations => exact hreceiver h
  | emitBacks => exact Sender.sends hfresh hbefore hrun h hintact ht

/-! What a connect request attaches -/

/-- Of the store's directives those that the registry had free are attached by that holder, the
first of each action. -/
structure WiredBy (reg : Registry) (p : Pass) (c : StoreWiring) (hd : Holder) (w : World) :
    Prop where
  connection : hd.connection = p.channel.connection
  attached : ∀ area, ∀ b ∈ c.compiled area,
    reg.contains (p.storeScope area) b.role b.action = false →
      ∃ first, (c.compiled area).find? (·.action == b.action) = some first ∧
      w.Registered p.channel.connection ⟨p.storeScope area, first, p.id⟩ ∧
      w.Attached p.channel p.token hd.attached area first

/-- A request that fails is forgotten. -/
theorem failConnect_forgotten {c : Connecting} (h : Tidy past [c.holder] w) (error : EngineError)
    {hd : Holder} (hhd : hd ∈ (w.failConnect c error).holding) : hd.token ≠ c.pass.token := by
  have hstill := (failConnect_makes w c error).mono fun _ hc => hc.still
  intro heq
  refine h.first.apart (show .token c.pass.token ∈ c.holder.items from List.mem_cons_self) hd
    (hstill.holding.subset hhd) ?_
  exact heq ▸ List.mem_cons_self

theorem Attached.onward (h : w.Attached channel t items area b) (e : Onward) :
    (w.onward e).Attached channel t items area b := by
  have hreceiver {sink : Sink} (h : w.Receiver channel t sink items b) :
      (w.onward e).Receiver channel t sink items b := by
    cases e <;> exact h
  cases area with
  | actions => exact hreceiver h
  | mutations => exact hreceiver h
  | emitBacks =>
    obtain ⟨back, hitem, ht, hchannel, hevent, hplace, hjob, hpath⟩ := h
    refine ⟨back, hitem, ht, hchannel, hevent, hplace, ?_, by cases e <;> exact hpath⟩
    exact (onward_jobs w e).symm.subset (List.mem_append_right _ hjob)

/-- A request that gets past the store leaves what it attached with its session, or with itself as
long as it waits for the peer's API. -/
theorem connectStore_wires {c : Connecting} (h : Tidy past [c.holder] w)
    (hready : Prepared c.pass w)
    {hd : Holder} (hhd : hd ∈ (w.connectStore c).holding) (ht : hd.token = c.pass.token) :
    WiredBy w.registry c.pass c.resolved.store hd (w.connectStore c) := by
  rcases hstore : w.wireStore c.pass c.resolved.store with ⟨wired', error | attached⟩
  · rw [connectStore_of_error hstore] at hhd
    exact absurd ht (failConnect_forgotten h _ hhd)
  · rw [connectStore_of_ok hstore] at hhd ⊢
    have hwired : Tidy past [c.pass.holder (c.wired.append attached).items] wired' := by
      rw [Wired.items_append]
      exact h.attaches (S := fun _ => True)
        (.wireStore (.nothing h.opened) (fun _ => trivial) hstore)
    -- The holder at the end is the pass as it stands after the store, with more attached at most.
    have hgrown := hwired.now.askOrFinish (c := { c with wired := c.wired.append attached })
    have hgiven : hd.token < wired'.tokens := by
      rw [ht]
      exact hwired.first.given _ List.mem_cons_self _ List.mem_cons_self
    obtain ⟨old, hold, hgrows⟩ := hgrown.heir hd hhd hgiven
    obtain rfl : old = c.pass.holder (c.wired.append attached).items := by
      rcases List.mem_cons.1 hold with rfl | hold
      · rfl
      · have htoken : old.token = c.pass.token := hgrows.token.symm.trans ht
        refine absurd ?_ (hwired.first.apart (show .token c.pass.token ∈ _ from List.mem_cons_self)
          old hold)
        exact htoken ▸ List.mem_cons_self
    have hitems : attached.items ⊆ hd.attached := by
      refine List.Subset.trans ?_ hgrows.attached
      rw [Pass.holder, Wired.items_append]
      exact List.subset_append_right _ _
    obtain ⟨mid, e, hmid, -, heq⟩ :=
      askOrFinish_does wired' { c with wired := c.wired.append attached }
    refine ⟨hgrows.connection, ?_⟩
    intro area b hb hfree
    obtain ⟨first, hfirst, hmem, hattached⟩ := wireStore_attaches hready hstore area b hb hfree
    refine ⟨first, hfirst, ?_, ?_⟩
    · have hregistered : wired'.Registered c.pass.channel.connection
          ⟨c.pass.storeScope area, first, c.pass.id⟩ :=
        ⟨hready.opened.makes (wireStore_makes hstore), fun _ => hmem⟩
      have hlasts := hregistered.makes rfl hmid
      rw [← heq]
      cases e <;> exact hlasts
    · rw [← heq]
      exact ((hattached.makes hmid).onward e).mono hitems

/-- Wiring the namespace takes nothing of the store's. -/
theorem connectNamespace_wires {c : Connecting} (h : Tidy past [c.holder] w)
    (hready : Prepared c.pass w) {hd : Holder} (hhd : hd ∈ (w.connectNamespace c).holding)
    (ht : hd.token = c.pass.token) :
    WiredBy w.registry c.pass c.resolved.store hd (w.connectNamespace c) := by
  rcases hwire : w.wireNamespace c.pass c.resolved.namespaceConfig with ⟨mid, error | attached⟩
  · rw [connectNamespace_of_error hwire] at hhd
    exact absurd ht (failConnect_forgotten h _ hhd)
  · rw [connectNamespace_of_ok hwire] at hhd ⊢
    have hstart : Attaches c.pass (· = c.pass.componentScope) c.wired.items w c.wired.items w :=
      .nothing h.opened
    have hattaches := (hstart.wireNamespace rfl hwire).congr (Wired.items_append ..).symm
    have hready' := hready.makes (hattaches.makes.mono fun _ hc => hc.foreign)
    have hwired := connectStore_wires (c := { c with wired := c.wired.append attached })
      (h.attaches hattaches) hready' hhd ht
    refine ⟨hwired.connection, ?_⟩
    intro area b hb hfree
    refine hwired.attached area b hb ?_
    rw [hattaches.gains.contains_eq (by simp [Pass.storeScope, Pass.componentScope])]
    exact hfree

/-- A request that gets a connection does so at once, and wires it. -/
theorem started_of_grant? (h : m.grant? = some g) :
    ∃ ticket name owner opts, m.job = .connect ticket name owner opts ∧
      (Resolved.ofRequest m.world.settings m.world.runtimeSockets opts).1 = .ok g.resolved ∧
      (m.world.acquire g.resolved).1 = .ok (g.serial, g.reused) ∧
      m.after = m.world.startConnect ticket name owner opts := by
  obtain ⟨ticket, name, owner, opts, hjob, hchosen, hresolved, hacquire⟩ :=
    Moment.exists_of_grant? h
  refine ⟨ticket, name, owner, opts, hjob, ?_, ?_, ?_⟩
  · rw [Resolved.ofRequest_eq, hchosen, hresolved]
    rfl
  · rwa [(acquire_foldl_warn ..).1] at hacquire
  · have htask : m.task.job = .connect ticket name owner opts := hjob
    rw [Moment.after, htask]
    rfl

/-- One that gets none does not open any. -/
theorem refused_of_grant? {ticket : Nat} {name : String} {owner : ComponentId}
    {opts : ConnectOptions} (hjob : m.job = .connect ticket name owner opts) (h : m.grant? = none) :
    Makes Change.Evicts m.world m.after := by
  have htask : m.task.job = .connect ticket name owner opts := hjob
  have hresolved := Resolved.ofRequest_eq m.world.settings m.world.runtimeSockets opts
  rw [Moment.after, htask]
  simp only [Moment.grant?, hjob] at h
  cases hchosen : Resolved.chosen m.world.settings m.world.runtimeSockets opts with
  | error error =>
    rw [hchosen] at hresolved
    exact (startConnect_of_error hresolved ticket name owner).mono fun _ hc => hc.evicts
  | ok entry =>
    rw [hchosen] at hresolved h
    dsimp only at h
    split at h
    · rename_i error hrefused
      exact startConnect_of_refused hresolved (Prod.ext hrefused rfl) ticket name owner
    · cases h

/-- Whoever has the token of a connect request that got a connection has attached what it found
free. -/
theorem startConnect_wires (h : Tidy past [] w) (hnumbered : Numbered w)
    {opts : ConnectOptions} {r : Resolved} {serial : Nat} {reused : Bool}
    (hresolved : (Resolved.ofRequest w.settings w.runtimeSockets opts).1 = .ok r)
    (hacquire : (w.acquire r).1 = .ok (serial, reused)) (ticket : Nat) (name : String)
    (owner : ComponentId) :
    ∀ hd ∈ (w.startConnect ticket name owner opts).holding, hd.token = w.tokens →
      WiredBy (w.acquire r).2.registry
        ⟨⟨serial, r.scope, r.emitTimeout⟩, owner, w.tokens, r.warnings⟩ r.store hd
        (w.startConnect ticket name owner opts) := by
  obtain ⟨acquired, hacquired, hregistry, htokens, hmakes⟩ := acquired_of_acquire _ hacquire
  have hopened := acquired_opened hacquired
  rw [← hregistry, ← htokens, startConnect_of_acquired hresolved hacquired ticket name owner]
  let p : Pass := ⟨⟨serial, r.scope, r.emitTimeout⟩, owner, acquired.tokens, r.warnings⟩
  have hentering := enter_makes acquired r
  have hstatus : Attaches p (fun _ => False) [] (acquired.enter r) _ _ :=
    .wireStatus (hopened.makes hentering) r.statusKey r.url
  have hready : Prepared p acquired :=
    ⟨hnumbered.makes (hmakes.mono fun _ hc => hc.foreign), hopened⟩
  have hstarted := (hready.makes (hentering.mono fun _ hc => hc.foreign)).makes
    (hstatus.makes.mono fun _ hc => hc.foreign)
  have hentered := (h.makes hmakes fun _ hc => hc.adds).enter hopened r
  intro hd hhd ht
  have hwired := connectNamespace_wires (c := ⟨ticket, name, r, p, reused, _⟩)
    (hentered.attaches hstatus) hstarted hhd ht
  rw [hstatus.registry_eq] at hwired
  exact hwired

/-! Live directives -/

theorem Fresh.orderly {muted : Bool} (h : w.Fresh) (howned : w.owned = [])
    (hdetached : w.detached = []) : Orderly muted ⟨0, []⟩ [] w := by
  have hjobs : w.jobs = [] := by simp [jobs, tasks, h.ready, h.parked]
  have hnone : w.holding = [] := by simp [holding, waiting, sessions, hjobs, howned, hdetached]
  refine ⟨⟨Nat.zero_le _, ?_, by simp [howned]⟩, ?_⟩
  · exact fun hd _ hlt => absurd hlt (Nat.not_lt_zero _)
  · rw [hnone]
    refine ⟨List.nodup_nil, ?_, ?_, ?_, by simp [h.cancelled], ?_⟩
    all_goals exact fun _ hhd => absurd hhd List.not_mem_nil

theorem Run.numbered (hfresh : w₀.Fresh) (h : Run w₀ log w) : Numbered w := by
  refine ⟨?_, (h.tended hfresh).known .store⟩
  refine h.keeps (I := Numbers) (fun _ ch hw => hw.apply ch) (fun _ _ _ _ _ hw => hw) ?_
  intro n c hc
  simp [connection?, hfresh.connections] at hc

/-- Of the store's directives of a connect request, by their areas, the first of each action that
was not registered before is registered and attached under the request's own connection. It stays
so for as long as the connection is open and the request's session has not ended, whatever
connects, closes or is torn down meanwhile. -/
theorem store_wiring_stays_live (hfresh : w₀.Fresh) (howned : w₀.owned = [])
    (hdetached : w₀.detached = []) (hrun : Undisturbed w₀ log w) (hm : m ∈ log)
    (hg : m.grant? = some g) {s : Session} (hs : s ∈ w.sessions) (htoken : s.token = m.world.tokens)
    (hlive : w.isConnected g.serial = true) (area : StoreArea) :
    s.channel.connection = g.serial ∧ ∀ b ∈ g.resolved.store.compiled area,
      (m.world.acquire g.resolved).2.registry.contains (.store g.resolved.scope area) b.role
        b.action = false →
      ∃ first, (g.resolved.store.compiled area).find? (·.action == b.action) = some first ∧
        ⟨.store g.resolved.scope area, first, .opened g.serial⟩ ∈ w.registry.log ∧
        w.Serves ⟨g.serial, g.resolved.scope, g.resolved.emitTimeout⟩ s.token area first := by
  obtain ⟨log₁, log₂, v, rest, hbefore, hready, hworld, hafter⟩ := hrun.split hm
  obtain ⟨ticket, name, owner, opts, -, hok, hacquire, hexec⟩ := started_of_grant? hg
  have hbegun := (hbefore.tidy (hfresh.orderly howned hdetached)).begin hready
  have hnumbered : Numbered m.world := by
    have h := hbefore.run.numbered hfresh
    rw [hworld]
    exact ⟨h.numbers, h.known⟩
  rw [← hworld] at hbegun
  have hstart : Tidy ⟨0, []⟩ [] m.world := hbegun.drop
  have hdone : Tidy ⟨0, []⟩ [] m.after := hexec ▸ hstart.startConnect ticket name owner opts
  have hgiven := startConnect_tokens hok hacquire ticket name owner
  have hwires := startConnect_wires hstart hnumbered hok hacquire ticket name owner
  rw [← hexec] at hgiven hwires
  -- The session holds what the request held when its first job was done, and more.
  have hlater := hafter.tidy hdone.now
  have hholds : s.holder ∈ w.holding := List.mem_append_right _ (List.mem_map_of_mem hs)
  have hearlier : s.token < m.after.tokens := htoken ▸ hgiven
  obtain ⟨old, hold, hgrows⟩ := hlater.heir s.holder hholds hearlier
  have holder : old.token = m.world.tokens := hgrows.token.symm.trans htoken
  have hwired := hwires old hold holder
  have hconnection : s.channel.connection = g.serial := hgrows.connection.trans hwired.connection
  have hintact : ∀ item ∈ s.holder.items, w.Intact item := by
    refine hlater.held.intact s.holder hholds ?_
    intro hdown
    have hclosed : w.isConnected s.channel.connection = false := hdown
    rw [hconnection, hlive] at hclosed
    cases hclosed
  refine ⟨hconnection, ?_⟩
  intro b hb hfree
  obtain ⟨first, hfirst, hregistered, hattached⟩ := hwired.attached area b hb hfree
  refine ⟨first, hfirst, ?_, ?_⟩
  · have hlasts := hafter.run.keeps (I := fun w => w.Registered g.serial _)
      (fun _ ch hw => Registered.apply hw rfl ch) (fun _ _ _ _ _ hw => hw) hregistered
    exact hlasts.2 hlive
  · have hreached : Run w₀ (log₁ ++ [m]) m.after := by
      have h := hbefore.run.step hready
      rwa [← hworld] at h
    rw [htoken]
    refine hattached.serves hfresh hreached hafter.run ?_ ?_
    · exact fun item hitem => hintact item (List.mem_cons_of_mem _ (hgrows.attached hitem))
    · exact htoken ▸ hintact _ List.mem_cons_self

/-! Two components on one socket, of which the first leaves -/

def gallery : World :=
  { settings := { sockets := [{ name := "home", url := some "http://home"
                                store := { mutations := [.str "news --> put"]
                                           emitBacks := [.str "moved <-- a"] } }] }
    store := { tree := .ofJson (.obj [("a", .int 1)]) } }

/-- Both connect, each to a connection of its own. -/
def galleryOpen : List Moment × World :=
  gallery.play [.command 0 (.connect "x" ⟨"a"⟩ {}), .steps 10,
    .command 1 (.connect "y" ⟨"b"⟩ {}), .steps 10]

/-- The first is torn down. -/
def galleryLeft : List Moment × World :=
  galleryOpen.2.play [.command 2 (.teardown ⟨"a"⟩), .steps 10]

theorem gallery_fresh : gallery.Fresh := .of_unwatched rfl (List.forall_mem_nil _)

/-- As long as both are there the store hears of the news through the first connection. -/
theorem news_arrive_through_first_connection :
    galleryOpen.2.Serves ⟨1, "home/", none⟩ 0 .mutations
      ⟨.listener, "news", none, some "put", none, none⟩ := by
  have hrun : Undisturbed gallery galleryOpen.1 galleryOpen.2 := .of_play gallery rfl
  obtain ⟨m, hm, g, hg, hfirst⟩ : ∃ m ∈ galleryOpen.1, ∃ g, m.grant? = some g ∧
      (m.world.tokens, g.serial, g.resolved.scope, g.resolved.emitTimeout,
        g.resolved.store.compiled .mutations,
        (m.world.acquire g.resolved).2.registry.contains (.store "home/" .mutations) .listener
          "news") =
      (0, 1, "home/", none, [⟨.listener, "news", none, some "put", none, none⟩], false) :=
    ⟨_, List.mem_cons_self, _, rfl, rfl⟩
  simp only [Prod.mk.injEq] at hfirst
  obtain ⟨htoken, hserial, hscope, htimeout, hcompiled, hfree⟩ := hfirst
  obtain ⟨s, hs, hstoken⟩ : ∃ s ∈ galleryOpen.2.sessions, s.token = 0 :=
    ⟨_, List.mem_cons_self, rfl⟩
  have hlive : galleryOpen.2.isConnected g.serial = true := hserial ▸ rfl
  obtain ⟨-, hserved⟩ := store_wiring_stays_live gallery_fresh rfl rfl hrun hm hg hs
    (hstoken.trans htoken.symm) hlive .mutations
  rw [hcompiled, hscope, hserial, htimeout, hstoken] at hserved
  obtain ⟨first, hfound, -, hserves⟩ := hserved _ (List.mem_singleton.2 rfl) hfree
  obtain rfl := List.mem_singleton.1 (List.mem_of_find?_eq_some hfound)
  exact hserves

/-- When the first has left, the second is connected and its session stands, and nobody hears the
news. -/
theorem news_lost_with_first_connection :
    ¬ ∀ (w₀ w : World) (log : List Moment) (m : Moment) (g : Grant) (s : Session) (area : StoreArea)
      (b : Binding), w₀.Fresh → w₀.owned = [] → w₀.detached = [] → Undisturbed w₀ log w → m ∈ log →
      m.grant? = some g → s ∈ w.sessions → s.token = m.world.tokens →
      w.isConnected g.serial = true → b ∈ g.resolved.store.compiled area →
      ∃ channel t, channel.scope = g.resolved.scope ∧ w.isConnected channel.connection = true ∧
        w.Serves channel t area b := by
  intro h
  have hrun : Undisturbed gallery (galleryOpen.1 ++ galleryLeft.1) galleryLeft.2 :=
    Undisturbed.play (.of_play gallery rfl) rfl
  obtain ⟨m, hm, g, hg, hsecond⟩ : ∃ m ∈ galleryOpen.1 ++ galleryLeft.1, ∃ g, m.grant? = some g ∧
      (m.world.tokens, g.serial, g.resolved.store.compiled .mutations) =
        (2, 2, [⟨.listener, "news", none, some "put", none, none⟩]) :=
    ⟨_, List.mem_append_left _ (.tail _ (.tail _ (.tail _ (.head _)))), _, rfl, rfl⟩
  simp only [Prod.mk.injEq] at hsecond
  obtain ⟨htoken, hserial, hcompiled⟩ := hsecond
  obtain ⟨s, hs, hstoken⟩ : ∃ s ∈ galleryLeft.2.sessions, s.token = 2 :=
    ⟨_, List.mem_cons_self, rfl⟩
  obtain ⟨channel, t, -, -, -, c, l, k, worker, hc, hl, -⟩ := h _ _ _ m g s .mutations _
    gallery_fresh rfl rfl hrun hm hg hs (hstoken.trans htoken.symm) (hserial ▸ rfl)
    (hcompiled ▸ List.mem_singleton.2 rfl)
  have hsilent : ∀ c ∈ galleryLeft.2.connections, c.listeners.entries.length = 0 := by decide
  have hopened : c ∈ galleryLeft.2.connections := by
    unfold connection? at hc
    split at hc
    · cases hc
    · exact List.mem_of_getElem? hc
  rw [List.eq_nil_of_length_eq_zero (hsilent c hopened)] at hl
  cases hl

end World

end Patchbay
