import Patchbay.Proofs.EmitBack.Tended
import Patchbay.Proofs.Engine.Connections
import Patchbay.Proofs.Sessions.Kept

/-!
The store emitBacks of one scope and action. Each is registered before its loop starts, and its
registration goes with its connection, so at most one of the loops there are at any time has an open
connection. The loops of closed connections may go on, but what they send is refused.
-/

namespace Patchbay

/-- The emitBack whose loop a job is. -/
def Job.loop? : Job → Option EmitBack
  | .watch back => some back
  | _ => none

/-- A change that starts no loop. -/
def Change.Loopless : Change → Prop
  | .attachBack .. => False
  | .spawn job => job.isLoop = false
  | _ => True

theorem Change.Among.loopless {c : Change} (h : c.Among (Kind.but [.spawn, .attachBack])) :
    c.Loopless := by
  cases c <;> first | exact trivial | exact h.elim

theorem Change.Basic.loopless {c : Change} (h : c.Basic) : c.Loopless := Among.loopless (h.mono rfl)

theorem Change.Undoes.loopless {c : Change} (h : c.Undoes) : c.Loopless :=
  Among.loopless (h.mono rfl)

theorem Change.Employs.loopless {c : Change} (h : c.Employs) : c.Loopless :=
  Among.loopless (h.among.mono rfl)

theorem Change.Acquires.loopless {c : Change} (h : c.Acquires) : c.Loopless :=
  Among.loopless (h.mono rfl)

theorem Change.Enters.loopless {c : Change} (h : c.Enters) : c.Loopless :=
  Among.loopless (h.mono rfl)

theorem Job.isLoop_of_back? {job : Job} (h : job.back? = none) : job.isLoop = false := by
  cases job <;> first | rfl | cases h

theorem Change.Commands.loopless {c : Change} (h : c.Commands) : c.Loopless := by
  rcases h with hasks | hundoes
  · rcases hasks.spawns_or with ⟨job, hjob, rfl⟩ | hrest
    · exact Job.isLoop_of_back? hjob.1
    · exact Among.loopless (hrest.mono rfl)
  · exact hundoes.loopless

theorem Job.May.loopless {job : Job} {c : Change} (h : job.May c)
    (hjob : ∀ ticket name owner opts, job ≠ .connect ticket name owner opts) : c.Loopless := by
  cases c with
  | spawn => exact h.spawns.2.2
  | attachBack => exact (h.among_of_ne_connect hjob).elim
  | _ => trivial

namespace World

variable {w₀ w w' : World} {jobs jobs' : List Job} {b b' : EmitBack} {log : List Moment}

/-- Started loops are the only ones that come. -/
theorem watch_mem_of_makes (hmakes : Makes Change.Loopless w w') {b : EmitBack}
    (h : Job.watch b ∈ w'.jobs) : Job.watch b ∈ w.jobs := by
  induction hmakes with
  | nothing => exact h
  | @more w' ch _ hch ih =>
    rcases List.mem_append.1 ((apply_schedules w' ch).jobs.subset h) with h | h
    · exact ih h
    · rw [Option.mem_toList] at h
      cases ch with
      | spawn job =>
        obtain rfl := Option.some.inj h
        cases hch
      | attachBack back path => exact hch.elim
      | attachWorker worker serial => cases Option.some.inj h
      | _ => cases h

/-- The registration that stands for a store emitBack of that connection, scope and action. -/
def Posts (w : World) (n : Nat) (scope action : String) : Prop :=
  ∃ r ∈ w.registry.log, Registry.Holds (.store scope .emitBacks) .emitBack action r ∧
    r.via = .opened n

/-- The loop of a store emitBack whose connection is open. -/
structure Live (jobs : List Job) (w : World) (b : EmitBack) : Prop where
  loop : .watch b ∈ jobs
  place : b.place = .store
  connected : w.isConnected b.channel.connection = true

/-- The loops against the registry: a live one is registered, and is the only one of its scope and
action. -/
structure Alone (jobs : List Job) (w : World) : Prop where
  opened : ∀ b, .watch b ∈ jobs → w.Opened b.channel.connection
  posted : ∀ b, Live jobs w b → w.Posts b.channel.connection b.channel.scope b.event
  single : ∀ b b', Live jobs w b → Live jobs w b' → b.channel.scope = b'.channel.scope →
    b.event = b'.event → b = b'

/-- A connection may start the one loop of a scope and action: it has registered it, and no other
is live. -/
structure Vacant (jobs : List Job) (w : World) (n : Nat) (scope action : String) : Prop where
  opened : w.Opened n
  posted : w.isConnected n = true → w.Posts n scope action
  free : ∀ b, Live jobs w b → b.channel.scope = scope → b.event ≠ action

theorem Posts.apply {n : Nat} {scope action : String} (h : w.Posts n scope action)
    (hlive : w.isConnected n = true) (ch : Change) : (w.apply ch).Posts n scope action := by
  obtain ⟨r, hr, hholds, hvia⟩ := h
  exact ⟨r, mem_registry_apply hr hvia hlive ch, hholds, hvia⟩

theorem Vacant.fewer {n : Nat} {scope action : String} (h : Vacant jobs w n scope action)
    (hfewer : ∀ b, Job.watch b ∈ jobs' → Job.watch b ∈ jobs) : Vacant jobs' w n scope action where
  opened := h.opened
  posted := h.posted
  free b hb := h.free b ⟨hfewer b hb.loop, hb.place, hb.connected⟩

namespace Alone

/-- A live loop was live before. -/
theorem live (h : Alone jobs w) {ch : Change} (hlive : Live jobs (w.apply ch) b) : Live jobs w b :=
  ⟨hlive.loop, hlive.place, (h.opened b hlive.loop).isConnected_of_apply hlive.connected⟩

theorem apply (h : Alone jobs w) (ch : Change) : Alone jobs (w.apply ch) where
  opened b hb := (h.opened b hb).apply ch
  posted b hb := (h.posted b (h.live hb)).apply (h.live hb).connected ch
  single b b' hb hb' := h.single b b' (h.live hb) (h.live hb')

theorem makes {P : Change → Prop} (h : Alone jobs w) (hmakes : Makes P w w') : Alone jobs w' :=
  hmakes.keeps (fun _ ch _ hw => hw.apply ch) h

/-- Fewer loops leave the others alone. -/
theorem fewer (h : Alone jobs w) (hfewer : ∀ b, Job.watch b ∈ jobs' → Job.watch b ∈ jobs) :
    Alone jobs' w where
  opened b hb := h.opened b (hfewer b hb)
  posted b hb := h.posted b ⟨hfewer b hb.loop, hb.place, hb.connected⟩
  single b b' hb hb' := h.single b b' ⟨hfewer b hb.loop, hb.place, hb.connected⟩
    ⟨hfewer b' hb'.loop, hb'.place, hb'.connected⟩

theorem idle (h : Alone jobs w) (hconnections : w'.connections = w.connections)
    (hregistry : w'.registry = w.registry) : Alone jobs w' := by
  have hback {b : EmitBack} (hb : Live jobs w' b) : Live jobs w b :=
    ⟨hb.loop, hb.place, by rw [← isConnected_congr hconnections]; exact hb.connected⟩
  refine ⟨?_, ?_, ?_⟩
  · intro b hb
    obtain ⟨c, hc⟩ := h.opened b hb
    exact ⟨c, (connection?_congr hconnections _).trans hc⟩
  · intro b hb
    obtain ⟨r, hr, hrest⟩ := h.posted b (hback hb)
    exact ⟨r, hregistry ▸ hr, hrest⟩
  · intro b b' hb hb'
    exact h.single b b' (hback hb) (hback hb')

theorem vacant {n : Nat} {scope action : String} (h : Alone jobs w)
    (hvacant : Vacant jobs w n scope action) (ch : Change) :
    Vacant jobs (w.apply ch) n scope action where
  opened := hvacant.opened.apply ch
  posted hlive :=
    have hbefore := hvacant.opened.isConnected_of_apply hlive
    (hvacant.posted hbefore).apply hbefore ch
  free b hb := hvacant.free b (h.live hb)

theorem vacant_makes {P : Change → Prop} {n : Nat} {scope action : String} (h : Alone jobs w)
    (hvacant : Vacant jobs w n scope action) (hmakes : Makes P w w') :
    Vacant jobs w' n scope action := by
  induction hmakes with
  | nothing => exact hvacant
  | more ch hbefore _ ih => exact (h.makes hbefore).vacant ih ch

/-- A new loop is the only one of its scope and action. -/
theorem attach {back : EmitBack} (h : Alone jobs w) (hopened : w.Opened back.channel.connection)
    (hstore : back.place = .store →
      Vacant jobs w back.channel.connection back.channel.scope back.event) :
    Alone (.watch back :: jobs) w := by
  have hsplit {b : EmitBack} (hb : Live (.watch back :: jobs) w b) : b = back ∨ Live jobs w b := by
    rcases List.mem_cons.1 hb.loop with heq | hmem
    · exact .inl (Job.watch.inj heq)
    · exact .inr ⟨hmem, hb.place, hb.connected⟩
  refine ⟨?_, ?_, ?_⟩
  · intro b hb
    rcases List.mem_cons.1 hb with heq | hmem
    · exact Job.watch.inj heq ▸ hopened
    · exact h.opened b hmem
  · intro b hb
    rcases hsplit hb with rfl | hold
    · exact (hstore hb.place).posted hb.connected
    · exact h.posted b hold
  · intro b b' hb hb' hscope hevent
    rcases hsplit hb with rfl | hold <;> rcases hsplit hb' with rfl | hold'
    · rfl
    · exact absurd hevent.symm ((hstore hb.place).free b' hold' hscope.symm)
    · exact absurd hevent ((hstore hb'.place).free b hold hscope)
    · exact h.single b b' hold hold' hscope hevent

end Alone

/-! What a connect request does -/

theorem alone_of_makes (h : Alone w.jobs w) (hmakes : Makes Change.Loopless w w') :
    Alone w'.jobs w' :=
  (h.makes hmakes).fewer fun _ hb => watch_mem_of_makes hmakes hb

/-- A granted claim leaves no live loop of its scope and action. -/
theorem vacant_of_claim {p : Pass} {b : Binding} (h : Alone w.jobs w)
    (hopened : w.Opened p.channel.connection) (hrole : b.role = .emitBack)
    (hclaim : w.claim p (p.storeScope .emitBacks) b = (w', true)) :
    Vacant w'.jobs w' p.channel.connection p.channel.scope b.action := by
  obtain ⟨hnew, hlog⟩ := claim_granted hclaim
  have heq := claim_eq hclaim
  refine ⟨heq ▸ hopened.apply _, ?_, ?_⟩
  · intro _
    refine ⟨⟨p.storeScope .emitBacks, b, p.id⟩, ?_, ⟨rfl, hrole, rfl⟩, rfl⟩
    rw [hlog]
    exact List.mem_append_right _ List.mem_cons_self
  · intro back hback hscope hevent
    have hlive : Live w.jobs w back := by
      subst heq
      exact h.live hback
    obtain ⟨r, hr, hholds, -⟩ := h.posted back hlive
    rw [hscope, hevent, ← hrole] at hholds
    have hcontains : w.registry.contains (p.storeScope .emitBacks) b.role b.action = true :=
      Registry.contains_iff.2 ⟨r, hr, hholds⟩
    rw [hnew] at hcontains
    cases hcontains

/-- A loop may start that is the only one of its scope and action. -/
theorem attachBack_alone {back : EmitBack} {path : String} (h : Alone w.jobs w)
    (hopened : w.Opened back.channel.connection)
    (hstore : back.place = .store →
      Vacant w.jobs w back.channel.connection back.channel.scope back.event) :
    Alone (w.apply (.attachBack back path)).jobs (w.apply (.attachBack back path)) := by
  let started : EmitBack := { back with watch := (w.watch back.place path).2, own := w.tokens }
  have hstarted : Alone (.watch started :: w.jobs) w := h.attach hopened hstore
  refine (hstarted.apply (.attachBack back path)).fewer ?_
  intro b hb
  have hperm : (w.apply (.attachBack back path)).jobs.Perm (w.jobs ++ [.watch started]) :=
    (apply_schedules w (.attachBack back path)).jobs
  exact (hperm.trans (List.perm_append_singleton _ _)).subset hb

theorem attachEmitBack_alone {p : Pass} {b : Binding} {place : Place} (h : Alone w.jobs w)
    (hopened : w.Opened p.channel.connection)
    (hstore : place = .store → Vacant w.jobs w p.channel.connection p.channel.scope b.action) :
    Alone (w.attachEmitBack p b place).1.jobs (w.attachEmitBack p b place).1 := by
  have hhooks := resolveHooks_makes w p b
  have hloopless : Makes Change.Loopless w (w.resolveHooks p b).1 :=
    hhooks.mono fun _ hc => hc.loopless
  rw [attachEmitBack_eq]
  refine attachBack_alone (alone_of_makes h hloopless) (hopened.makes hhooks) ?_
  intro hplace
  exact (h.vacant_makes (hstore hplace) hhooks).fewer fun _ hb => watch_mem_of_makes hloopless hb

/-- What a wiring pass on an opened connection keeps. -/
def Wirable (p : Pass) (w : World) : Prop := Alone w.jobs w ∧ w.Opened p.channel.connection

theorem Wirable.makes {p : Pass} (h : Wirable p w) (hmakes : Makes Change.Loopless w w') :
    Wirable p w' :=
  ⟨alone_of_makes h.1 hmakes, h.2.makes hmakes⟩

theorem Wirable.claim {p : Pass} {scope : Scope} {b : Binding} (h : Wirable p w)
    (hclaim : w.claim p scope b = (w', true)) : Wirable p w' := by
  rw [claim_eq hclaim]
  exact h.makes (.one _ trivial)

theorem wireNamespace_wirable {p : Pass} {c : NamespaceConfig} {wired : Wired} (h : Wirable p w)
    (hwire : w.wireNamespace p c = (w', .ok wired)) : Wirable p w' := by
  obtain ⟨rfl, -⟩ := wireNamespace_lists hwire
  refine attachAll_keeps ?_ (attachAll_keeps ?_ (attachAll_keeps ?_ h))
  · intro w w' b _ hw hclaim
    have hclaimed := hw.claim hclaim
    refine ⟨attachEmitBack_alone hclaimed.1 hclaimed.2 (fun hplace => by cases hplace), ?_⟩
    exact hclaimed.2.makes (attachEmitBack_makes w' p b _)
  · intro w w' b _ hw hclaim
    exact (hw.claim hclaim).makes ((attachListener_makes w' p b _).mono fun _ hc => hc.loopless)
  · intro w w' b _ hw hclaim
    exact (hw.claim hclaim).makes ((attachEmitter_makes w' p b).mono fun _ hc => hc.loopless)

theorem wireStore_wirable {p : Pass} {c : StoreWiring} {wired : Wired} (h : Wirable p w)
    (hwire : w.wireStore p c = (w', .ok wired)) : Wirable p w' := by
  obtain ⟨rfl, -⟩ := wireStore_areas hwire
  have hlistener {w : World} (hw : Wirable p w) (on : Bool) (warning : Warning) (b : Binding)
      (sink : Sink) : Wirable p ((w.warnIf on warning).attachListener p b sink).1 :=
    hw.makes (((warnIf_makes ..).mono fun _ hc => hc.loopless).trans
      ((attachListener_makes _ p b _).mono fun _ hc => hc.loopless))
  refine attachAll_keeps ?_ (attachAll_keeps ?_ (attachAll_keeps ?_ h))
  · intro w w' b hb hw hclaim
    have hclaimed := hw.claim hclaim
    have hvacant := vacant_of_claim hw.1 hw.2 (Directive.role_of_mem_compileAll hb) hclaim
    refine ⟨attachEmitBack_alone hclaimed.1 hclaimed.2 (fun _ => hvacant), ?_⟩
    exact hclaimed.2.makes (attachEmitBack_makes w' p b _)
  · exact fun w w' b _ hw hclaim => hlistener (hw.claim hclaim) _ _ b .commit
  · exact fun w w' b _ hw hclaim => hlistener (hw.claim hclaim) _ _ b .dispatch

theorem resume_alone {job : Job} (h : Alone w.jobs w) (hjob : job.isLoop = false) :
    Alone (w.resume job).jobs (w.resume job) := by
  have hresumed : Alone w.jobs (w.resume job) := h.idle rfl rfl
  refine hresumed.fewer ?_
  intro b hb
  rcases List.mem_cons.1 hb with heq | hb
  · obtain rfl : Job.watch b = job := heq
    cases hjob
  · exact hb

theorem connectStore_alone {c : Connecting} (h : Wirable c.pass w) :
    Alone (w.connectStore c).jobs (w.connectStore c) := by
  rcases hstore : w.wireStore c.pass c.resolved.store with ⟨w', error | wired⟩
  · rw [connectStore_of_error hstore]
    exact alone_of_makes h.1 ((failConnect_makes ..).mono fun _ hc => hc.undoes.loopless)
  · have hwired := wireStore_wirable h hstore
    rw [connectStore_of_ok hstore]
    unfold askOrFinish
    split
    · exact alone_of_makes hwired.1
        ((finishConnect_makes ..).mono fun _ hc => hc.finishes.undoes.loopless)
    · exact resume_alone hwired.1 rfl

theorem connectNamespace_alone {c : Connecting} (h : Wirable c.pass w) :
    Alone (w.connectNamespace c).jobs (w.connectNamespace c) := by
  rcases hwire : w.wireNamespace c.pass c.resolved.namespaceConfig with ⟨w', error | wired⟩
  · rw [connectNamespace_of_error hwire]
    exact alone_of_makes h.1 ((failConnect_makes ..).mono fun _ hc => hc.undoes.loopless)
  · rw [connectNamespace_of_ok hwire]
    exact connectStore_alone (wireNamespace_wirable h hwire)

theorem startConnect_alone (h : Alone w.jobs w) (ticket : Nat) (name : String) (owner : ComponentId)
    (opts : ConnectOptions) :
    Alone (w.startConnect ticket name owner opts).jobs (w.startConnect ticket name owner opts) := by
  cases hresolved : (Resolved.ofRequest w.settings w.runtimeSockets opts).1 with
  | error error =>
    exact alone_of_makes h
      ((startConnect_of_error hresolved ticket name owner).mono fun _ hc => hc.loopless)
  | ok r =>
    have hwarned := alone_of_makes h ((foldl_warn_makes w
      (Resolved.ofRequest w.settings w.runtimeSockets opts).2).mono fun _ hc => hc.loopless)
    have hacquired := alone_of_makes hwarned
      ((acquire_makes _ r).mono fun _ hc => hc.loopless)
    cases hacquire :
        ((Resolved.ofRequest w.settings w.runtimeSockets opts).2.foldl warn w).acquire r
      with | mk result acquired
    rw [hacquire] at hacquired
    cases result with
    | error error =>
      rw [startConnect_of_refusal hresolved hacquire]
      exact alone_of_makes hacquired (.one (.report _ _) trivial)
    | ok got =>
      obtain ⟨serial, reused⟩ := got
      rw [startConnect_of_acquired hresolved hacquire]
      have hstart : Makes Change.Enters acquired _ := (enter_makes acquired r).trans
        ((wireStatus_makes _ ⟨⟨serial, r.scope, r.emitTimeout⟩, owner, acquired.tokens, r.warnings⟩
          r.statusKey r.url).mono fun _ hc => hc.enters)
      exact connectNamespace_alone (c := ⟨ticket, name, r, _, reused, _⟩)
        ⟨alone_of_makes hacquired (hstart.mono fun _ hc => hc.loopless),
          (acquired_opened hacquire).makes hstart⟩

theorem exec_alone {task : Task} (h : Alone (task.job :: w.jobs) w) :
    Alone (w.exec task.job).jobs (w.exec task.job) := by
  obtain ⟨id, job⟩ := task
  by_cases hconnect : ∃ ticket name owner opts, job = .connect ticket name owner opts
  · obtain ⟨ticket, name, owner, opts, rfl⟩ := hconnect
    exact startConnect_alone (h.fewer fun _ hb => List.mem_cons_of_mem _ hb) ticket name owner opts
  · have hidle : ∀ ticket name owner opts, job ≠ .connect ticket name owner opts :=
      fun ticket name owner opts heq => hconnect ⟨ticket, name, owner, opts, heq⟩
    obtain ⟨mid, e, hmid, hleads, heq⟩ := exec_does w job
    have hloopless := hmid.mono fun c hc => hc.loopless hidle
    have hdone : Alone (job :: w.jobs) (mid.onward e) := by
      cases e <;> exact (h.makes hmid).idle rfl rfl
    rw [← heq]
    refine hdone.fewer ?_
    intro b hb
    -- A task goes on as a loop only where it was that loop.
    rcases List.mem_append.1 ((onward_jobs mid e).subset hb) with hb | hb
    · rw [(hleads _ (Option.mem_toList.1 hb)).eq_watch]
      exact List.mem_cons_self
    · exact List.mem_cons_of_mem _ (watch_mem_of_makes hloopless hb)

theorem Run.alone (hfresh : w₀.Fresh) (h : Run w₀ log w) : Alone w.jobs w := by
  induction h with
  | start =>
    have hjobs : w₀.jobs = [] := by simp [jobs, tasks, hfresh.ready, hfresh.parked]
    rw [hjobs]
    have hnone (b : EmitBack) : ¬ Live [] w₀ b := fun hb => List.not_mem_nil hb.loop
    exact ⟨fun b hb => absurd hb List.not_mem_nil, fun b hb => absurd hb (hnone b),
      fun b b' hb => absurd hb (hnone b)⟩
  | @step log w task rest _ hready ih =>
    have hjobs : w.jobs = task.job :: (w.begin task rest).jobs := by
      rw [jobs, begin_tasks hready]
      rfl
    rw [hjobs] at ih
    exact exec_alone (ih.idle rfl rfl)
  | command _ ticket hc ih =>
    exact alone_of_makes ih ((perform_makes _ ticket hc).mono fun _ hc => hc.loopless)
  | pass _ _ ih => exact ih.idle rfl rfl
  | @wake _ w _ ih =>
    have hwoken := wakeDue_woken w
    have hwaked : Alone w.jobs w.wakeDue := ih.idle rfl rfl
    exact hwaked.fewer fun b hb => (hwoken.tasks.map _).subset hb

/-- The store emitBacks of one scope and action that have a loop at `w` and can send at `w'`. -/
def senders (w w' : World) (scope action : String) : List EmitBack :=
  (w.jobs.filterMap Job.loop?).filter fun b => b.place = .store ∧ b.channel.scope = scope ∧
    b.event = action ∧ w'.isConnected b.channel.connection = true

theorem nodup_loops (h : Tended jobs log w) : (jobs.filterMap Job.loop?).Nodup := by
  have hwatch : Job.watch? = fun job => job.loop?.map fun b => (b.place, b.watch) := by
    funext job
    cases job <;> rfl
  have hapart := h.apart
  rw [hwatch, ← List.map_filterMap] at hapart
  exact List.Pairwise.of_map _ (fun b b' hne heq => hne (by rw [heq])) hapart

/-- Whoever stands ready when the store changes, for each scope and action at most one of them finds
its connection open, then or whenever it comes to send. -/
theorem one_sender_per_scope (hfresh : w₀.Fresh) (hrun : Run w₀ log w) {more : List Moment}
    (hlater : Run w more w') (scope action : String) : (senders w w' scope action).length ≤ 1 := by
  have halone := hrun.alone hfresh
  have hnodup : (senders w w' scope action).Nodup := (nodup_loops (hrun.tended hfresh)).filter _
  have hlive {b : EmitBack} (hb : b ∈ senders w w' scope action) :
      Live w.jobs w b ∧ b.channel.scope = scope ∧ b.event = action := by
    obtain ⟨hloop, hsends⟩ := List.mem_filter.1 hb
    obtain ⟨hplace, hscope, hevent, hconnected⟩ := of_decide_eq_true hsends
    obtain ⟨job, hjob, hback⟩ := List.mem_filterMap.1 hloop
    obtain rfl : job = .watch b := by
      cases job <;> cases hback
      rfl
    exact ⟨⟨hjob, hplace, hlater.isConnected_earlier (halone.opened b hjob) hconnected⟩,
      hscope, hevent⟩
  match hsenders : senders w w' scope action with
  | [] => simp
  | [b] => simp
  | b :: b' :: rest =>
    rw [hsenders] at hnodup hlive
    obtain ⟨hb, hscope, hevent⟩ := hlive (b := b) (by simp)
    obtain ⟨hb', hscope', hevent'⟩ := hlive (b := b') (by simp)
    obtain rfl := halone.single b b' hb hb' (by rw [hscope, hscope']) (by rw [hevent, hevent'])
    simp at hnodup

/-! A kept connection that the peer closes, and another in its place -/

def plaza : World :=
  { settings := { sockets := [{ name := "home", url := some "http://home"
                                store := { emitBacks := [.str "moved <-- a"] } }] }
    servers :=
      [{ namespaceName := "/", event := "moved", reply := fun _ _ => { answer := .value .null } }]
    store := { tree := .ofJson (.obj [("a", .int 1)]) } }

/-- The first connection is closed and not torn down when the second is opened for its slot. -/
def plazaWired : List Moment × World :=
  plaza.play [.command 0 (.connect "x" ⟨"a"⟩ { persist := .key "main" }), .steps 10,
    .command 1 (.kick "x"), .steps 10,
    .command 2 (.connect "y" ⟨"b"⟩ { persist := .key "main" }), .steps 10]

/-- The store changes once. -/
def plazaMoved : List Moment × World :=
  plazaWired.2.play [.command 3 (.setStore "a" (.int 2)), .steps 40]

theorem plaza_fresh : plaza.Fresh := .of_unwatched rfl (List.forall_mem_nil _)

theorem one_sender_after_eviction :
    (plazaWired.2.jobs.filterMap Job.loop?).map (·.channel.connection) = [1, 2] ∧
      (senders plazaWired.2 plazaMoved.2 "home/" "moved").length = 1 := by
  have hwired : Run plaza plazaWired.1 plazaWired.2 := .of_play plaza rfl
  have hmoved : Run plazaWired.2 plazaMoved.1 plazaMoved.2 := .of_play plazaWired.2 rfl
  have hmost := one_sender_per_scope plaza_fresh hwired hmoved "home/" "moved"
  have hsome : 0 < (senders plazaWired.2 plazaMoved.2 "home/" "moved").length := by decide
  exact ⟨rfl, by omega⟩

/-- Both loops make an emit of the one change; the server gets one, and the other is recorded. -/
theorem change_attempted_twice_after_eviction :
    plazaMoved.1.filterMap (fun m => match m.job with
        | .emit run (.change _) => some (run.channel.connection, run.channel.scope, run.event)
        | _ => none) = [(1, "home/", "moved"), (2, "home/", "moved")] ∧
      plazaMoved.2.servers.map (·.calls) = [1] ∧
      (plazaMoved.2.sockets.errorsOf "home/" "moved").length = 1 := by
  exact ⟨rfl, rfl, rfl⟩

end World

end Patchbay
