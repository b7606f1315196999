import Patchbay.Proofs.Sessions.Residue

/-!
A connect request on a new connection that fails. The connection goes with everything that came with
it; what was registered by others and kept for others is as it was when the request began, but for a
closed connection that had to make room.
-/

namespace Patchbay

/-- A change that leaves registrations and the slots of kept connections alone. -/
def Change.Aloof : Change → Prop
  | .register .. | .releaseBindings _ | .keep .. | .evict _ | .forget _ => False
  | _ => True

namespace Change

variable {c : Change}

theorem Among.aloof (h : c.Among (Kind.but [.register, .releaseBindings, .keep, .evict, .forget])) :
    c.Aloof := by
  cases c <;> first | exact trivial | exact h.elim

theorem Works.aloof (h : c.Works) : c.Aloof := by
  cases c <;> first | exact h.elim | exact trivial

theorem Unties.aloof (h : c.Unties) : c.Aloof := Among.aloof (h.mono rfl)

theorem Hushes.aloof (h : c.Hushes) : c.Aloof := Among.aloof (h.mono rfl)

end Change

/-- A job with which a connect request starts, or ends after it has waited for the peer's API. -/
def Job.requests : Job → Bool
  | .connect .. => true
  | .emitDone _ (.discovery _) => true
  | _ => false

namespace World

variable {w₀ w w' w'' acquired : World} {r : Resolved} {serial n : Nat} {c : Connecting}

/-! Registrations and slots -/

/-- Registrations and the slots of kept connections are the same. -/
structure SameEntries (w w' : World) : Prop where
  registry : w'.registry = w.registry
  persisted : w'.persisted = w.persisted

namespace SameEntries

theorem trans (h : SameEntries w w') (h' : SameEntries w' w'') : SameEntries w w'' :=
  ⟨h'.registry.trans h.registry, h'.persisted.trans h.persisted⟩

end SameEntries

/-- Only connect requests and the dropping of a connection change the slots. -/
theorem apply_persisted (w : World) {ch : Change} (hkeep : ∀ slot n, ch ≠ .keep slot n)
    (hevict : ∀ slot, ch ≠ .evict slot) (hforget : ∀ n, ch ≠ .forget n) :
    (w.apply ch).persisted = w.persisted := by
  rw [(apply_woken w ch).persisted]
  by_cases hplants : ch.Plants
  · exact effect_persisted w hplants
  · cases ch with
    | keep slot n => exact absurd rfl (hkeep slot n)
    | evict slot => exact absurd rfl (hevict slot)
    | forget n => exact absurd rfl (hforget n)
    | track s => simp only [effect, apply, track]; split <;> rfl
    | _ => first | rfl | exact absurd trivial hplants

theorem apply_sameEntries (w : World) {ch : Change} (h : ch.Aloof) :
    SameEntries w (w.apply ch) where
  registry := apply_registry w (by rintro _ _ _ rfl; exact h) (by rintro _ rfl; exact h)
  persisted := apply_persisted w (by rintro _ _ rfl; exact h) (by rintro _ rfl; exact h)
    (by rintro _ rfl; exact h)

theorem Makes.sameEntries {P : Change → Prop} (h : Makes P w w') (hP : ∀ ch, P ch → ch.Aloof) :
    SameEntries w w' :=
  h.keeps (I := SameEntries w) (fun w' ch hch hw => hw.trans (apply_sameEntries w' (hP ch hch)))
    ⟨rfl, rfl⟩

/-- Wiring fills and clears no slot. -/
theorem Makes.persisted_of_wires (h : Makes Change.Wires w w') : w'.persisted = w.persisted :=
  h.keeps (I := fun w' => w'.persisted = w.persisted)
    (fun w' _ hch hw => (apply_persisted w' (by rintro _ _ rfl; exact hch)
      (by rintro _ rfl; exact hch) (by rintro _ rfl; exact hch)).trans hw) rfl

/-! Opening -/

/-- What is kept in the slot that a request asks for. -/
def kept? (w : World) (r : Resolved) : Option Nat :=
  r.slot?.bind fun slot => w.persisted.lookup slot

theorem openFor_persisted {reused : Bool} (h : (w.openFor r).1 = .ok (serial, reused)) :
    (w.openFor r).2.persisted =
      (w.persisted.filter fun entry => decide (r.slot? ≠ some entry.1)) ++
        r.slot?.toList.map (·, serial) := by
  cases hurl : r.url.isEmpty with
  | true =>
    rw [openFor_refused w hurl] at h
    cases h
  | false =>
    obtain ⟨hresult, hworld⟩ := openFor_opened w hurl
    rw [hresult] at h
    obtain ⟨rfl, -⟩ := Prod.mk.inj (Except.ok.inj h)
    rw [hworld]
    cases r.slot? with
    | none =>
      have hall : w.persisted.filter (fun entry => decide ((none : Option Slot) ≠ some entry.1)) =
          w.persisted := List.filter_eq_self.2 fun _ _ => rfl
      rw [hall]
      exact (List.append_nil _).symm
    | some slot =>
      have hothers : w.persisted.filter (·.1 != slot) =
          w.persisted.filter fun entry => decide (some slot ≠ some entry.1) := by
        refine List.filter_congr fun entry _ => ?_
        by_cases hentry : entry.1 = slot
        · simp [hentry]
        · simp [hentry, Ne.symm hentry]
      rw [← hothers]
      rfl

/-- A connection is opened where none is kept, or where a closed one is: that one makes room, and
what it has registered goes. -/
theorem acquire_opens (h : w.acquire r = (.ok (serial, false), acquired)) :
    (∀ n, w.kept? r = some n → w.isConnected n = false) ∧
      acquired.registry.log =
        w.registry.log.filter (fun e => decide (∀ n ∈ w.kept? r, e.via ≠ .opened n)) ∧
      acquired.persisted =
        (w.persisted.filter fun entry => decide (r.slot? ≠ some entry.1)) ++
          r.slot?.toList.map (·, serial) := by
  have hacquire := acquire_eq w r
  rw [h] at hacquire
  cases hkept : w.kept? r with
  | none =>
    have hopen : w.openFor r = (.ok (serial, false), acquired) := by
      simpa only [show (r.slot?.bind fun slot => w.persisted.lookup slot) = none from hkept]
        using hacquire.symm
    have hok : (w.openFor r).1 = .ok (serial, false) := congrArg Prod.fst hopen
    refine ⟨nofun, ?_, ?_⟩
    · have hregistry := (openFor_ok hok).1
      rw [hopen] at hregistry
      rw [hregistry]
      exact (List.filter_eq_self.2 fun _ _ => by simp).symm
    · rw [← openFor_persisted hok, hopen]
  | some n =>
    simp only [show (r.slot?.bind fun slot => w.persisted.lookup slot) = some n from hkept]
      at hacquire
    obtain ⟨slot, hslot⟩ : ∃ slot, r.slot? = some slot := by
      cases hslot : r.slot? with
      | none => simp [kept?, hslot] at hkept
      | some slot => exact ⟨slot, rfl⟩
    cases hlive : w.isConnected n with
    | true =>
      rw [hlive] at hacquire
      cases hacquire
    | false =>
      simp only [hlive, Bool.false_eq_true, ↓reduceIte, hslot, Option.getD_some] at hacquire
      have hok : (((w.apply (.evict slot)).releaseBindings n).openFor r).1 =
          .ok (serial, false) := by
        rw [← hacquire]
      refine ⟨fun m hm => Option.some.inj hm ▸ hlive, ?_, ?_⟩
      · have hregistry := (openFor_ok hok).1
        rw [← hacquire] at hregistry
        rw [hregistry]
        refine (Registry.log_release _ _).trans (List.filter_congr fun e _ => ?_)
        simp
      · have hpersisted := openFor_persisted hok
        rw [← hacquire] at hpersisted
        have hevicted : (w.persisted.filter (·.1 != slot)).filter
            (fun entry => decide (r.slot? ≠ some entry.1)) =
              w.persisted.filter fun entry => decide (r.slot? ≠ some entry.1) := by
          rw [List.filter_filter]
          refine List.filter_congr fun entry _ => ?_
          by_cases hentry : entry.1 = slot
          · simp [hslot, hentry]
          · simp [hslot, hentry, Ne.symm hentry]
        rw [← hevicted]
        exact hpersisted

/-! Dropping -/

theorem discard_entries (w : World) (n : Nat) :
    (w.discard n).registry = w.registry.release (.opened n) ∧
      (w.discard n).persisted = w.persisted.filter (·.2 != n) := by
  have hsilenced : SameEntries w (w.offAll n) :=
    (removeListeners_makes w n fun _ => true).sameEntries fun _ hc => hc.aloof
  have hclosed : SameEntries w ((w.offAll n).close n) :=
    hsilenced.trans ((close_makes _ n).sameEntries fun _ hc => hc.works.aloof)
  constructor
  · show ((w.offAll n).close n).registry.release (.opened n) = _
    rw [hclosed.registry]
  · show ((w.offAll n).close n).persisted.filter (·.2 != n) = _
    rw [hclosed.persisted]

/-- A request that fails takes the connection with it that was opened for it. -/
theorem failConnect_entries (hfresh : c.reused = false) (w : World) (error : EngineError) :
    (w.failConnect c error).registry = w.registry.release (.opened c.pass.channel.connection) ∧
      (w.failConnect c error).persisted =
        w.persisted.filter (·.2 != c.pass.channel.connection) := by
  have hundone := (undo_makes w c).sameEntries fun _ hc => hc.aloof
  obtain ⟨hregistry, hpersisted⟩ := discard_entries (w.undo c) c.pass.channel.connection
  rw [failConnect_of_fresh w hfresh, ← hundone.registry, ← hundone.persisted]
  exact ⟨hregistry, hpersisted⟩

/-! What runs while a request waits -/

/-- What may run while a connect request waits for the peer's API: tasks, commands and time, but no
other connect request starts or comes to its end, and no session ends with its component or with the
engine. Connections may be closed and answers may come or fail. -/
inductive Meantime (w₁ : World) : World → Prop
  | start : Meantime w₁ w₁
  | job {w : World} {task : Task} {rest : List Task} (h : Meantime w₁ w)
      (hready : w.ready = task :: rest) (hjob : task.job.requests = false) :
      Meantime w₁ ((w.begin task rest).exec task.job)
  | command {w : World} (h : Meantime w₁ w) (ticket : Nat) {c : Command} (hc : ∀ ms, c ≠ .wait ms)
      (hends : c.ends = false) : Meantime w₁ (w.perform ticket c).1
  | pass {w : World} (h : Meantime w₁ w) {t : Nat} (ht : w.now ≤ t) :
      Meantime w₁ { w with now := t }
  | wake {w : World} (h : Meantime w₁ w) : Meantime w₁ w.wakeDue

namespace Meantime

variable {w₁ : World}

theorem run (h : Meantime w₁ w) : ∃ log, Run w₁ log w := by
  induction h with
  | start => exact ⟨[], .start⟩
  | job _ hready _ ih =>
    obtain ⟨log, hlog⟩ := ih
    exact ⟨_, hlog.step hready⟩
  | command _ ticket hc _ ih =>
    obtain ⟨log, hlog⟩ := ih
    exact ⟨log, hlog.command ticket hc⟩
  | pass _ ht ih =>
    obtain ⟨log, hlog⟩ := ih
    exact ⟨log, hlog.pass ht⟩
  | wake _ ih =>
    obtain ⟨log, hlog⟩ := ih
    exact ⟨log, hlog.wake⟩

theorem exec_sameEntries (w : World) {job : Job} (hjob : job.requests = false) :
    SameEntries w (w.exec job) := by
  rcases exec_cases w job with ⟨_, _, _, _, rfl⟩ | ⟨_, _, rfl⟩ | ⟨-, -, mid, e, hmid, -, heq⟩
  · cases hjob
  · cases hjob
  · rw [← heq]
    have hsame := hmid.sameEntries fun _ hc => hc.aloof
    cases e <;> exact ⟨hsame.registry, hsame.persisted⟩

theorem perform_sameEntries (w : World) (ticket : Nat) {c : Command} (hc : ∀ ms, c ≠ .wait ms)
    (hends : c.ends = false) : SameEntries w (w.perform ticket c).1 := by
  rcases perform_cases w ticket hc with
    ⟨owner, rfl⟩ | rfl | ⟨-, serial, hshuts⟩ | ⟨-, hhushes⟩ | hasks
  · cases hends
  · cases hends
  · exact hshuts.sameEntries fun _ h => h.works.aloof
  · exact hhushes.sameEntries fun _ h => h.aloof
  · exact hasks.sameEntries fun _ h => h.works.aloof

/-- Nothing is registered, released, kept or forgotten meanwhile. -/
theorem sameEntries (h : Meantime w₁ w) : SameEntries w₁ w := by
  induction h with
  | start => exact ⟨rfl, rfl⟩
  | @job w task rest _ hready hjob ih =>
    have hbegun : SameEntries w (w.begin task rest) := ⟨rfl, rfl⟩
    exact (ih.trans hbegun).trans (exec_sameEntries _ hjob)
  | @command w _ ticket c hc hends ih => exact ih.trans (perform_sameEntries w ticket hc hends)
  | pass _ _ ih => exact ⟨ih.registry, ih.persisted⟩
  | wake _ ih => exact ⟨ih.registry, ih.persisted⟩

theorem steps (h : Meantime w₁ w) (n : Nat)
    (hjobs : ((w.steps n).1.all fun m => !m.job.requests) = true) : Meantime w₁ (w.steps n).2 := by
  induction n generalizing w with
  | zero => exact h
  | succ n ih =>
    unfold World.steps at hjobs ⊢
    split
    · exact h
    · rename_i task rest hready
      simp only [hready, List.all_cons, Bool.and_eq_true] at hjobs
      exact ih (h.job hready (Bool.not_eq_true' _ ▸ hjobs.1)) hjobs.2

end Meantime

/-- The connect request that starts at `m` is over at `last`: at once, or after it has waited. -/
inductive Meanwhile (m : Moment) : Moment → Prop
  | once : Meanwhile m m
  | later {v : World} {task : Task} {rest : List Task} (h : Meantime m.after v)
      (hready : v.ready = task :: rest) : Meanwhile m ⟨task, v.begin task rest⟩

variable {log : List Moment} {m last : Moment} {g : Grant}

theorem Run.listed (h : Run w₀ log w) (h₀ : w₀.Listed) : w.Listed :=
  h.keeps (fun _ ch hw => hw.apply ch) (fun _ _ _ _ _ hw => hw) h₀

/-- What a request has attached to a connection that was opened for it, and what it leaves of the
rest. -/
theorem startConnect_opens {opts : ConnectOptions}
    (hresolved : (Resolved.ofRequest w.settings w.runtimeSockets opts).1 = .ok r)
    (hacquire : (w.acquire r).1 = .ok (serial, false)) (ticket : Nat) (name : String)
    (owner : ComponentId) :
    ∃ c mid, c.reused = false ∧ c.pass.token = w.tokens ∧ c.pass.channel.connection = serial ∧
      mid.waiting ⊆ w.waiting ∧ Makes Change.Connects w mid ∧
      (∀ n, w.kept? r = some n → w.isConnected n = false) ∧
      (∃ claims, mid.registry.log =
          w.registry.log.filter (fun e => decide (∀ n ∈ w.kept? r, e.via ≠ .opened n)) ++ claims ∧
        ∀ e ∈ claims, e.via = .opened serial) ∧
      mid.persisted = (w.persisted.filter fun entry => decide (r.slot? ≠ some entry.1)) ++
        r.slot?.toList.map (·, serial) ∧
      ((∃ error, w.startConnect ticket name owner opts = mid.failConnect c error) ∨
        w.startConnect ticket name owner opts = mid.askOrFinish c) := by
  obtain ⟨acquired, hacquired, -, htokens, hmakes⟩ :=
    acquired_of_acquire (Resolved.ofRequest w.settings w.runtimeSockets opts).2 hacquire
  obtain ⟨c, mid, hpass, -, hreused, hattaches, hends⟩ :=
    startConnect_attaches hresolved hacquired ticket name owner
  obtain ⟨hdown, hregistry, hpersisted⟩ := acquire_opens hacquired
  rw [foldl_warn_eq] at hdown hregistry hpersisted
  have hserial : c.pass.id = .opened serial := by rw [hpass]; rfl
  obtain ⟨claims, hclaims, hvia⟩ := hattaches.gains
  have hentered : Makes Change.Connects w (acquired.enter r) :=
    (hmakes.mono fun _ hc => .inl hc).trans
      ((enter_makes acquired r).mono fun _ hc => .inr hc.pursues)
  refine ⟨c, mid, hreused, ?_, by rw [hpass], ?_, ?_, hdown, ⟨claims, ?_, ?_⟩, ?_, hends⟩
  · rw [hpass]
    exact htokens
  · refine List.Subset.trans (hattaches.makes.waiting fun _ h => h.elim).subset ?_
    exact (hentered.waiting fun _ h =>
      h.elim (·.elim) (·.elim (·.elim) (·.elim (·.elim) (·.elim)))).subset
  · exact hentered.trans (hattaches.makes.mono fun _ hc => .inr hc.pursues)
  · rw [hclaims]
    exact congrArg (· ++ claims) hregistry
  · exact fun e he => (hvia e he).1.trans hserial
  · exact hattaches.makes.persisted_of_wires.trans hpersisted

/-- What the failure of a request that got a new connection in `w` leaves in `w'`: nothing of that
connection; all other registrations and slots, but for the slot it asked for if a closed connection
was kept there, and what that one had registered. -/
structure RolledBack (g : Grant) (w w' : World) : Prop where
  gone : Gone g.serial w'
  registered : w'.registry.log = w.registry.log.filter fun e =>
    decide (e.via ≠ .opened g.serial ∧ ∀ n ∈ w.kept? g.resolved, e.via ≠ .opened n)
  kept : w'.persisted = w.persisted.filter fun entry =>
    decide (entry.2 ≠ g.serial ∧ g.resolved.slot? ≠ some entry.1)
  room : ∀ slot n, g.resolved.slot? = some slot → (slot, n) ∈ w.persisted →
    w.kept? g.resolved = some n ∧ w.isConnected n = false

/-- The request fails in a world that has the registrations and slots with which it left its
wiring. -/
theorem failConnect_of_meanwhile {mid : World} (hmeanwhile : Meanwhile m last)
    (hlisted : m.after.Listed) (hwired : mid.Listed) (hnew : m.world.tokens < m.after.tokens)
    (hothers : ∀ c' ∈ mid.waiting, c'.pass.token ≠ m.world.tokens)
    (htoken : c.pass.token = m.world.tokens)
    (hends : (∃ error, m.after = mid.failConnect c error) ∨ m.after = mid.askOrFinish c)
    (hfails : m.FailsAt last) :
    ∃ w' error, SameEntries mid w' ∧ w'.Listed ∧ last.after = w'.failConnect c error := by
  by_cases honce : last = m
  · subst honce
    obtain ⟨error, heq⟩ := failConnect_of_failsAt_once htoken hends hfails
    exact ⟨mid, error, ⟨rfl, rfl⟩, hwired, heq⟩
  · cases hmeanwhile with
    | once => exact absurd rfl honce
    | @later v task rest hmeantime hready =>
      obtain ⟨log, hlog⟩ := hmeantime.run
      obtain ⟨⟨job, hasked⟩, error, heq⟩ := failConnect_of_failsAt_later (hlog.step hready)
        (List.mem_append_right _ List.mem_cons_self) hnew hothers htoken hends hfails honce
      have hwaits : SameEntries mid m.after := by
        rw [hasked]
        exact ⟨rfl, rfl⟩
      have hsame := hwaits.trans hmeantime.sameEntries
      have hbegun : (v.begin task rest).Listed := hlog.listed hlisted
      exact ⟨v.begin task rest, error, ⟨hsame.registry, hsame.persisted⟩, hbegun, heq⟩

/-- A connect request that fails on a connection that was opened for it is rolled back, wherever its
wiring stops and whatever the peer answers, if no other request and no end of a session comes
between. -/
theorem failed_connect_rolled_back (hblank : w₀.Blank) (hrun : Run w₀ (log ++ [m]) w)
    (hg : m.grant? = some g) (hfresh : g.reused = false) (hmeanwhile : Meanwhile m last)
    (hfails : m.FailsAt last) : RolledBack g m.world last.after := by
  obtain ⟨v, rest, hbefore, hready, hworld, -⟩ := hrun.split
  obtain ⟨ticket, name, owner, opts, hjob, hok, hacquire, hexec⟩ := started_of_grant? hg
  rw [hfresh] at hacquire
  have hlisted : m.world.Listed := by
    rw [hworld]
    refine hbefore.listed fun n hn => ?_
    rw [hblank.hub] at hn
    cases hn
  have hkept : Kept (openings log) m.world := by
    rw [hworld]
    exact (hbefore.kept hblank.toFresh).loosens (.same rfl rfl)
  have hgiven : ∀ c ∈ m.world.waiting, c.pass.token < m.world.tokens :=
    hworld ▸ hbefore.begin_given hblank.toFresh hready
  have hspent := startConnect_tokens hok hacquire ticket name owner
  obtain ⟨c, mid, hnew, htoken, hserial, hwaiting, hmakes, hdown, ⟨claims, hlog, hvia⟩, hpersisted,
    hends⟩ := startConnect_opens hok hacquire ticket name owner
  have hafter : m.after.Listed := by
    rw [hexec]
    obtain ⟨last, e, hlast, -, heq⟩ := startConnect_does m.world ticket name owner opts
    have hmade := hlisted.makes hlast
    rw [← heq]
    cases e <;> exact hmade
  rw [← hexec] at hspent hends
  obtain ⟨w', error, hsame, hlisted', heq⟩ := failConnect_of_meanwhile hmeanwhile hafter
    (hlisted.makes hmakes) hspent (fun c' hc' => Nat.ne_of_lt (hgiven c' (hwaiting hc'))) htoken
    hends hfails
  obtain ⟨hregistry, hslots⟩ := failConnect_entries hnew w' error
  rw [hserial] at hregistry hslots
  rw [heq]
  refine ⟨hserial ▸ failConnect_gone hlisted' hnew error, ?_, ?_, ?_⟩
  · have hclaims : claims.filter (fun e => decide (e.via ≠ .opened g.serial)) = [] :=
      List.filter_eq_nil_iff.2 fun e he => by simp [hvia e he]
    rw [hregistry, hsame.registry, Registry.log_release, hlog, List.filter_append, hclaims,
      List.append_nil, List.filter_filter]
    exact List.filter_congr fun e _ => (Bool.decide_and _ _).symm
  · have hopened : (g.resolved.slot?.toList.map (·, g.serial)).filter (·.2 != g.serial) = [] := by
      cases g.resolved.slot? <;> simp
    rw [hslots, hsame.persisted, hpersisted, List.filter_append, hopened, List.append_nil,
      List.filter_filter]
    refine List.filter_congr fun entry _ => ?_
    by_cases hentry : entry.2 = g.serial <;> simp [hentry]
  · intro slot n hslot hmem
    have hfound : m.world.kept? g.resolved = some n := by
      simp only [kept?, hslot, Option.bind_some]
      exact lookup_of_mem hkept.single hmem
    exact ⟨hfound, hdown n hfound⟩

/-! A request that is refused by the peer -/

/-- The task at the head of the queue, with the world it finds. -/
def next (w : World) (h : w.ready ≠ []) : Moment :=
  ⟨w.ready.head h, w.begin (w.ready.head h) w.ready.tail⟩

theorem Run.next (h : Run w₀ log w) (hready : w.ready ≠ []) :
    Run w₀ (log ++ [w.next hready]) (w.next hready).after :=
  h.step (List.cons_head_tail hready).symm

theorem Meantime.next (h : Meantime m.after w) (hready : w.ready ≠ []) :
    Meanwhile m (w.next hready) :=
  .later h (List.cons_head_tail hready).symm

def reading (event : String) : Option NamespaceConfig := some { listeners := [.str event] }

/-- A component keeps a connection and reads the news on it, another reads offers on its own. The
kept connection is broken off, and a third component wants to read the news with an API that it is
refused. -/
def hall : List Moment × World :=
  (bureau (.obj [("emitError", .str "busy")])).play
    [.command 0 (.connect "x" ⟨"a"⟩ { persist := .key "main", namespaceConfig := reading "news" }),
      .steps 10, .command 1 (.connect "y" ⟨"b"⟩ { namespaceConfig := reading "offers" }), .steps 10,
      .command 2 (.kick "x"), .command 3 (.connect "z" ⟨"c"⟩
        { persist := .key "main", namespaceConfig := reading "news", serverApi := some {} })]

theorem hall_ready : hall.2.ready ≠ [] := List.cons_ne_nil _ _

/-- The peer has been asked. -/
def hallAsked : World := ((hall.2.next hall_ready).after.steps 10).2

/-- It answers. -/
def hallRefused : World := (wakeDue { hallAsked with now := hallAsked.now + 60 } |>.steps 4).2

theorem hallRefused_ready : hallRefused.ready ≠ [] := List.cons_ne_nil _ _

/-- The news are free again, the slot is empty, and the offers are still read. -/
theorem rolled_back_after_refusal :
    (hall.2.next hall_ready).world.registry.log.map (·.via) = [.opened 1, .opened 2] ∧
      (hallRefused.next hallRefused_ready).world.registry.log.map (·.via) =
        [.opened 2, .opened 3] ∧
      (hallRefused.next hallRefused_ready).after.registry.log.map (·.via) = [.opened 2] ∧
      (hallRefused.next hallRefused_ready).after.persisted = [] ∧
      Gone 3 (hallRefused.next hallRefused_ready).after := by
  obtain ⟨g, hg, hfacts⟩ : ∃ g, (hall.2.next hall_ready).grant? = some g ∧
      (g.serial, g.reused, g.resolved.slot?) = (3, false, some ("home/", "main")) := ⟨_, rfl, rfl⟩
  simp only [Prod.mk.injEq] at hfacts
  obtain ⟨hserial, hfresh, hslot⟩ := hfacts
  have hrun : Run (bureau (.obj [("emitError", .str "busy")])) hall.1 hall.2 := .of_play _ rfl
  have hmeantime : Meantime (hall.2.next hall_ready).after hallRefused :=
    (((Meantime.start.steps 10 rfl).pass (Nat.le_add_right _ 60)).wake).steps 4 rfl
  have hfails : (hall.2.next hall_ready).FailsAt (hallRefused.next hallRefused_ready) := by
    refine ⟨.inr ⟨_, _, rfl, rfl⟩, ?_⟩
    have hheld : (hallRefused.next hallRefused_ready).after.holding.map (·.token) = [0, 1] := rfl
    intro hd hhd
    have hmem := List.mem_map_of_mem (f := (·.token)) hhd
    rw [hheld] at hmem
    have hgiven : (hall.2.next hall_ready).world.tokens = 2 := rfl
    rw [hgiven]
    rintro heq
    rw [heq] at hmem
    simp at hmem
  obtain ⟨hgone, hregistered, hkept, -⟩ := failed_connect_rolled_back (bureau_blank _)
    (hrun.next hall_ready) hg hfresh (hmeantime.next hallRefused_ready) hfails
  refine ⟨rfl, rfl, ?_, ?_, hserial ▸ hgone⟩
  · rw [hregistered, hserial]
    have hmade : (hall.2.next hall_ready).world.kept? g.resolved = some 1 := by
      rw [kept?, hslot]
      rfl
    rw [hmade]
    rfl
  · rw [hkept, hserial, hslot]
    rfl

end World

end Patchbay
