import Patchbay.Proofs.EmitBack.ExactlyOnce
import Patchbay.Proofs.Engine.Registrations
import Patchbay.Proofs.Engine.Workers
import Patchbay.Proofs.Sessions.Undisturbed

/-!
What an attached binding leaves behind. A listener's number stays its own, a worker keeps its target
and a watch its path, so what was attached once can be told by what is still held of it.
-/

namespace Patchbay

/-- The path of that watch, if this is what the event tells. -/
def Event.path? (place : Place) (id : Nat) : Event → Option String
  | .watched p n path _ => if p = place ∧ n = id then some path else none
  | _ => none

namespace World

variable {w₀ w w' : World} {log : List Moment} {n k : Nat} {l : Listener Reaction} {place : Place}

/-! Numbers of listeners -/

/-- All numbers of listeners were given out. -/
def Numbers (w : World) : Prop :=
  ∀ n c, w.connection? n = some c → ∀ l ∈ c.listeners.entries, l.id < c.listeners.next

/-- The number is the listener's own: no other of the connection has it. -/
def Names (w : World) (n : Nat) (l : Listener Reaction) : Prop :=
  ∃ c, w.connection? n = some c ∧ l.id < c.listeners.next ∧
    ∀ l' ∈ c.listeners.entries, l'.id = l.id → l' = l

theorem Numbers.apply (h : w.Numbers) (ch : Change) : (w.apply ch).Numbers := by
  intro n c hc l hl
  rcases connection?_of_apply hc with ⟨c', hc', rfl⟩ | ⟨-, hempty, -⟩
  · have hold := h n c' hc'
    rcases ch.reshape_listeners w n c' with ⟨new, hnew, hadded⟩ | ⟨hsame, hfewer⟩
    · rw [hadded] at hl ⊢
      rcases List.mem_append.1 hl with hl | hl
      · exact Nat.lt_succ_of_lt (hold l hl)
      · rw [List.mem_singleton.1 hl, hnew]
        exact Nat.lt_succ_self _
    · rw [hsame]
      exact hold l (hfewer hl)
  · rw [hempty] at hl
    cases hl

theorem Names.apply (h : w.Names n l) (ch : Change) : (w.apply ch).Names n l := by
  obtain ⟨c, hc, hid, hown⟩ := h
  refine ⟨_, connection?_apply hc ch, ?_⟩
  rcases ch.reshape_listeners w n c with ⟨new, hnew, hadded⟩ | ⟨hsame, hfewer⟩
  · rw [hadded]
    refine ⟨Nat.lt_succ_of_lt hid, ?_⟩
    intro l' hl' heq
    rcases List.mem_append.1 hl' with hl' | hl'
    · exact hown l' hl' heq
    · rw [List.mem_singleton.1 hl', hnew] at heq
      omega
  · rw [hsame]
    exact ⟨hid, fun l' hl' => hown l' (hfewer hl')⟩

/-! Paths of watches -/

/-- The path of a watch, as the trace tells it. -/
def watchedPath (w : World) (place : Place) (id : Nat) : Option String :=
  w.trace.findSome? (Event.path? place id)

theorem watchedPath_apply {id : Nat} {path : String} (h : w.watchedPath place id = some path)
    (ch : Change) : (w.apply ch).watchedPath place id = some path := by
  obtain ⟨more, htrace, -⟩ := apply_trace w ch
  rw [watchedPath, htrace, List.findSome?_append]
  unfold watchedPath at h
  rw [h, Option.some_or]

theorem findSome?_path {id : Nat} {earlier later : List Event} {path : String} {first : Option Json}
    (h : ∀ p v, Event.watched place id p v ∉ earlier) :
    (earlier ++ .watched place id path first :: later).findSome? (Event.path? place id) =
      some path := by
  have hnone : earlier.findSome? (Event.path? place id) = none := by
    refine List.findSome?_eq_none_iff.2 ?_
    intro e he
    cases e with
    | watched p i path' first' =>
      refine if_neg ?_
      rintro ⟨rfl, rfl⟩
      exact h path' first' he
    | _ => rfl
  rw [List.findSome?_append, hnone]
  simp [Event.path?]

/-- The watch of a loop is on the path that the trace tells. -/
theorem Sees.follows {id : Nat} {taken : List Json} {path : String} (h : w.Sees place id taken)
    (hpath : w.watchedPath place id = some path) : (w.tree place).Follows id path := by
  obtain ⟨path', first, earlier, later, htrace, hearlier, -, hfollows, -⟩ := h
  rw [watchedPath, htrace, findSome?_path hearlier] at hpath
  exact Option.some.inj hpath ▸ hfollows

/-! What is attached for a binding -/

/-- A registration that goes with its connection. -/
def Registered (w : World) (n : Nat) (r : Registration) : Prop :=
  w.Opened n ∧ (w.isConnected n = true → r ∈ w.registry.log)

/-- A listener for the binding, with a worker of its target; it is known by its number. -/
def Receiver (w : World) (channel : Channel) (t : Token) (sink : Sink) (items : List Detach)
    (b : Binding) : Prop :=
  ∃ l k worker, .listener channel.connection l.id ∈ items ∧ l.event = b.action ∧
    l.action = .enqueue k t ∧ w.Names channel.connection l ∧ w.Employs k worker ∧
      worker.target = b.targetOrAction ∧ worker.sink = sink

/-- A store emitBack for the binding, on its watch; it is known by its own token. -/
def Sender (w : World) (channel : Channel) (t : Token) (items : List Detach) (b : Binding) : Prop :=
  ∃ back : EmitBack, .token back.own ∈ items ∧ back.token = t ∧ back.channel = channel ∧
    back.event = b.action ∧ back.place = .store ∧ .watch back ∈ w.jobs ∧
      w.watchedPath .store back.watch = some b.sourceOrAction

/-- What a pass has attached for a binding of the store. -/
def Attached (w : World) (channel : Channel) (t : Token) (items : List Detach) :
    StoreArea → Binding → Prop
  | .actions => w.Receiver channel t .dispatch items
  | .mutations => w.Receiver channel t .commit items
  | .emitBacks => w.Sender channel t items

variable {channel : Channel} {t : Token} {sink : Sink} {items more : List Detach} {b : Binding}
  {area : StoreArea}

theorem Registered.apply {r : Registration} (h : w.Registered n r) (hvia : r.via = .opened n)
    (ch : Change) : (w.apply ch).Registered n r := by
  refine ⟨h.1.apply ch, fun hlive => ?_⟩
  have hearlier := h.1.isConnected_of_apply hlive
  exact mem_registry_apply (h.2 hearlier) hvia hearlier ch

theorem Registered.makes {P : Change → Prop} {r : Registration} (h : w.Registered n r)
    (hvia : r.via = .opened n) (hmakes : Makes P w w') : w'.Registered n r :=
  hmakes.keeps (I := fun w => w.Registered n r) (fun _ ch _ hw => Registered.apply hw hvia ch) h

theorem Receiver.apply (h : w.Receiver channel t sink items b) (ch : Change) :
    (w.apply ch).Receiver channel t sink items b := by
  obtain ⟨l, k, worker, hitem, hevent, haction, hnames, hemploys, hrest⟩ := h
  exact ⟨l, k, worker, hitem, hevent, haction, hnames.apply ch, hemploys.apply ch, hrest⟩

theorem Receiver.mono (h : w.Receiver channel t sink items b) (hitems : items ⊆ more) :
    w.Receiver channel t sink more b := by
  obtain ⟨l, k, worker, hitem, hrest⟩ := h
  exact ⟨l, k, worker, hitems hitem, hrest⟩

theorem Sender.apply (h : w.Sender channel t items b) (ch : Change) :
    (w.apply ch).Sender channel t items b := by
  obtain ⟨back, hitem, ht, hchannel, hevent, hplace, hjob, hpath⟩ := h
  refine ⟨back, hitem, ht, hchannel, hevent, hplace, ?_, watchedPath_apply hpath ch⟩
  exact (apply_schedules w ch).jobs.symm.subset (List.mem_append_left _ hjob)

theorem Sender.mono (h : w.Sender channel t items b) (hitems : items ⊆ more) :
    w.Sender channel t more b := by
  obtain ⟨back, hitem, hrest⟩ := h
  exact ⟨back, hitems hitem, hrest⟩

theorem Attached.apply (h : w.Attached channel t items area b) (ch : Change) :
    (w.apply ch).Attached channel t items area b := by
  cases area with
  | actions => exact Receiver.apply h ch
  | mutations => exact Receiver.apply h ch
  | emitBacks => exact Sender.apply h ch

theorem Attached.makes {P : Change → Prop} (h : w.Attached channel t items area b)
    (hmakes : Makes P w w') : w'.Attached channel t items area b :=
  hmakes.keeps (I := fun w => w.Attached channel t items area b) (fun _ ch _ hw => hw.apply ch) h

theorem Attached.mono (h : w.Attached channel t items area b) (hitems : items ⊆ more) :
    w.Attached channel t more area b := by
  cases area with
  | actions => exact Receiver.mono h hitems
  | mutations => exact Receiver.mono h hitems
  | emitBacks => exact Sender.mono h hitems

/-! Wiring the store -/

/-- The numbers of listeners and of the store's watches were given out. -/
structure Numbered (w : World) : Prop where
  numbers : w.Numbers
  known : w.Known .store

theorem Numbered.makes (h : Numbered w) (hmakes : Makes Change.Foreign w w') : Numbered w' :=
  hmakes.keeps (fun w _ hch hw => ⟨hw.numbers.apply _, hw.known.tends (apply_tends w hch .store)⟩) h

/-- What a wiring pass can rely on. -/
structure Prepared (p : Pass) (w : World) : Prop extends Numbered w where
  opened : w.Opened p.channel.connection

variable {p : Pass}

theorem Prepared.makes (h : Prepared p w) (hmakes : Makes Change.Foreign w w') : Prepared p w' :=
  ⟨h.toNumbered.makes hmakes, h.opened.makes hmakes⟩

theorem attachListener_receiver (h : Prepared p w) (b : Binding) (sink : Sink) :
    (w.attachListener p b sink).1.Receiver p.channel p.token sink
      ([(w.attachListener p b sink).2].filterMap (·.undo)) b := by
  obtain ⟨mid, hmid, heq, hid⟩ := attachListener_eq w p b sink
  have hready := h.makes (hmid.mono fun _ hc => hc.basic.foreign)
  obtain ⟨c, hc⟩ := hready.opened
  rw [heq, hid c hc]
  let l : Listener Reaction :=
    ⟨c.listeners.next, b.action, .enqueue mid.workers.length p.token, false⟩
  have hafter := connection?_apply hc
    (.attachWorker (w.workerOf p b sink) p.channel.connection)
  refine ⟨l, mid.workers.length, w.workerOf p b sink, List.mem_singleton.2 rfl, rfl, rfl,
    ?_, ?_, rfl, rfl⟩
  · refine ⟨_, hafter, ?_, ?_⟩
    · simp [Change.reshape, Listeners.add, l]
    · intro l' hl' heq'
      simp only [Change.reshape, Listeners.add, ↓reduceIte] at hl'
      rcases List.mem_append.1 hl' with hl' | hl'
      · have hlt := hready.numbers _ c hc l' hl'
        rw [heq'] at hlt
        exact absurd hlt (Nat.lt_irrefl _)
      · exact List.mem_singleton.1 hl'
  · exact ⟨w.workerOf p b sink, by simp [World.apply, adjust, spawn], rfl⟩

theorem attachEmitBack_sender (h : Prepared p w) (b : Binding) :
    (w.attachEmitBack p b .store).1.Sender p.channel p.token
      ([(w.attachEmitBack p b .store).2].filterMap (·.undo)) b := by
  have hready := h.makes ((resolveHooks_makes w p b).mono fun _ hc => hc.foreign)
  rw [attachEmitBack_eq, attachEmitBack_token]
  generalize (w.resolveHooks p b).1 = mid at hready ⊢
  let back : EmitBack := { w.emitBackOf p b .store with
    watch := (mid.watch .store b.sourceOrAction).2, own := mid.tokens }
  refine ⟨back, List.mem_singleton.2 rfl, rfl, rfl, rfl, rfl, ?_, ?_⟩
  · have hjobs :=
      (apply_schedules mid (.attachBack (w.emitBackOf p b .store) b.sourceOrAction)).jobs
    exact hjobs.symm.subset (List.mem_append_right _ (List.mem_singleton.2 rfl))
  · rw [watchedPath, attachBack_trace, watch_trace]
    refine findSome?_path ?_
    intro p v hmem
    exact Nat.not_succ_le_self _ (hready.known.2 _ p v hmem)

theorem attachStore_attached (h : Prepared p w) (area : StoreArea) (b : Binding) :
    (attachStore p area w b).1.Attached p.channel p.token
      ((attachStore p area w b).2.filterMap (·.undo)) area b := by
  have hwarned (on : Bool) (warning : Warning) : Prepared p (w.warnIf on warning) :=
    h.makes ((warnIf_makes w on warning).mono fun _ hc => hc.foreign)
  cases area with
  | actions => exact attachListener_receiver (hwarned _ _) b .dispatch
  | mutations => exact attachListener_receiver (hwarned _ _) b .commit
  | emitBacks => exact attachEmitBack_sender h b

/-- Each action that was free in its scope is registered, and its first binding is attached. -/
theorem wireArea_attaches (h : Prepared p w) (c : StoreWiring) (area : StoreArea) :
    ∀ b ∈ c.compiled area, w.registry.contains (p.storeScope area) b.role b.action = false →
      ∃ first, (c.compiled area).find? (·.action == b.action) = some first ∧
        ⟨p.storeScope area, first, p.id⟩ ∈ (w.wireArea p c area).1.registry.log ∧
        (w.wireArea p c area).1.Attached p.channel p.token (w.wireArea p c area).2.items area
          first := by
  intro b hb hfree
  rw [StoreWiring.role_of_mem_compiled hb] at hfree
  exact attachAll_claims (E := fun w items b => w.Attached p.channel p.token items area b)
    (.attachStore area) (fun _ hw => hw.opened)
    (fun _ ch hch hw => hw.makes (.one ch hch.foreign)) (fun _ _ _ ch hw => hw.apply ch)
    (fun _ _ _ _ hitems hw => hw.mono hitems) (fun _ b hw => attachStore_attached hw area b) h
    (fun _ => StoreWiring.role_of_mem_compiled) b hb hfree

theorem wireStore_attaches {c : StoreWiring} {wired : Wired} (h : Prepared p w)
    (hwire : w.wireStore p c = (w', .ok wired)) (area : StoreArea) :
    ∀ b ∈ c.compiled area, w.registry.contains (p.storeScope area) b.role b.action = false →
      ∃ first, (c.compiled area).find? (·.action == b.action) = some first ∧
        ⟨p.storeScope area, first, p.id⟩ ∈ w'.registry.log ∧
        w'.Attached p.channel p.token wired.items area first := by
  obtain ⟨rfl, hitems⟩ := wireStore_areas hwire
  have hother {w : World} (hw : Prepared p w) {area : StoreArea} (other : StoreArea)
      (hne : area ≠ other) (b : Binding) :
      (w.wireArea p c other).1.registry.contains (p.storeScope area) b.role b.action =
        w.registry.contains (p.storeScope area) b.role b.action :=
    (wireArea_gains hw.opened c other).contains_eq (fun heq => hne (Scope.store.inj heq).2) _ _
  have hready₁ := h.makes ((wireArea_makes w p c .actions).mono fun _ hc => hc.foreign)
  have hready₂ := hready₁.makes ((wireArea_makes _ p c .mutations).mono fun _ hc => hc.foreign)
  have hlasts {w : World} {items : List Detach} {b : Binding} (other : StoreArea)
      (hb : w.Attached p.channel p.token items area b) :
      (w.wireArea p c other).1.Attached p.channel p.token items area b :=
    hb.makes (wireArea_makes w p c other)
  intro b hb hfree
  rw [hitems]
  cases area with
  | actions =>
    obtain ⟨first, hfirst, hmem, hattached⟩ := wireArea_attaches h c .actions b hb hfree
    refine ⟨first, hfirst, ?_, (hlasts _ (hlasts _ hattached)).mono ?_⟩
    · exact (wireArea_gains hready₂.opened c _).mem ((wireArea_gains hready₁.opened c _).mem hmem)
    · exact List.subset_append_left _ _
  | mutations =>
    rw [← hother h .actions (by simp) b] at hfree
    obtain ⟨first, hfirst, hmem, hattached⟩ :=
      wireArea_attaches hready₁ c .mutations b hb hfree
    refine ⟨first, hfirst, (wireArea_gains hready₂.opened c _).mem hmem,
      (hlasts _ hattached).mono ?_⟩
    exact List.subset_append_of_subset_right _ (List.subset_append_left _ _)
  | emitBacks =>
    rw [← hother h .actions (by simp) b, ← hother hready₁ .mutations (by simp) b] at hfree
    obtain ⟨first, hfirst, hmem, hattached⟩ :=
      wireArea_attaches hready₂ c .emitBacks b hb hfree
    refine ⟨first, hfirst, hmem, hattached.mono ?_⟩
    exact List.subset_append_of_subset_right _ (List.subset_append_right _ _)

end World

end Patchbay
