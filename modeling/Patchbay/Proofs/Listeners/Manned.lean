import Patchbay.Proofs.Engine.Follow
import Patchbay.Proofs.Listeners.Deliveries
import Patchbay.Proofs.Listeners.Rounds

/-!
The task of a worker among all others. Nobody else takes from the worker's queue or does its work,
and a delivery puts its payload into the queue and wakes the task if it waits.
-/

namespace Patchbay

/-- A change that leaves the queue of that worker and its work to others. -/
def Change.Aside (i : Nat) : Change → Prop
  | .enqueue k _ | .dequeue k => k ≠ i
  | .spawn job => job.worker? ≠ some i
  | c => c.Honest

namespace Change

variable {c : Change} {i : Nat}

theorem Aside.honest (h : c.Aside i) : c.Honest := by
  cases c <;> first | exact h | exact trivial

theorem Among.aside (h : c.Among (Kind.but [.feed, .attachWorker, .spawn, .enqueue, .dequeue])) :
    c.Aside i := by
  cases c with
  | listen serial event action once => cases action <;> first | exact trivial | exact h.elim
  | _ => first | exact trivial | exact h.elim

theorem Basic.aside (h : c.Basic) : c.Aside i := Among.aside (h.mono rfl)

theorem Undoes.aside (h : c.Undoes) : c.Aside i := Among.aside (h.mono rfl)

theorem Connects.aside (h : c.Connects) : c.Aside i := by
  cases c with
  | spawn | enqueue | dequeue => exact h.among.elim
  | _ => exact h.honest

theorem Utters.aside (h : c.Utters) : c.Aside i := by
  cases c with
  | spawn job =>
    intro heq
    rw [h.2.2] at heq
    cases heq
  | enqueue => exact h.elim
  | dequeue => exact h.elim
  | _ => exact (Utters.asks h).honest

theorem Hands.aside (h : c.Hands) : c.Aside i := Among.aside (h.among.mono rfl)

theorem Hears.aside {ack : Option CellId} {awaits : CellId → Prop} (h : c.Hears ack awaits) :
    c.Aside i := by
  cases c with
  | spawn job =>
    cases job with
    | hook hook argument after => cases after <;>
      first | exact h.elim | simp [Aside, Job.worker?, AfterHook.worker?]
    | _ => exact h.elim
  | answer => trivial
  | _ => exact Basic.aside h

end Change

/-- Jobs of other tasks do not touch the worker, but for what their deliveries put into its
queue. -/
theorem Job.May.aside {job : Job} {c : Change} {i : Nat} (h : job.May c)
    (hjob : job.worker? ≠ some i) (hserve : ∀ serial reply ack, job ≠ .serveEnd serial reply ack) :
    c.Aside i := by
  cases job with
  | connect => exact Change.Connects.aside h
  | emitDone result after => cases after <;> exact Change.Among.aside (h.among.mono rfl)
  | transmit => exact (Change.Sends.utters h).aside
  | hookDone verdict after => cases after <;> exact Change.Among.aside (h.among.mono rfl)
  | serveEnd serial reply ack => exact absurd rfl (hserve serial reply ack)
  | watch back =>
    cases h with
    | start v => simp [Change.Aside, Job.worker?]
    | _ => trivial
  | work worker =>
    rcases Change.Takes.eq_dequeue_or h with rfl | h
    · rintro rfl
      exact hjob rfl
    · exact h.aside
  | _ => exact Change.Among.aside (h.among.mono rfl)

namespace World

variable {w w' w₀ : World} {ch : Change} {i t r : Nat} {x : Worker} {p : Json}
  {queue rest : List Json} {e : Onward}

theorem Counted.apply (h : Counted w.started w.tasks) (ch : Change) :
    Counted (w.apply ch).started (w.apply ch).tasks := by
  have hnew := apply_schedules w ch
  rw [hnew.started]
  exact (h.append_numbered _).of_perm hnew.tasks

theorem Makes.counted {P : Change → Prop} (h : Makes P w w') (hw : Counted w.started w.tasks) :
    Counted w'.started w'.tasks :=
  h.keeps (I := fun w => Counted w.started w.tasks) (fun _ ch _ hw => hw.apply ch) hw

/-- The worker's listener is gone, or its session is over. -/
def Off (i : Nat) (w : World) : Prop :=
  ∃ x, w.workers[i]? = some x ∧ (x.fed = false ∨ w.isCancelled x.token = true)

theorem isCancelled_apply {token : Token} (h : w.isCancelled token = true) (ch : Change) :
    (w.apply ch).isCancelled token = true :=
  List.contains_iff_mem.2 ((apply_tokens w ch).2 (List.contains_iff_mem.1 h))

theorem Off.apply (h : Off i w) (ch : Change) : Off i (w.apply ch) := by
  obtain ⟨x, hx, hoff⟩ := h
  have htoken : (ch.reworks w i x).token = x.token := by
    cases ch with
    | enqueue k payload => simp only [Change.reworks]; split <;> rfl
    | dequeue k => simp only [Change.reworks]; split <;> rfl
    | _ => rfl
  refine ⟨_, worker_apply hx ch, hoff.imp (fun hunfed => ?_) fun hcancelled => ?_⟩
  · by_cases hhush : ∃ serial out, ch = .hush serial out
    · obtain ⟨serial, out, rfl⟩ := hhush
      simp only [Change.reworks, hunfed, Bool.false_and]
    · rw [Change.reworks_of_ne_hush fun serial out heq => hhush ⟨serial, out, heq⟩]
      exact hunfed
  · rw [htoken]
    exact isCancelled_apply hcancelled ch

theorem Off.makes {P : Change → Prop} (h : Off i w) (hmakes : Makes P w w') : Off i w' :=
  hmakes.keeps (I := Off i) (fun _ ch _ hw => hw.apply ch) h

/-- The worker is fed and its session is not over. It has these payloads in its queue, its task goes
on as it went on last, and no other task is the worker's; if the task waits for a payload, there is
none. -/
structure Staffed (i t r : Nat) (x : Worker) (queue : List Json) (e : Onward)
    (w : World) : Prop where
  worker : w.workers[i]? = some { x with queue, fed := true }
  live : w.isCancelled x.token = false
  stands : w.Stands t e
  given : 0 < t ∧ t ≤ w.started
  apart : t ≠ r
  alone : ∀ task ∈ w.tasks, task.job.worker? = some i → task.id = t
  wakes : ∀ p ∈ w.parked, p.task.id = t → .queue i ∈ p.signals → queue = []

namespace Staffed

/-- The worker is off, or all is as it was. -/
theorem apply (h : Staffed i t r x queue e w) (hch : ch.Aside i) :
    Off i (w.apply ch) ∨ Staffed i t r x queue e (w.apply ch) := by
  have hworker := worker_apply h.worker ch
  cases hcancelled : (w.apply ch).isCancelled x.token with
  | true =>
    refine .inl ⟨_, hworker, .inr ?_⟩
    cases ch with
    | enqueue k payload => simp only [Change.reworks, if_neg hch]; exact hcancelled
    | dequeue k => simp only [Change.reworks, if_neg hch]; exact hcancelled
    | _ => exact hcancelled
  | false =>
    have hsame : (w.apply ch).workers[i]? = some { x with queue, fed := true } ∨
      Off i (w.apply ch) := by
      rw [hworker]
      cases ch with
      | enqueue k payload => exact .inl (by simp only [Change.reworks, if_neg hch])
      | dequeue k => exact .inl (by simp only [Change.reworks, if_neg hch])
      | hush serial out =>
        cases hfed : (((w.listenersOn serial).filter out).map (·.action)).any (·.feeds i) with
        | true => exact .inr ⟨_, hworker, .inl (by simp only [Change.reworks, hfed]; rfl)⟩
        | false => exact .inl (by simp only [Change.reworks, hfed]; rfl)
      | _ => exact .inl rfl
    rcases hsame with hsame | hoff
    · have hnew := apply_schedules w ch
      have hlt := (List.getElem?_eq_some_iff.1 h.worker).1
      refine .inr ⟨hsame, hcancelled, h.stands.schedules hnew h.given.2, ?_, h.apart, ?_, ?_⟩
      · rw [hnew.started]
        exact ⟨h.given.1, Nat.le_add_right_of_le h.given.2⟩
      · intro task htask hjob
        rcases List.mem_append.1 (hnew.tasks.subset htask) with hold | hstarted
        · exact h.alone task hold hjob
        · have hmem := (Task.mem_numbered hstarted).2.2
          cases ch with
          | spawn job =>
            rw [List.mem_singleton.1 hmem] at hjob
            exact absurd hjob hch
          | attachBack back path =>
            rw [List.mem_singleton.1 hmem] at hjob
            cases hjob
          | attachWorker worker serial =>
            rw [List.mem_singleton.1 hmem] at hjob
            exact absurd (Option.some.inj hjob) (Nat.ne_of_gt hlt)
          | _ => cases hmem
      · exact fun p hp => h.wakes p (hnew.parked hp)
    · exact .inl hoff

theorem woken (h : Staffed i t r x queue e w) (hwoken : Woken w w') :
    Staffed i t r x queue e w' where
  worker := by
    rw [hwoken.workers]
    exact h.worker
  live := by
    have hlive := h.live
    rw [hwoken.eq]
    exact hlive
  stands := h.stands.woken hwoken
  given := by
    have hgiven := h.given
    rw [hwoken.eq]
    exact hgiven
  apart := h.apart
  alone task htask := h.alone task (hwoken.tasks.subset htask)
  wakes p hp := h.wakes p (hwoken.parked_subset hp)

/-- What the worker's listener hears is queued, and wakes the worker. -/
theorem enqueue (h : Staffed i t r x queue e w) (payload : Json) :
    Staffed i t r x (queue ++ [payload]) e
    ((w.apply (.enqueue i payload)).apply (.signal (.queue i))) := by
  have hqueued : (w.apply (.enqueue i payload)).workers[i]? =
      some { x with queue := queue ++ [payload], fed := true } := by
    rw [worker_apply h.worker]
    simp only [Change.reworks, ↓reduceIte]
  have hnew : Schedules w [] (w.apply (.enqueue i payload)) :=
    apply_schedules w (.enqueue i payload)
  have hwoken : Woken (w.apply (.enqueue i payload)) _ := signal_woken _ (.queue i)
  refine ⟨hqueued, h.live, (h.stands.schedules hnew h.given.2).woken hwoken, h.given,
    h.apart, ?_, ?_⟩
  · intro task htask
    have hold := hnew.tasks.subset (hwoken.tasks.subset htask)
    exact h.alone task (by simpa [Task.numbered] using hold)
  · intro p hp _ hwaits
    have hleft := (List.mem_filter.1 hp).2
    simp [hwaits] at hleft

/-- While the worker's task runs it is among no others. -/
theorem begin {task : Task} {rest : List Task} (h : Staffed i t r x queue e w)
    (hcounted : Counted w.started w.tasks) (hready : w.ready = task :: rest) (hown : task.id = t) :
    Staffed i t r x queue .ended (w.begin task rest) where
  worker := h.worker
  live := h.live
  stands := hown ▸ Stands.begin_own hcounted hready
  given := h.given
  apart := h.apart
  alone other hmem := h.alone other (by
    rw [begin_tasks hready]
    exact List.mem_cons_of_mem _ hmem)
  wakes := h.wakes

theorem unparked (h : Staffed i t r x queue .ended w) : ∀ p ∈ w.parked, p.task.id ≠ t := by
  intro p hp hid
  obtain ⟨job, signals, due, heq, -⟩ := h.stands.parked p hp hid
  cases heq

/-- The running worker takes the payload that waits longest. -/
theorem dequeue (h : Staffed i t r x (p :: rest) .ended w) :
    Staffed i t r x rest .ended (w.apply (.dequeue i)) where
  worker := by
    rw [worker_apply h.worker]
    simp only [Change.reworks, ↓reduceIte, List.tail_cons]
  live := h.live
  stands := h.stands.schedules (apply_schedules w (.dequeue i)) h.given.2
  given := h.given
  apart := h.apart
  alone := h.alone
  wakes parked hp hid := absurd hid (h.unparked parked hp)

/-- It goes on, and waits for a payload only if it has none. -/
theorem onward (h : Staffed i t r x queue .ended w) (hrunning : w.running = t) (next : Onward)
    (hwaits : .queue i ∈ next.signals → queue = []) :
    Staffed i t r x queue next (w.onward next) := by
  refine ⟨?_, ?_, h.stands.onward_own hrunning next, ?_, h.apart, ?_, ?_⟩
  · cases next <;> exact h.worker
  · cases next <;> exact h.live
  · cases next <;> exact h.given
  · intro task hmem hjob
    rcases List.mem_append.1 ((onward_tasks w next).subset hmem) with hold | hown
    · exact h.alone task hold hjob
    · obtain ⟨job, -, rfl⟩ := List.mem_map.1 hown
      exact hrunning
  · intro p hp hid
    cases next with
    | parks job signals due =>
      rcases List.mem_append.1 hp with hold | hown
      · exact absurd hid (h.unparked p hold)
      · rw [List.mem_singleton.1 hown]
        exact hwaits
    | _ => exact absurd hid (h.unparked p hp)

end Staffed

/-- The worker is off, or its task has all for itself. -/
def OffOrStaffed (i t r : Nat) (x : Worker) (queue : List Json) (e : Onward) (w : World) : Prop :=
  Off i w ∨ Staffed i t r x queue e w

theorem OffOrStaffed.makes {P : Change → Prop} (h : OffOrStaffed i t r x queue e w)
    (hmakes : Makes P w w') (hP : ∀ c, P c → c.Aside i) : OffOrStaffed i t r x queue e w' := by
  refine hmakes.keeps (I := OffOrStaffed i t r x queue e) ?_ h
  rintro w ch hch (hoff | hstaffed)
  · exact .inl (hoff.apply ch)
  · exact hstaffed.apply (hP ch hch)

/-- The running worker goes on with what it has made of the world. -/
theorem OffOrStaffed.onward (h : OffOrStaffed i t r x queue .ended w) (hrunning : w.running = t)
    (next : Onward) (hwaits : .queue i ∈ next.signals → queue = []) :
    OffOrStaffed i t r x queue next (w.onward next) := by
  rcases h with hoff | hstaffed
  · cases next <;> exact .inl hoff
  · exact .inr (hstaffed.onward hrunning next hwaits)

/-! Deliveries -/

/-- A listener that does not feed the worker leaves it alone. -/
theorem react_aside (w : World) {action : Reaction} (hother : action.feeds i = false)
    (payload : Json)
    (ack : Option CellId) : Makes (Change.Aside i) w (w.react action payload ack) := by
  have habandon (w : World) : Makes (Change.Aside i) w (w.abandonIf ack) :=
    (abandonIf_makes w ack).mono fun _ hc => hc.aside
  have hhears {action : Reaction} (hplain : ∀ worker token, action ≠ .enqueue worker token) :
      Makes (Change.Aside i) w (w.react action payload ack) := by
    have hmakes : Makes (Change.Hears ack fun _ => True) w (w.react action payload ack) :=
      react_hears w payload ack hplain fun _ _ => trivial
    exact hmakes.mono fun _ hc => hc.aside
  cases action with
  | enqueue k token =>
    have hk : k ≠ i := by simpa [Reaction.feeds] using hother
    simp only [react]
    split
    · exact habandon w
    · exact (Makes.more (.signal (.queue k)) (.one (P := Change.Aside i) (.enqueue k payload) hk)
        trivial).trans (habandon _)
  | _ => exact hhears (by simp)

/-- So does a delivery that finds no other listeners. -/
theorem deliver_aside {serial : Nat}
    (hunheard : ∀ l ∈ w.listenersOn serial, l.action.feeds i = false)
    (event : String) (payload : Json) (ack : Option CellId) :
    Makes (Change.Aside i) w (w.deliver serial event payload ack) := by
  have habandon (w : World) : Makes (Change.Aside i) w (w.abandonIf ack) :=
    (abandonIf_makes w ack).mono fun _ hc => hc.aside
  cases hc : w.connection? serial with
  | none =>
    simp only [deliver, hc]
    exact habandon w
  | some c =>
    simp only [deliver, hc]
    split
    · exact habandon w
    · rw [updateConnection_spend hc]
      refine (Makes.one (P := Change.Aside i) (.spend serial event) trivial).trans ?_
      have hactions : ∀ action ∈ (c.listeners.deliver event).1.map (·.action),
          action.feeds i = false := by
        intro action haction
        obtain ⟨l, hl, rfl⟩ := List.mem_map.1 haction
        refine hunheard l ?_
        rw [listenersOn_of_connection? hc]
        exact (List.mem_filter.1 hl).1
      revert hactions
      cases (c.listeners.deliver event).1.map (·.action) with
      | nil => exact fun _ => habandon _
      | cons first rest =>
        intro hactions
        refine (react_aside _ (hactions first List.mem_cons_self) payload ack).trans ?_
        exact Makes.foldl_of_mem rest
          (fun action hmem w =>
            react_aside w (hactions action (List.mem_cons_of_mem _ hmem)) payload none) _

/-- A command that delivers nothing leaves every worker to itself. -/
theorem perform_aside (w : World) (ticket : Nat) {c : Command} (hc : ∀ ms, c ≠ .wait ms)
    (hdelivers : c.delivers = false) : Makes (Change.Aside i) w (w.perform ticket c).1 := by
  have hundoes {w' : World} (h : Makes Change.Undoes w w') : Makes (Change.Aside i) w w' :=
    h.mono fun _ hc => hc.aside
  cases hends : c.ends with
  | true =>
    cases c with
    | teardown owner => exact hundoes (teardown_makes w owner)
    | shutdown => exact hundoes (shutdown_makes w)
    | _ => cases hends
  | false =>
    cases hcloses : c.closes with
    | true =>
      obtain ⟨serial, hshuts⟩ := perform_shuts w ticket hcloses
      exact hundoes (hshuts.mono fun _ h => h.detaches.undoes)
    | false =>
      cases hmutes : c.mutes with
      | true => exact hundoes ((perform_mutes w ticket hmutes).mono fun _ h => h.finishes.undoes)
      | false =>
        exact (perform_utters w ticket hc hends hcloses hmutes hdelivers).mono fun _ h => h.aside

namespace OffOrStaffed

theorem react (h : OffOrStaffed i t r x queue e w) {action : Reaction}
    (hloyal : action.feeds i = true → action = .enqueue i x.token) (payload : Json)
    (ack : Option CellId) :
    OffOrStaffed i t r x (queue ++ List.replicate ([action].countP (·.feeds i)) payload) e
      (w.react action payload ack) := by
  cases hfeeds : action.feeds i with
  | false =>
    have hmakes := h.makes (react_aside w hfeeds payload ack) fun _ hc => hc
    simpa [hfeeds] using hmakes
  | true =>
    rcases h with hoff | hstaffed
    · have hmakes : Makes (Change.Delivers ack fun _ => True) w (w.react action payload ack) :=
        react_makes w action payload ack fun _ _ => trivial
      exact .inl (hoff.makes hmakes)
    · rw [hloyal hfeeds]
      have hreact : w.react (.enqueue i x.token) payload ack =
          ((w.apply (.enqueue i payload)).apply (.signal (.queue i))).abandonIf ack := by
        simp only [World.react, hstaffed.live]
        rfl
      have hqueued : OffOrStaffed i t r x (queue ++ [payload]) e _ :=
        .inr (hstaffed.enqueue payload)
      have hmakes := hqueued.makes (abandonIf_makes _ ack) fun _ hc => hc.aside
      rw [hreact]
      simpa [Reaction.feeds] using hmakes

/-- Each listener of the worker that hears a payload queues it once more. -/
theorem reactAll (h : OffOrStaffed i t r x queue e w) {actions : List Reaction}
    (hloyal : ∀ action ∈ actions, action.feeds i = true → action = .enqueue i x.token)
    (payload : Json) (ack : Option CellId) :
    OffOrStaffed i t r x (queue ++ List.replicate (actions.countP (·.feeds i)) payload) e
      (w.reactAll payload ack actions) := by
  have hothers {rest : List Reaction}
      (hloyal : ∀ action ∈ rest, action.feeds i = true → action = .enqueue i x.token) {w : World}
      {queue : List Json} (h : OffOrStaffed i t r x queue e w) :
      OffOrStaffed i t r x (queue ++ List.replicate (rest.countP (·.feeds i)) payload) e
        (rest.foldl (fun w action => w.react action payload none) w) := by
    induction rest generalizing w queue with
    | nil => simpa using h
    | cons action rest ih =>
      have hrest := ih (fun a ha => hloyal a (List.mem_cons_of_mem _ ha))
        (h.react (hloyal action List.mem_cons_self) payload none)
      rwa [List.append_assoc, List.replicate_append_replicate, ← List.countP_append] at hrest
  cases actions with
  | nil =>
    rw [List.countP_nil, List.replicate_zero, List.append_nil]
    exact h.makes (abandonIf_makes w ack) fun _ hc => hc.aside
  | cons first rest =>
    have hall := hothers (fun a ha => hloyal a (List.mem_cons_of_mem _ ha))
      (h.react (hloyal first List.mem_cons_self) payload ack)
    rwa [List.append_assoc, List.replicate_append_replicate, ← List.countP_append] at hall

/-- A delivery that reaches the worker is queued for it, and no other. -/
theorem deliver (h : OffOrStaffed i t r x queue e w) (hfed : Fed i w) (serial : Nat)
    (event : String) (payload : Json) (ack : Option CellId) :
    OffOrStaffed i t r x (queue ++ w.heard i [⟨serial, event, payload⟩]) e
      (w.deliver serial event payload ack) := by
  have hmissed (hdown : w.isConnected serial = false) : OffOrStaffed i t r x
      (queue ++ w.heard i [⟨serial, event, payload⟩]) e (w.abandonIf ack) := by
    have hnothing : w.heard i [⟨serial, event, payload⟩] = [] := by simp [heard, reaches, hdown]
    rw [hnothing, List.append_nil]
    exact h.makes (abandonIf_makes w ack) fun _ hc => hc.aside
  rcases h with hoff | hstaffed
  · exact .inl (hoff.makes (deliver_makes w serial event payload ack))
  cases hc : w.connection? serial with
  | none =>
    simp only [World.deliver, hc]
    exact hmissed (by simp only [isConnected, hc])
  | some c =>
    cases hopen : c.connected with
    | false =>
      simp only [World.deliver, hc, hopen]
      exact hmissed (by simp only [isConnected, hc, hopen])
    | true =>
      let d : Delivery := ⟨serial, event, payload⟩
      have hactions : (c.listeners.deliver event).1.map (·.action) =
          ((w.listenersOn d.connection).filter (·.event == d.event)).map (·.action) := by
        rw [listenersOn_of_connection? hc]
        rfl
      have hheard := hfed.heard_replicate d (by simp only [isConnected, d, hc, hopen])
      simp only [World.deliver, hc, hopen, updateConnection_spend hc, hactions]
      rw [hheard]
      have hspent := hstaffed.apply (show Change.Aside i (.spend serial event) from trivial)
      refine reactAll hspent ?_ payload ack
      intro action haction hfeeds
      obtain ⟨l, hl, rfl⟩ := List.mem_map.1 haction
      obtain ⟨-, y, hy, -, -, heq⟩ := hfed.loyal serial l (List.mem_filter.1 hl).1 hfeeds
      rw [hstaffed.worker] at hy
      rw [heq, ← Option.some.inj hy]

end OffOrStaffed

end World

end Patchbay
