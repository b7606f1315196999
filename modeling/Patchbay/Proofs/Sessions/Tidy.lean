import Patchbay.Proofs.Sessions.Holders
import Patchbay.Proofs.Sessions.Requests

/-!
Sessions and connect requests as holders, through every step of a run: wiring attaches what is new,
a request that fails and a session that ends undo their own, and nothing else is taken away as long
as the application leaves the listeners of the engine alone.
-/

namespace Patchbay

/-- A wiring pass that has attached these so far. -/
def Pass.holder (p : Pass) (items : List Detach) : Holder := ⟨p.channel.connection, p.token, items⟩

def Connecting.holder (c : Connecting) : Holder := c.pass.holder c.wired.items

def Session.holder (s : Session) : Holder :=
  ⟨s.channel.connection, s.token, s.subscriptions.filterMap (·.undo)⟩

/-- A change that takes nothing away and lets no holder come or go. -/
def Change.Adds : Change → Prop
  | .cancel _ | .hush .. | .track _ | .disown _ | .outlive _ | .disownAll => False
  | .spawn job => job.connecting? = none
  | _ => True

/-- Such a change that also leaves registrations and the slots of kept connections alone. -/
def Change.Works : Change → Prop
  | .register .. | .releaseBindings _ | .keep .. | .evict _ | .forget _ => False
  | c => c.Adds

/-- A change that lets no holder come or go. -/
def Change.Still : Change → Prop
  | .track _ | .disown _ | .outlive _ | .disownAll => False
  | .spawn job => job.connecting? = none
  | _ => True

namespace Change

variable {c : Change}

theorem Among.works (h : c.Among (Kind.but [.register, .releaseBindings, .keep, .evict, .forget,
    .cancel, .hush, .track, .disown, .outlive, .disownAll, .spawn])) : c.Works := by
  cases c <;> first | exact trivial | exact h.elim

theorem Among.adds (h : c.Among (Kind.but [.cancel, .hush, .track, .disown, .outlive, .disownAll,
    .spawn])) : c.Adds := by
  cases c <;> first | exact trivial | exact h.elim

theorem Among.still (h : c.Among (Kind.but [.track, .disown, .outlive, .disownAll, .spawn])) :
    c.Still := by
  cases c <;> first | exact trivial | exact h.elim

theorem Works.adds (h : c.Works) : c.Adds := by
  cases c <;> first | exact h | exact h.elim

theorem Adds.spares (h : c.Adds) : c.Spares := by
  cases c <;> first | exact h | exact trivial

theorem Basic.works (h : c.Basic) : c.Works := Among.works (h.mono rfl)

theorem Shuts.works {serial : Nat} (h : c.Shuts serial) : c.Works := Among.works (h.among.mono rfl)

theorem Enters.works (h : c.Enters) : c.Works := Among.works (h.mono rfl)

theorem Asks.works (h : c.Asks) : c.Works := by
  rcases h.spawns_or with ⟨job, hjob, rfl⟩ | h
  · exact hjob.2.1
  · exact Among.works (h.mono rfl)

theorem Replies.works (h : c.Replies) : c.Works := by
  rcases h.eq_hold_or with ⟨cell, rfl⟩ | hasks
  · trivial
  · exact hasks.works

theorem Answers.works (h : c.Answers) : c.Works := Among.works (h.mono rfl)

theorem Hushes.still (h : c.Hushes) : c.Still := Among.still (h.mono rfl)

theorem Adds.still (h : c.Adds) : c.Still := by
  cases c <;> first | exact h | exact trivial

theorem Detaches.still (h : c.Detaches) : c.Still := Among.still (h.mono rfl)

theorem Wires.adds (h : c.Wires) : c.Adds := Among.adds (h.among.mono rfl)

theorem Basic.adds (h : c.Basic) : c.Adds := Among.adds (h.mono rfl)

theorem Enters.adds (h : c.Enters) : c.Adds := Among.adds (h.mono rfl)

theorem Acquires.adds (h : c.Acquires) : c.Adds := Among.adds (h.mono rfl)

end Change

/-- Apart from the start and the end of a connect request a job goes about its own work. -/
theorem Job.May.works {job : Job} {c : Change} (h : job.May c)
    (hjob : ∀ ticket name owner opts, job ≠ .connect ticket name owner opts)
    (hdone : ∀ result c, job ≠ .emitDone result (.discovery c)) : c.Works := by
  cases job with
  | connect ticket name owner opts => exact absurd rfl (hjob ticket name owner opts)
  | transmit => exact (Change.Sends.utters h).asks.works
  | settle => exact Change.Among.works (Change.Among.mono h rfl)
  | serveEnd =>
    rcases Change.Serves.eq_shut_or h with rfl | hreplies
    · trivial
    · exact hreplies.works
  | watch => cases h <;> first | rfl | exact trivial
  | emitDone result after =>
    cases after with
    | discovery c => exact absurd rfl (hdone result c)
    | _ => exact Change.Basic.works h
  | receive => exact Change.Answers.works h
  | hookDone verdict after =>
    cases after with
    | served => exact Change.Answers.works h
    | _ => exact Change.Basic.works h
  | work =>
    rcases Change.Takes.eq_dequeue_or h with rfl | hbasic
    · trivial
    · exact hbasic.works
  | _ => exact Change.Basic.works h

/-- How many tokens were given out by some time, and who held anything then. -/
structure Past where
  tokens : Nat
  holders : List Holder

namespace World

variable {w w' : World} {muted : Bool} {past : Past} {front : List Holder} {hd : Holder} {n : Nat}

/-- All sessions, those that outlived their components included. -/
def sessions (w : World) : List Session := w.owned.flatMap (·.2) ++ w.detached

/-- The connect requests that wait for the peer's API. -/
def waiting (w : World) : List Connecting := w.jobs.filterMap Job.connecting?

/-- Who holds anything: connect requests that wait, and sessions. -/
def holding (w : World) : List Holder :=
  w.waiting.map Connecting.holder ++ w.sessions.map Session.holder

theorem mem_holding_of_session {s : Session} (hs : s ∈ w.sessions) : s.holder ∈ w.holding :=
  List.mem_append_right _ (List.mem_map_of_mem hs)

theorem mem_holding_of_waiting {c : Connecting} (hc : c ∈ w.waiting) : c.holder ∈ w.holding :=
  List.mem_append_left _ (List.mem_map_of_mem hc)

theorem Woken.owned (h : Woken w w') : w'.owned = w.owned ∧ w'.detached = w.detached := by
  rw [h.eq]
  exact ⟨rfl, rfl⟩

theorem apply_owned (w : World) {ch : Change} (hch : ch.Still) :
    (w.apply ch).owned = w.owned ∧ (w.apply ch).detached = w.detached := by
  rw [(apply_woken w ch).owned.1, (apply_woken w ch).owned.2]
  by_cases hplants : ch.Plants
  · obtain ⟨_, _, _, _, _, _, heq⟩ := effect_plants w hplants
    rw [heq]
    exact ⟨rfl, rfl⟩
  · cases ch with
    | track => exact hch.elim
    | disown => exact hch.elim
    | outlive => exact hch.elim
    | disownAll => exact hch.elim
    | _ => first | exact ⟨rfl, rfl⟩ | exact absurd trivial hplants

/-- A request waits in its own task, so no new task makes one wait. -/
theorem apply_waiting (w : World) {ch : Change}
    (hch : ∀ job, ch = .spawn job → job.connecting? = none) :
    (w.apply ch).waiting.Perm w.waiting := by
  refine apply_pick w fun job hjob => ?_
  cases ch with
  | spawn new => exact Option.some.inj hjob ▸ hch new rfl
  | attachBack | attachWorker => rw [← Option.some.inj hjob]; rfl
  | _ => cases hjob

theorem onward_waiting (w : World) (e : Onward) :
    (w.onward e).waiting.Perm (e.job?.toList.filterMap Job.connecting? ++ w.waiting) :=
  onward_pick w e Job.connecting?

theorem apply_holding (w : World) {ch : Change} (hch : ch.Still) :
    (w.apply ch).holding.Perm w.holding := by
  have hwaiting : (w.apply ch).waiting.Perm w.waiting :=
    apply_waiting w (by rintro job rfl; exact hch)
  obtain ⟨howned, hdetached⟩ := apply_owned w hch
  unfold holding sessions
  rw [howned, hdetached]
  exact (hwaiting.map _).append_right _

/-- Whoever holds a token that was given out in the past held it then, and has what was held with
it; those named in front count with the others. -/
structure Heirs (past : Past) (front : List Holder) (w : World) : Prop where
  since : past.tokens ≤ w.tokens
  heir : ∀ hd ∈ front ++ w.holding, hd.token < past.tokens → ∃ old ∈ past.holders, old.Grows hd
  roster : (w.owned.map (·.1)).Nodup

namespace Heirs

theorem apply (h : Heirs past front w) {ch : Change} (hch : ch.Still) :
    Heirs past front (w.apply ch) where
  since := Nat.le_trans h.since (apply_tokens w ch).1
  heir hd hhd := h.heir hd (((apply_holding w hch).append_left front).subset hhd)
  roster := by
    rw [(apply_owned w hch).1]
    exact h.roster

theorem makes (h : Heirs past front w) (hmakes : Makes Change.Still w w') : Heirs past front w' :=
  hmakes.keeps (fun _ _ hch hw => hw.apply hch) h

theorem tail (h : Heirs past (hd :: front) w) : Heirs past front w where
  since := h.since
  heir hd' hhd' := h.heir hd' (List.mem_cons_of_mem _ hhd')
  roster := h.roster

end Heirs

/-- Changes that start no task for a request leave the waiting ones as they are. -/
theorem Makes.waiting {P : Change → Prop} (h : Makes P w w')
    (hP : ∀ job, P (.spawn job) → job.connecting? = none) : w'.waiting.Perm w.waiting := by
  induction h with
  | nothing => exact .refl _
  | more ch _ hch ih => exact (apply_waiting _ (by rintro job rfl; exact hP job hch)).trans ih

theorem Makes.sessions {P : Change → Prop} (h : Makes P w w') (hP : ∀ ch, P ch → ch.Still) :
    w'.sessions = w.sessions := by
  refine h.keeps (I := fun w' => w'.sessions = w.sessions) ?_ rfl
  intro w' ch hch hw
  obtain ⟨howned, hdetached⟩ := apply_owned w' (hP ch hch)
  rw [← hw, World.sessions, howned, hdetached]
  rfl

theorem Makes.holding (h : Makes Change.Still w w') : w'.holding.Perm w.holding := by
  induction h with
  | nothing => exact .refl _
  | more ch _ hch ih => exact (apply_holding _ hch).trans ih

/-- Nothing is held twice, by those named in front or by the others, and what is held on an open
connection is there, unless the application takes listeners off. -/
structure Orderly (muted : Bool) (past : Past) (front : List Holder) (w : World) : Prop extends
    Heirs past front w where
  held : Held (w.Lost muted) (front ++ w.holding) w

/-- No listener was taken off, so all that is held on an open connection is there. -/
abbrev Tidy := Orderly false

namespace Orderly

/-- What is now is the past of what comes. -/
theorem now (h : Orderly muted past front w) :
    Orderly muted ⟨w.tokens, front ++ w.holding⟩ front w :=
  ⟨⟨Nat.le_refl _, fun hd hhd _ => ⟨hd, hhd, .refl hd⟩, h.roster⟩, h.held⟩

/-- The holders stay, whatever becomes of what they hold. -/
theorem settle (h : Heirs past front w) (hmakes : Makes Change.Still w w')
    (hheld : Held (w'.Lost muted) (front ++ w.holding) w') : Orderly muted past front w' where
  toHeirs := h.makes hmakes
  held := hheld.perm (hmakes.holding.append_left front)

theorem makes {P : Change → Prop} (h : Orderly muted past front w) (hmakes : Makes P w w')
    (hP : ∀ ch, P ch → ch.Adds) : Orderly muted past front w' :=
  settle h.toHeirs (hmakes.mono fun ch hch => (hP ch hch).still)
    ((h.held.makes (hmakes.mono fun ch hch => (hP ch hch).spares)).renew hmakes h.held.opened)

/-- Holders may be named in front or not. -/
theorem regroup {front' : List Holder} (h : Orderly muted past front w)
    (hconnections : w'.connections = w.connections) (htokens : w'.tokens = w.tokens)
    (hcancelled : w'.cancelled = w.cancelled)
    (hperm : (front' ++ w'.holding).Perm (front ++ w.holding))
    (hroster : (w'.owned.map (·.1)).Nodup) : Orderly muted past front' w' where
  since := htokens ▸ h.since
  heir hd hhd := h.heir hd (hperm.subset hhd)
  roster := hroster
  held := by
    have hlost : w'.Lost muted = w.Lost muted := by
      funext n
      simp only [Lost, isConnected_congr hconnections]
    rw [hlost]
    exact (h.held.perm hperm).idle hconnections htokens hcancelled

theorem tail (h : Orderly muted past (hd :: front) w) : Orderly muted past front w where
  toHeirs := h.toHeirs.tail
  held := h.held.tail

/-! Attaching -/

variable {p : Pass} {S : Scope → Prop} {items : List Detach}

theorem first (h : Orderly muted past [hd] w) : Held (w.Lost muted) (hd :: w.holding) w := h.held

theorem opened (h : Orderly muted past [hd] w) : w.Opened hd.connection :=
  h.held.opened hd List.mem_cons_self

/-- What comes new with a change goes to the one in front. -/
theorem gain {ch : Change} (h : Orderly muted past [hd] w) (hch : ch.Adds) {item : Detach}
    (hnew : ¬ w.Given item) (hgiven : (w.apply ch).Given item) (hintact : (w.apply ch).Intact item)
    (hown : ∀ n id, item = .listener n id → n = hd.connection) :
    Orderly muted past [{ hd with attached := hd.attached ++ [item] }] (w.apply ch) := by
  have hgained := h.first.gain hch.spares hnew hgiven hintact hown
  have hopened : ∀ hd' ∈ { hd with attached := hd.attached ++ [item] } :: w.holding,
      w.Opened hd'.connection :=
    List.forall_mem_cons.2 (List.forall_mem_cons.1 h.held.opened)
  refine settle ⟨h.since, ?_, h.roster⟩ (.one ch hch.still) (hgained.renew (.one ch hch) hopened)
  obtain ⟨hfirst, hrest⟩ := List.forall_mem_cons.1 h.heir
  refine List.forall_mem_cons.2 ⟨?_, hrest⟩
  intro hold
  obtain ⟨old, hmem, hconnection, htoken, hattached⟩ := hfirst hold
  exact ⟨old, hmem, hconnection, htoken, List.Subset.trans hattached (List.subset_append_left _ _)⟩

/-- A new listener has a number of its own. -/
theorem hear {ch : Change} {c : Connection} {l : Listener Reaction} (h : Orderly muted past [hd] w)
    (hch : ch.Adds) (hc : w.connection? hd.connection = some c) (hid : l.id = c.listeners.next)
    (hlasts : l.once = false)
    (hreshape : (ch.reshape w hd.connection c).listeners =
      ⟨c.listeners.entries ++ [l], c.listeners.next + 1⟩) :
    Orderly muted past
      [{ hd with attached := hd.attached ++ [.listener hd.connection c.listeners.next] }]
      (w.apply ch) := by
  have hafter := connection?_apply hc ch
  refine h.gain hch ?_ ?_ ?_ ?_
  · rintro ⟨c', hc', hlt⟩
    obtain rfl : c = c' := Option.some.inj (hc.symm.trans hc')
    exact absurd hlt (Nat.lt_irrefl _)
  · exact ⟨_, hafter, by rw [hreshape]; exact Nat.lt_succ_self _⟩
  · exact ⟨_, l, hafter, by rw [hreshape]; simp, hid, hlasts⟩
  · intro n id heq
    exact (Detach.listener.inj heq).1.symm

/-- A pass holds what it attaches. -/
theorem attaches {held : List Detach} (h : Orderly muted past [p.holder held] w)
    (hattaches : Attaches p S held w items w') : Orderly muted past [p.holder items] w' := by
  induction hattaches with
  | nothing => exact h
  | quiet ch _ hch ih =>
    exact ih.makes (.one (P := Change.Basic) ch hch.basic) fun _ hc => hc.adds
  | claim b _ _ ih => exact ih.makes (.one (P := Change.Adds) _ trivial) fun _ hc => hc
  | @hear _ _ _ event action _ _ hc ih =>
    refine ih.hear (l := ⟨_, event, action, false⟩) trivial hc rfl rfl ?_
    simp [Change.reshape, Listeners.add, Pass.holder]
  | @employ _ w' _ worker _ _ hc ih =>
    refine ih.hear
      (l := ⟨_, worker.event, .enqueue w'.workers.length worker.token, false⟩) trivial hc
      rfl rfl ?_
    simp [Change.reshape, Listeners.add, Pass.holder]
  | send back path _ ih =>
    have hadds : (Change.attachBack back path).Adds := trivial
    refine ih.gain hadds (Nat.lt_irrefl _) ?_ ?_ ?_
    · simp [Given, apply, spawn, newToken]
    · exact ih.held.next_intact.apply trivial
    · intro n id heq
      cases heq

/-! Undoing -/

theorem failConnect {c : Connecting} (h : Orderly muted past [c.holder] w) (error : EngineError) :
    Orderly muted past [] (w.failConnect c error) := by
  have hmakes := failConnect_makes w c error
  refine settle h.tail.toHeirs (hmakes.mono fun _ hc => hc.still) ?_
  have hheld : Held (w.Lost muted) (c.holder :: w.holding) w := h.held
  have hundone : Held (w.Lost muted) w.holding (w.undo c) := hheld.release rfl
  have hrenewed := hundone.renew (undo_makes w c) h.tail.held.opened
  have hreport (w' : World) (hw' : Held (w'.Lost muted) w.holding w') :
      Held ((w'.apply (.report c.ticket (.failed error))).Lost muted) w.holding
        (w'.apply (.report c.ticket (.failed error))) :=
    Held.renew (P := Change.Basic) (hw'.idle rfl rfl rfl) (.one (.report _ _) trivial) hw'.opened
  cases hreused : c.reused with
  | true =>
    rw [failConnect_of_reused w hreused]
    exact hreport _ hrenewed
  | false =>
    rw [failConnect_of_fresh w hreused]
    exact hreport _ (hrenewed.discard _)

/-- A session that ends takes along what it holds and what is on its connection. -/
theorem closeSession {s : Session} (h : Orderly muted past (s.holder :: front) w) :
    Orderly muted past front (w.closeSession s) := by
  have hrest := h.tail
  refine settle hrest.toHeirs ((closeSession_makes w s).mono fun _ hc => hc.still) ?_
  have hhers {item : Detach} (hitem : item ∈ s.holder.items) :=
    And.intro (h.held.given s.holder List.mem_cons_self item hitem) (h.held.apart hitem)
  obtain ⟨hgiven, hfree⟩ := hhers (show .token s.token ∈ s.holder.items from List.mem_cons_self)
  have hcancelled := hrest.held.cancel hgiven hfree
  have hundone : Held (w.Lost muted) (front ++ w.holding)
      ((w.cancel s.token).detachAll s.subscriptions) := by
    refine hcancelled.detachAll ?_
    intro item hitem
    obtain ⟨hgiven, hfree⟩ := hhers (List.mem_cons_of_mem _ hitem)
    exact ⟨hgiven.apply (.cancel s.token), hfree⟩
  have hundo : Makes Change.Detaches w ((w.cancel s.token).detachAll s.subscriptions) :=
    (Makes.one (.cancel s.token) trivial).trans
      ((detachAll_makes _ _).mono fun _ hc => hc.detaches)
  exact (hundone.renew hundo hrest.held.opened).discard _

end Orderly

/-! Sessions come and go -/

section Roster

variable {l : List (ComponentId × List Session)} {owner : ComponentId}

theorem not_mem_roster (h : l.lookup owner = none) : owner ∉ l.map (·.1) := by
  intro hmem
  obtain ⟨entry, hentry, rfl⟩ := List.mem_map.1 hmem
  exact absurd (List.lookup_eq_none_iff.1 h entry hentry) (by simp)

/-- A component that has sessions gets another. -/
theorem flatMap_roster_add (hroster : (l.map (·.1)).Nodup) (h : l.lookup owner ≠ none)
    (s : Session) :
    ((l.map fun (o, sessions) => if o = owner then (o, sessions ++ [s]) else (o, sessions)).flatMap
      (·.2)).Perm (s :: l.flatMap (·.2)) := by
  induction l with
  | nil => exact absurd rfl h
  | cons first rest ih =>
    obtain ⟨o, sessions⟩ := first
    obtain ⟨hfirst, hrest⟩ := List.nodup_cons.1 hroster
    by_cases ho : o = owner
    · subst ho
      have hsame : rest.map (fun (o', sessions') =>
          if o' = o then (o', sessions' ++ [s]) else (o', sessions')) = rest := by
        refine (List.map_congr_left ?_).trans (List.map_id rest)
        intro entry hentry
        have hne : entry.1 ≠ o := fun heq => hfirst (heq ▸ List.mem_map_of_mem (f := (·.1)) hentry)
        exact if_neg hne
      simp only [List.map_cons, ↓reduceIte, hsame, List.flatMap_cons]
      exact (List.perm_append_singleton s sessions).append_right _
    · have hlookup : rest.lookup owner ≠ none := by
        rwa [List.lookup_cons, beq_false_of_ne (Ne.symm ho)] at h
      simp only [List.map_cons, if_neg ho, List.flatMap_cons]
      exact ((ih hrest hlookup).append_left sessions).trans List.perm_middle

/-- The sessions of one component and those of the others. -/
theorem flatMap_roster_split (hroster : (l.map (·.1)).Nodup) (owner : ComponentId) :
    ((l.lookup owner).getD [] ++ (l.filter (·.1 != owner)).flatMap (·.2)).Perm
      (l.flatMap (·.2)) := by
  induction l with
  | nil => exact .refl _
  | cons first rest ih =>
    obtain ⟨o, sessions⟩ := first
    obtain ⟨hfirst, hrest⟩ := List.nodup_cons.1 hroster
    by_cases ho : o = owner
    · subst ho
      have hsame : rest.filter (·.1 != o) = rest := by
        refine List.filter_eq_self.2 ?_
        intro entry hentry
        exact bne_iff_ne.2 fun heq => hfirst (heq ▸ List.mem_map_of_mem (f := (·.1)) hentry)
      simp [hsame]
    · have hother : (owner == o) = false := beq_false_of_ne (Ne.symm ho)
      simp only [List.lookup_cons, hother, List.filter_cons, bne_iff_ne, ne_eq, ho,
        not_false_eq_true, ↓reduceIte, List.flatMap_cons]
      refine List.Perm.trans ?_ ((ih hrest).append_left sessions)
      rw [← List.append_assoc, ← List.append_assoc]
      exact List.perm_append_comm.append_right _

end Roster

theorem track_eq (w : World) (s : Session) : ∃ owned, w.track s = { w with owned } := by
  unfold track
  split <;> exact ⟨_, rfl⟩

/-- A new session joins the others. -/
theorem track_sessions (hroster : (w.owned.map (·.1)).Nodup) (s : Session) :
    (w.track s).sessions.Perm (s :: w.sessions) ∧ ((w.track s).owned.map (·.1)).Nodup := by
  unfold track
  split
  · rename_i hnone
    have hnew : s.owner ∉ w.owned.map (·.1) := not_mem_roster (Option.isNone_iff_eq_none.1 hnone)
    constructor
    · simp only [sessions, List.flatMap_append, List.flatMap_cons, List.flatMap_nil,
        List.append_nil]
      exact (List.perm_append_singleton s _).append_right _
    · rw [List.map_append, List.nodup_append]
      refine ⟨hroster, by simp, ?_⟩
      intro a ha b hb heq
      have howner : a = s.owner := heq.trans (List.mem_singleton.1 hb)
      exact hnew (howner ▸ ha)
  · rename_i hsome
    have hlookup : w.owned.lookup s.owner ≠ none := fun hnone => hsome (by rw [hnone]; rfl)
    constructor
    · exact (flatMap_roster_add hroster hlookup s).append_right _
    · rw [List.map_map]
      have hkeys : (fun entry : ComponentId × List Session => entry.1) ∘ (fun (o, sessions) =>
          if o = s.owner then (o, sessions ++ [s]) else (o, sessions)) = (·.1) := by
        funext entry
        simp only [Function.comp]
        split <;> rfl
      rwa [hkeys]

theorem outlive_sessions (w : World) (s : Session) :
    (w.apply (.outlive s)).sessions.Perm (s :: w.sessions) := by
  simp only [sessions, apply]
  rw [← List.append_assoc]
  exact List.perm_append_singleton _ _

theorem disown_sessions (hroster : (w.owned.map (·.1)).Nodup) (owner : ComponentId) :
    (w.sessionsOf owner ++ (w.apply (.disown owner)).sessions).Perm w.sessions := by
  have hsplit := flatMap_roster_split hroster owner
  rw [sessions, ← List.append_assoc]
  exact hsplit.append_right _

/-- Sessions end one after the other. -/
theorem foldl_ends {α β : Type} {f : α → Session → α} {g : Session → β} {I : List β → α → Prop}
    (hf : ∀ acc s front, I (g s :: front) acc → I front (f acc s)) (ended : List Session) (acc : α)
    (h : I (ended.map g) acc) : I [] (ended.foldl f acc) := by
  induction ended generalizing acc with
  | nil => exact h
  | cons s rest ih => exact ih _ (hf acc s _ h)

namespace Orderly

/-- A request that is done goes on as a session. -/
theorem track {s : Session} (h : Orderly muted past [s.holder] w) :
    Orderly muted past [] (w.apply (.track s)) := by
  obtain ⟨hsessions, hroster⟩ := track_sessions h.roster s
  simp only [apply]
  obtain ⟨owned, heq⟩ := track_eq w s
  rw [heq] at hsessions hroster ⊢
  exact h.regroup rfl rfl rfl (((hsessions.map _).append_left _).trans List.perm_middle) hroster

/-- A session may outlive its component. -/
theorem outlive {s : Session} (h : Orderly muted past (s.holder :: front) w) :
    Orderly muted past front (w.apply (.outlive s)) := by
  refine h.regroup rfl rfl rfl ?_ h.roster
  have hholding : (w.apply (.outlive s)).holding.Perm (s.holder :: w.holding) :=
    (((outlive_sessions w s).map _).append_left _).trans List.perm_middle
  exact (hholding.append_left front).trans List.perm_middle

theorem disown (h : Orderly muted past [] w) (owner : ComponentId) :
    Orderly muted past ((w.sessionsOf owner).map Session.holder) (w.apply (.disown owner)) := by
  refine h.regroup rfl rfl rfl ?_ ((List.filter_sublist.map _).nodup h.roster)
  have hsessions := (disown_sessions h.roster owner).map Session.holder
  rw [List.map_append] at hsessions
  have hmoved : ((w.sessionsOf owner).map Session.holder ++ (w.apply (.disown owner)).holding).Perm
      (w.waiting.map Connecting.holder ++
        ((w.sessionsOf owner).map Session.holder ++
          (w.apply (.disown owner)).sessions.map Session.holder)) := by
    unfold holding
    rw [← List.append_assoc, ← List.append_assoc]
    exact List.perm_append_comm.append_right _
  exact hmoved.trans (hsessions.append_left _)

theorem disownAll (h : Orderly muted past [] w) :
    Orderly muted past (w.sessions.map Session.holder) (w.apply .disownAll) := by
  refine h.regroup rfl rfl rfl ?_ List.nodup_nil
  have hnone : (w.apply .disownAll).holding = w.waiting.map Connecting.holder := by
    simp [holding, waiting, sessions, apply, jobs, tasks]
  rw [hnone]
  exact List.perm_append_comm

/-- The component's sessions are closed, or outlive it. -/
theorem teardown (h : Orderly muted past [] w) (owner : ComponentId) :
    Orderly muted past [] (w.teardown owner).1 := by
  unfold World.teardown
  refine foldl_ends (I := fun front (acc : World × Nat) => Orderly muted past front acc.1) ?_ _ _
    (h.disown owner)
  intro acc s front hacc
  dsimp only
  split
  · exact hacc.closeSession
  · exact hacc.outlive

theorem shutdown (h : Orderly muted past [] w) : Orderly muted past [] w.shutdown :=
  foldl_ends (fun _ _ _ hacc => hacc.closeSession) _ _ h.disownAll

/-! Connect requests -/

variable {c : Connecting}

/-- A request begins with a token of its own. -/
theorem enter (h : Orderly muted past [] w) (hopened : w.Opened n) (r : Resolved) :
    Orderly muted past [⟨n, w.tokens, []⟩] (w.enter r) := by
  have htimed := h.makes (P := Change.Enters)
    (.one (.setTimeout r.scope r.emitTimeout) trivial) fun _ hc => hc.adds
  have hentered : Held ((w.apply (.setTimeout r.scope r.emitTimeout)).Lost muted)
      (⟨n, w.tokens, []⟩ :: (w.apply (.setTimeout r.scope r.emitTimeout)).holding) (w.enter r) :=
    htimed.held.enter (hopened.apply _)
  have hmakes : Makes Change.Adds (w.apply (.setTimeout r.scope r.emitTimeout)) (w.enter r) :=
    .one .newToken trivial
  refine settle ⟨htimed.since, ?_, htimed.roster⟩ (hmakes.mono fun _ hc => hc.still)
    (hentered.renew hmakes ?_)
  · refine List.forall_mem_cons.2 ⟨?_, htimed.heir⟩
    intro hold
    exact absurd h.since (Nat.not_le_of_lt hold)
  · exact List.forall_mem_cons.2 ⟨hopened.apply _, htimed.held.opened⟩

theorem finishConnect (h : Orderly muted past [c.holder] w) (api : Option ServerApi) :
    Orderly muted past [] (w.finishConnect c api) := by
  obtain ⟨handle, hfinished⟩ := finishConnect_eq w c api
  have hsession : Orderly muted past [(c.session (w.bindOwnApi c).2).holder] (w.bindOwnApi c).1 :=
    h.attaches (S := fun _ => True) (.bindOwnApi (.nothing h.opened) trivial)
  rw [hfinished]
  exact hsession.track.makes (P := Change.Basic)
    (.more (.report _ _) (.one (.insertHandle _ _) trivial) trivial) fun _ hc => hc.adds

theorem discovered (h : Orderly muted past [c.holder] w) (answer : Json) :
    Orderly muted past [] (w.discovered c answer) := by
  rcases discovered_cases w c answer with ⟨error, hfailed⟩ | ⟨d, -, hfinished⟩
  · rw [hfailed]
    exact h.failConnect _
  · rw [hfinished]
    have hstart : Attaches c.pass (fun _ => True) c.wired.items w c.wired.items w :=
      .nothing h.opened
    exact (h.attaches (hstart.bindServerApi trivial c.resolved.ignoredEvents d)).finishConnect _

theorem askOrFinish (h : Orderly muted past [c.holder] w) :
    Orderly muted past [] (w.askOrFinish c) := by
  unfold World.askOrFinish
  split
  · exact h.finishConnect none
  · exact h.regroup rfl rfl rfl (.refl _) h.roster

theorem startConnect (h : Orderly muted past [] w) (ticket : Nat) (name : String)
    (owner : ComponentId)
    (opts : ConnectOptions) : Orderly muted past [] (w.startConnect ticket name owner opts) := by
  rcases startConnect_cases w ticket name owner opts with
    hnone | ⟨acquired, r, c, mid, hacquired, hopened, htoken, -, hattaches, hends⟩
  · exact h.makes hnone fun _ hc => hc.acquires.adds
  · have hentered := (h.makes hacquired fun _ hc => hc.adds).enter hopened r
    rw [← htoken] at hentered
    have hwired : Orderly muted past [c.holder] mid := hentered.attaches hattaches
    rcases hends with ⟨error, heq⟩ | heq
    · rw [heq]
      exact hwired.failConnect error
    · rw [heq]
      exact hwired.askOrFinish

end Orderly

end World

end Patchbay
