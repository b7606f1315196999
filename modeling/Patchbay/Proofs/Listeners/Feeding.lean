import Patchbay.Proofs.Engine.Workers
import Patchbay.Proofs.Sessions.FailedConnect

/-!
A worker and the listener that feeds it. No other listener feeds the worker, the listener stays
until it is taken off, and as long as it is there the worker counts as fed.
-/

namespace Patchbay

/-- A listener that feeds a worker comes with that worker, and in no other way. -/
def Change.Honest : Change → Prop
  | .listen _ _ (.enqueue ..) _ => False
  | .attachWorker worker _ => worker.Starts
  | _ => True

namespace Change

variable {c : Change}

theorem Among.honest (h : c.Among (Kind.but [.feed, .attachWorker])) : c.Honest := by
  cases c with
  | listen serial event action once => cases action <;> first | exact trivial | exact h.elim
  | _ => first | exact trivial | exact h.elim

theorem Binds.honest (h : c.Binds) : c.Honest := Among.honest (h.mono rfl)

theorem Connects.honest (h : c.Connects) : c.Honest := by
  rcases h with h | h | h | h
  · exact Among.honest (h.mono rfl)
  · exact Among.honest (h.mono rfl)
  · cases c with
    | attachWorker => exact h
    | attachBack => trivial
    | _ => exact Binds.honest h
  · exact Among.honest (h.mono rfl)

theorem Asks.honest (h : c.Asks) : c.Honest := Among.honest (h.among.mono rfl)

theorem Replies.honest (h : c.Replies) : c.Honest := Among.honest (h.among.mono rfl)

theorem Commands.honest (h : c.Commands) : c.Honest := Among.honest (h.among.mono rfl)

end Change

theorem Job.May.honest {job : Job} {c : Change} (h : job.May c) : c.Honest := by
  cases job with
  | connect => exact Change.Connects.honest h
  | _ => exact Change.Among.honest ((h.among_of_ne_connect (by simp)).mono rfl)

namespace World

variable {w w' w₀ : World} {ch : Change} {i n : Nat}

/-! Who listens after a change -/

theorem listenersOn_reshape (hdial : ∀ url name, ch ≠ .dial url name) (n : Nat) :
    (w.apply ch).listenersOn n =
      ((w.connection? n).map fun c => (ch.reshape w n c).listeners.entries).getD [] := by
  unfold listenersOn
  rw [connection?_apply_of_ne hdial, Option.map_map]
  rfl

theorem listenersOn_spend (w : World) (serial : Nat) (event : String) (n : Nat) :
    (w.apply (.spend serial event)).listenersOn n =
      if n = serial then (w.listenersOn n).filter fun l => !(l.once && l.event == event)
      else w.listenersOn n := by
  rw [listenersOn_reshape (by simp)]
  unfold listenersOn
  cases w.connection? n with
  | none => simp
  | some c =>
    simp only [Option.map_some, Option.getD_some, Change.reshape, Listeners.deliver]
    split <;> rfl

/-- Nobody but this listener may have joined, as the newest of its connection. -/
def Joined (serial : Nat) (event : String) (action : Reaction) (once : Bool)
    (w w' : World) : Prop :=
  ∀ n, w'.listenersOn n = w.listenersOn n ∨
    n = serial ∧ ∃ id, w'.listenersOn n = w.listenersOn n ++ [⟨id, event, action, once⟩]

theorem joined_listen (w : World) (serial : Nat) (event : String) (action : Reaction)
    (once : Bool) :
    Joined serial event action once w (w.apply (.listen serial event action once)) := by
  intro n
  rw [listenersOn_reshape (by simp)]
  unfold listenersOn
  cases w.connection? n with
  | none => exact .inl rfl
  | some c =>
    simp only [Option.map_some, Option.getD_some, Change.reshape]
    split
    · rename_i hn
      exact .inr ⟨hn, _, rfl⟩
    · exact .inl rfl

theorem joined_attach (w : World) (worker : Worker) (serial : Nat) :
    Joined serial worker.event (.enqueue w.workers.length worker.token) false w
      (w.apply (.attachWorker worker serial)) := by
  intro n
  rw [listenersOn_reshape (by simp)]
  unfold listenersOn
  cases w.connection? n with
  | none => exact .inl rfl
  | some c =>
    simp only [Option.map_some, Option.getD_some, Change.reshape]
    split
    · rename_i hn
      exact .inr ⟨hn, _, rfl⟩
    · exact .inl rfl

theorem Joined.mem {serial : Nat} {event : String} {action : Reaction} {once : Bool}
    (h : Joined serial event action once w w') {l : Listener Reaction} (hl : l ∈ w'.listenersOn n) :
    l ∈ w.listenersOn n ∨ n = serial ∧ ∃ id, l = ⟨id, event, action, once⟩ := by
  rcases h n with hsame | ⟨hn, id, hnew⟩
  · exact .inl (hsame ▸ hl)
  · rw [hnew] at hl
    rcases List.mem_append.1 hl with hl | hl
    · exact .inl hl
    · exact .inr ⟨hn, id, List.mem_singleton.1 hl⟩

/-- Only with a new worker comes a listener that feeds it. -/
theorem feeder_of_apply (hch : ch.Honest) {l : Listener Reaction}
    (hl : l ∈ (w.apply ch).listenersOn n) (hfeeds : l.action.feeds i = true) :
    l ∈ w.listenersOn n ∨ ∃ worker serial, ch = .attachWorker worker serial ∧
      w.workers.length = i := by
  cases ch with
  | listen serial event action once =>
    rcases (joined_listen w serial event action once).mem hl with hold | ⟨-, id, rfl⟩
    · exact .inl hold
    · cases action <;> first | exact hch.elim | cases hfeeds
  | attachWorker worker serial =>
    rcases (joined_attach w worker serial).mem hl with hold | ⟨-, id, rfl⟩
    · exact .inl hold
    · exact .inr ⟨worker, serial, rfl, by simpa [Reaction.feeds] using hfeeds⟩
  | hush serial out =>
    rw [listenersOn_hush] at hl
    split at hl
    · exact .inl (List.mem_filter.1 hl).1
    · exact .inl hl
  | spend serial event =>
    rw [listenersOn_spend] at hl
    split at hl
    · exact .inl (List.mem_filter.1 hl).1
    · exact .inl hl
  | _ =>
    rw [listenersOn_apply id] at hl
    exact .inl hl

/-! The listener of a worker -/

/-- The worker has at most one listener. It is there until it is taken off, and puts its event into
the queue of the worker that knows of it. -/
structure Fed (i : Nat) (w : World) : Prop where
  one : ∀ n, (w.listenersOn n).countP (·.action.feeds i) ≤ 1
  home : ∀ n m, (∃ l ∈ w.listenersOn n, l.action.feeds i = true) →
    (∃ l ∈ w.listenersOn m, l.action.feeds i = true) → n = m
  loyal : ∀ n, ∀ l ∈ w.listenersOn n, l.action.feeds i = true → l.once = false ∧
    ∃ x, w.workers[i]? = some x ∧ x.fed = true ∧ l.event = x.event ∧ l.action = .enqueue i x.token

namespace Fed

/-- Listeners may go, if the worker stays fed while its own is there. -/
theorem fewer (h : Fed i w) (hfewer : ∀ n, (w'.listenersOn n).Sublist (w.listenersOn n))
    (hworker : ∀ n, ∀ l ∈ w'.listenersOn n, l.action.feeds i = true → ∀ x, w.workers[i]? = some x →
      x.fed = true → ∃ queue, w'.workers[i]? = some { x with queue }) : Fed i w' where
  one n := Nat.le_trans ((hfewer n).countP_le) (h.one n)
  home n m hn hm := by
    obtain ⟨l, hl, hfeeds⟩ := hn
    obtain ⟨l', hl', hfeeds'⟩ := hm
    exact h.home n m ⟨l, (hfewer n).subset hl, hfeeds⟩ ⟨l', (hfewer m).subset hl', hfeeds'⟩
  loyal n l hl hfeeds := by
    obtain ⟨honce, x, hx, hfed, hrest⟩ := h.loyal n l ((hfewer n).subset hl) hfeeds
    obtain ⟨queue, hqueue⟩ := hworker n l hl hfeeds x hx hfed
    exact ⟨honce, _, hqueue, hfed, hrest⟩

/-- A listener that feeds another worker, or none, may come. -/
theorem joined (h : Fed i w) {serial : Nat} {event : String} {action : Reaction} {once : Bool}
    (hjoined : Joined serial event action once w w') (hother : action.feeds i = false)
    (hworker : ∀ x, w.workers[i]? = some x → w'.workers[i]? = some x) : Fed i w' := by
  have hearlier {n : Nat} {l : Listener Reaction} (hl : l ∈ w'.listenersOn n)
      (hfeeds : l.action.feeds i = true) : l ∈ w.listenersOn n := by
    rcases hjoined.mem hl with hold | ⟨-, id, rfl⟩
    · exact hold
    · rw [hother] at hfeeds
      cases hfeeds
  refine ⟨?_, ?_, ?_⟩
  · intro n
    rcases hjoined n with hsame | ⟨-, id, hnew⟩
    · rw [hsame]
      exact h.one n
    · rw [hnew, List.countP_append]
      simpa [hother] using h.one n
  · rintro n m ⟨l, hl, hfeeds⟩ ⟨l', hl', hfeeds'⟩
    exact h.home n m ⟨l, hearlier hl hfeeds, hfeeds⟩ ⟨l', hearlier hl' hfeeds', hfeeds'⟩
  · intro n l hl hfeeds
    obtain ⟨honce, x, hx, hrest⟩ := h.loyal n l (hearlier hl hfeeds) hfeeds
    exact ⟨honce, x, hworker x hx, hrest⟩

/-- Before the worker is there nothing feeds it. -/
theorem unheard (h : Fed i w) (hnone : w.workers[i]? = none) {n : Nat} {l : Listener Reaction}
    (hl : l ∈ w.listenersOn n) : l.action.feeds i = false := by
  refine Bool.eq_false_iff.2 fun hfeeds => ?_
  obtain ⟨-, x, hx, -⟩ := h.loyal n l hl hfeeds
  rw [hnone] at hx
  cases hx

/-- The first listener of a worker comes with it. -/
theorem attach (h : Fed w.workers.length w) {worker : Worker} (hstarts : worker.Starts)
    (serial : Nat) :
    Fed w.workers.length (w.apply (.attachWorker worker serial)) := by
  have hjoined := joined_attach w worker serial
  have hunheard {n : Nat} {l : Listener Reaction} (hl : l ∈ w.listenersOn n) :
      l.action.feeds w.workers.length = false :=
    h.unheard (List.getElem?_eq_none (Nat.le_refl _)) hl
  have hnewest {n : Nat} {l : Listener Reaction}
      (hl : l ∈ (w.apply (.attachWorker worker serial)).listenersOn n)
      (hfeeds : l.action.feeds w.workers.length = true) : n = serial ∧
        ∃ id, l = ⟨id, worker.event, .enqueue w.workers.length worker.token, false⟩ := by
    rcases hjoined.mem hl with hold | hnew
    · rw [hunheard hold] at hfeeds
      cases hfeeds
    · exact hnew
  refine ⟨?_, ?_, ?_⟩
  · intro n
    have hnone : (w.listenersOn n).countP (·.action.feeds w.workers.length) = 0 :=
      List.countP_eq_zero.2 fun l hl => Bool.eq_false_iff.1 (hunheard hl)
    rcases hjoined n with hsame | ⟨-, id, hnew⟩
    · rw [hsame, hnone]
      exact Nat.zero_le 1
    · rw [hnew, List.countP_append, hnone, Nat.zero_add]
      exact List.countP_le_length
  · rintro n m ⟨l, hl, hfeeds⟩ ⟨l', hl', hfeeds'⟩
    rw [(hnewest hl hfeeds).1, (hnewest hl' hfeeds').1]
  · intro n l hl hfeeds
    obtain ⟨-, id, rfl⟩ := hnewest hl hfeeds
    exact ⟨rfl, worker, worker_attach w worker serial, hstarts.2, rfl, rfl⟩

/-- A listener that is left was not the one that is gone. -/
theorem spared (h : Fed i w) {out : Listener Reaction → Bool} {serial n : Nat}
    {l : Listener Reaction}
    (hl : l ∈ (w.apply (.hush serial out)).listenersOn n) (hfeeds : l.action.feeds i = true) :
    (((w.listenersOn serial).filter out).map (·.action)).any (·.feeds i) = false := by
  refine Bool.eq_false_iff.2 fun hgone => ?_
  obtain ⟨action, haction, hfeeds'⟩ := List.any_eq_true.1 hgone
  obtain ⟨l', hl', rfl⟩ := List.mem_map.1 haction
  rw [listenersOn_hush] at hl
  have hserial : n = serial := by
    refine h.home n serial ⟨l, ?_, hfeeds⟩ ⟨l', (List.mem_filter.1 hl').1, hfeeds'⟩
    split at hl
    · exact (List.mem_filter.1 hl).1
    · exact hl
  subst hserial
  rw [if_pos rfl] at hl
  have hsplit := (w.listenersOn n).countP_eq_countP_filter_add (·.action.feeds i) out
  have hone : 0 < ((w.listenersOn n).filter out).countP (·.action.feeds i) :=
    List.countP_pos_iff.2 ⟨l', hl', hfeeds'⟩
  have hother : 0 < ((w.listenersOn n).filter (!out ·)).countP (·.action.feeds i) :=
    List.countP_pos_iff.2 ⟨l, hl, hfeeds⟩
  have := h.one n
  omega

theorem untuned (h : Fed i w) (hch : ¬ ch.Tunes) : Fed i (w.apply ch) := by
  have hhush : ∀ serial out, ch ≠ .hush serial out := by
    rintro serial out rfl
    exact hch trivial
  refine h.fewer (fun n => ?_) fun n l hl hfeeds x hx hfed => ⟨(ch.reworks w i x).queue, ?_⟩
  · exact (listenersOn_apply hch n).symm ▸ List.Sublist.refl _
  · rw [worker_apply hx, ← Change.reworks_of_ne_hush hhush]

theorem apply (h : Fed i w) (hch : ch.Honest) : Fed i (w.apply ch) := by
  cases ch with
  | listen serial event action once =>
    refine h.joined (joined_listen w serial event action once) ?_ fun x hx => worker_apply hx _
    cases action <;> first | rfl | exact hch.elim
  | attachWorker worker serial =>
    by_cases hnew : w.workers.length = i
    · subst hnew
      exact h.attach hch serial
    · refine h.joined (joined_attach w worker serial) ?_ fun x hx => worker_apply hx _
      simpa [Reaction.feeds] using hnew
  | spend serial event =>
    refine h.fewer (fun n => ?_) fun _ _ _ _ x hx _ => ⟨x.queue, worker_apply hx _⟩
    rw [listenersOn_spend]
    split
    · exact List.filter_sublist
    · exact List.Sublist.refl _
  | hush serial out =>
    refine h.fewer (fun n => ?_) fun n l hl hfeeds x hx hfed => ⟨x.queue, ?_⟩
    · rw [listenersOn_hush]
      split
      · exact List.filter_sublist
      · exact List.Sublist.refl _
    · rw [worker_apply hx]
      simp only [Change.reworks, h.spared hl hfeeds, hfed]
      rfl
  | _ => exact h.untuned id

theorem makes {P : Change → Prop} (h : Fed i w) (hmakes : Makes P w w') (hP : ∀ c, P c → c.Honest) :
    Fed i w' :=
  hmakes.keeps (I := Fed i) (fun _ ch hch hw => hw.apply (hP ch hch)) h

theorem onward (h : Fed i w) (e : Onward) : Fed i (w.onward e) := by
  cases e <;> exact ⟨h.one, h.home, h.loyal⟩

theorem exec (h : Fed i w) (job : Job) : Fed i (w.exec job) := by
  obtain ⟨mid, e, hmid, -, heq⟩ := exec_does w job
  rw [← heq]
  exact (h.makes hmid fun _ hc => hc.honest).onward e

theorem perform (h : Fed i w) (ticket : Nat) {c : Command} (hc : ∀ ms, c ≠ .wait ms) :
    Fed i (w.perform ticket c).1 :=
  h.makes (perform_makes w ticket hc) fun _ hc => hc.honest

end Fed

theorem Fresh.fed (h : w.Fresh) (i : Nat) : Fed i w := by
  have hnobody (n : Nat) : w.listenersOn n = [] := by
    simp [listenersOn, connection?, h.connections]
  refine ⟨fun n => ?_, fun n m hn => ?_, fun n l hl => ?_⟩
  · rw [hnobody]
    exact Nat.zero_le 1
  · obtain ⟨l, hl, -⟩ := hn
    rw [hnobody] at hl
    cases hl
  · rw [hnobody] at hl
    cases hl

theorem Run.fed {log : List Moment} (h : Run w₀ log w) (h₀ : Fed i w₀) : Fed i w := by
  induction h with
  | start => exact h₀
  | @step log w task rest _ _ ih =>
    have hbegun : Fed i (w.begin task rest) := ⟨ih.one, ih.home, ih.loyal⟩
    exact hbegun.exec task.job
  | command _ ticket hc ih => exact ih.perform ticket hc
  | pass _ _ ih => exact ⟨ih.one, ih.home, ih.loyal⟩
  | wake _ ih => exact ⟨ih.one, ih.home, ih.loyal⟩

end World

end Patchbay
