import Patchbay.Proofs.Sessions.StoreWiring
import Patchbay.Proofs.Sessions.Waiting

/-!
A connect request on a kept connection that fails. What it attached is taken off again, so all
connections are left with the listeners they had; what it registered stays, since a registration
goes with its connection only.
-/

namespace Patchbay

/-- A change of who listens. -/
def Change.Tunes : Change → Prop
  | .listen .. | .hush .. | .spend .. | .attachWorker .. => True
  | _ => False

namespace Change

variable {ch : Change}

theorem Among.not_tunes
    (h : ch.Among (Kind.but [.listen, .await, .feed, .hush, .spend, .attachWorker])) :
    ¬ ch.Tunes := by
  cases ch with
  | listen serial event action once => cases action <;> exact h.elim
  | _ => first | exact id | exact h.elim

theorem Quiet.not_tunes (h : ch.Quiet) : ¬ ch.Tunes := Among.not_tunes (h.mono rfl)

theorem Stirs.not_tunes (h : ch.Stirs) : ¬ ch.Tunes := Among.not_tunes (h.mono rfl)

theorem entries_reshape (w : World) (n : Nat) (c : Connection) (h : ¬ ch.Tunes) :
    (ch.reshape w n c).listeners.entries = c.listeners.entries := by
  cases ch <;> simp only [reshape] <;> first | rfl | exact absurd trivial h | (split <;> rfl)

end Change

namespace World

variable {w w' : World} {n : Nat} {ch : Change}

/-! Who listens -/

theorem listenersOn_apply (h : ¬ ch.Tunes) (n : Nat) :
    (w.apply ch).listenersOn n = w.listenersOn n := by
  cases hc : w.connection? n with
  | some c =>
    rw [listenersOn_of_connection? (connection?_apply hc ch), listenersOn_of_connection? hc,
      Change.entries_reshape w n c h]
  | none =>
    cases hnew : (w.apply ch).connection? n with
    | none => simp only [listenersOn, hc, hnew]
    | some c =>
      rcases connection?_of_apply hnew with ⟨c', hc', -⟩ | ⟨-, hempty, -⟩
      · rw [hc] at hc'
        cases hc'
      · rw [listenersOn_of_connection? hnew, hempty]
        simp only [listenersOn, hc]
        rfl

theorem Makes.listenersOn {P : Change → Prop} (h : Makes P w w') (hP : ∀ ch, P ch → ¬ ch.Tunes)
    (n : Nat) : w'.listenersOn n = w.listenersOn n :=
  h.keeps (I := fun w' => w'.listenersOn n = w.listenersOn n)
    (fun _ ch hch hw => (listenersOn_apply (hP ch hch) n).trans hw) rfl

/-- A new listener is the last of its connection. -/
theorem listenersOn_hear {serial : Nat} {c : Connection} {l : Listener Reaction}
    (hc : w.connection? serial = some c) (hdial : ∀ url name, ch ≠ .dial url name)
    (hown : (ch.reshape w serial c).listeners.entries = c.listeners.entries ++ [l])
    (hother : ∀ n ≠ serial, ch.reshape w n = id) (n : Nat) :
    (w.apply ch).listenersOn n = w.listenersOn n ++ if n = serial then [l] else [] := by
  by_cases hn : n = serial
  · subst hn
    rw [listenersOn_of_connection? (connection?_apply hc ch), listenersOn_of_connection? hc, hown,
      if_pos rfl]
  · unfold listenersOn
    rw [connection?_apply_of_ne hdial, hother n hn, Option.map_id_fun, if_neg hn, List.append_nil]
    rfl

/-- Who is made to listen on an open connection. -/
theorem listenersOn_listen {serial : Nat} {c : Connection} (hc : w.connection? serial = some c)
    (event : String) (action : Reaction) (once : Bool) (n : Nat) :
    (w.apply (.listen serial event action once)).listenersOn n =
      w.listenersOn n ++ if n = serial then [⟨c.listeners.next, event, action, once⟩] else [] := by
  refine listenersOn_hear hc (by simp) (by simp [Change.reshape, Listeners.add]) ?_ n
  intro n hn
  simp [Change.reshape, hn, funext_iff]

theorem listenersOn_hush (w : World) (serial : Nat) (out : Listener Reaction → Bool) (n : Nat) :
    (w.apply (.hush serial out)).listenersOn n =
      if n = serial then (w.listenersOn n).filter (!out ·) else w.listenersOn n := by
  unfold listenersOn
  rw [connection?_apply_of_ne (by simp)]
  cases w.connection? n with
  | none => simp
  | some c =>
    simp only [Option.map_some, Option.getD_some, Change.reshape, Listeners.remove]
    split <;> rfl

/-! Undoing -/

theorem listenersOn_detach (w : World) (s : Subscription Detach) (n : Nat) :
    (w.detach s).listenersOn n =
      (w.listenersOn n).filter fun l => decide (s.undo ≠ some (.listener n l.id)) := by
  have hall (h : ∀ l : Listener Reaction, s.undo ≠ some (.listener n l.id)) :
      w.listenersOn n = (w.listenersOn n).filter fun l =>
        decide (s.undo ≠ some (.listener n l.id)) :=
    (List.filter_eq_self.2 fun l _ => decide_eq_true (h l)).symm
  unfold detach
  split
  · rename_i hundo
    exact hall fun l => by simp [hundo]
  · rename_i serial id hundo
    rw [offListener, (removeListeners_eq w serial _).listenersOn (fun _ hc => hc.not_tunes) n,
      listenersOn_hush]
    by_cases hn : n = serial
    · subst hn
      rw [if_pos rfl]
      refine List.filter_congr ?_
      intro l _
      by_cases hid : l.id = id
      · simp [hundo, hid]
      · simp [hundo, hid, Ne.symm hid]
    · rw [if_neg hn]
      exact hall fun l => by simp [hundo, Ne.symm hn]
  · rename_i t hundo
    have hcancel : (Change.cancel t).Tunes → False := id
    exact (listenersOn_apply hcancel n).trans (hall fun l => by simp [hundo])

/-- Of the listeners those go that were attached with these subscriptions. -/
theorem listenersOn_detachAll (w : World) (subscriptions : List (Subscription Detach)) (n : Nat) :
    (w.detachAll subscriptions).listenersOn n = (w.listenersOn n).filter fun l =>
      decide (.listener n l.id ∉ subscriptions.filterMap (·.undo)) := by
  induction subscriptions generalizing w with
  | nil => exact (List.filter_eq_self.2 fun l _ => by simp).symm
  | cons s rest ih =>
    have hrest := ih (w.detach s)
    rw [listenersOn_detach, List.filter_filter] at hrest
    refine hrest.trans (List.filter_congr ?_)
    intro l _
    rw [Bool.and_comm]
    cases hundo : s.undo <;> simp [hundo, eq_comm]

/-- A request that fails on a kept connection takes its own listeners off. -/
theorem listenersOn_failConnect {c : Connecting} (hreused : c.reused = true) (w : World)
    (error : EngineError) (n : Nat) : (w.failConnect c error).listenersOn n =
      (w.listenersOn n).filter fun l => decide (.listener n l.id ∉ c.wired.items) := by
  have hcancel : (Change.cancel c.pass.token).Tunes → False := id
  simp only [failConnect, hreused, ↓reduceIte]
  exact (listenersOn_apply hcancel n).trans (listenersOn_detachAll w _ n)

theorem failConnect_registry {c : Connecting} (hreused : c.reused = true) (w : World)
    (error : EngineError) : (w.failConnect c error).registry = w.registry := by
  have hundone : (w.undo c).registry = w.registry := by
    refine (undo_makes w c).keeps (I := fun w' => w'.registry = w.registry) ?_ rfl
    intro w' ch hch hw
    exact (apply_registry w' (by rintro _ _ _ rfl; exact hch) (by rintro _ rfl; exact hch)).trans hw
  rw [failConnect_of_reused w hreused]
  exact (apply_registry _ (by simp) (by simp)).trans hundone

/-! Attaching -/

/-- Of the listeners that have come each is among what can be undone, and all of that is new. -/
structure Tells (items : List Detach) (w w' : World) : Prop where
  heard : ∀ n, ∃ more, w'.listenersOn n = w.listenersOn n ++ more ∧
    ∀ l ∈ more, .listener n l.id ∈ items
  new : ∀ item ∈ items, ¬ w.Given item

namespace Tells

variable {items : List Detach}

theorem refl (w : World) : Tells [] w w :=
  ⟨fun _ => ⟨[], (List.append_nil _).symm, by simp⟩, by simp⟩

theorem same {w'' : World} (h : Tells items w w')
    (hsame : ∀ n, w''.listenersOn n = w'.listenersOn n) :
    Tells items w w'' :=
  ⟨fun n => hsame n ▸ h.heard n, h.new⟩

theorem hear {w'' : World} {serial : Nat} {l : Listener Reaction} (h : Tells items w w')
    (hnew : ¬ w.Given (.listener serial l.id))
    (hheard : ∀ n, w''.listenersOn n = w'.listenersOn n ++ if n = serial then [l] else []) :
    Tells (items ++ [.listener serial l.id]) w w'' where
  heard n := by
    obtain ⟨more, hmore, hlisted⟩ := h.heard n
    refine ⟨more ++ if n = serial then [l] else [], by rw [hheard, hmore, List.append_assoc], ?_⟩
    intro l' hl'
    rcases List.mem_append.1 hl' with hl' | hl'
    · exact List.mem_append_left _ (hlisted l' hl')
    · by_cases hn : n = serial
      · rw [if_pos hn] at hl'
        rw [List.mem_singleton.1 hl', hn]
        exact List.mem_append_right _ List.mem_cons_self
      · rw [if_neg hn] at hl'
        cases hl'
  new item hitem := by
    rcases List.mem_append.1 hitem with hitem | hitem
    · exact h.new item hitem
    · exact List.mem_singleton.1 hitem ▸ hnew

/-- Without what can be undone, the listeners are those that were there before. -/
theorem undone (h : Tells items w w') (hnumbers : w.Numbers) (n : Nat) :
    ((w'.listenersOn n).filter fun l => decide (.listener n l.id ∉ items)) = w.listenersOn n := by
  obtain ⟨more, hmore, hlisted⟩ := h.heard n
  have hold : ((w.listenersOn n).filter fun l => decide (.listener n l.id ∉ items)) =
      w.listenersOn n := by
    refine List.filter_eq_self.2 ?_
    intro l hl
    refine decide_eq_true fun hitem => h.new _ hitem ?_
    cases hc : w.connection? n with
    | none => simp [listenersOn, hc] at hl
    | some c =>
      rw [listenersOn_of_connection? hc] at hl
      exact ⟨c, hc, hnumbers n c hc l hl⟩
  have hnew : (more.filter fun l => decide (.listener n l.id ∉ items)) = [] :=
    List.filter_eq_nil_iff.2 fun l hl => by simp [hlisted l hl]
  rw [hmore, List.filter_append, hold, hnew, List.append_nil]

end Tells

theorem Attaches.tells {p : Pass} {S : Scope → Prop} {items : List Detach}
    (h : Attaches p S [] w items w') : Tells items w w' := by
  have hearlier {w' : World} {items : List Detach} (h : Attaches p S [] w items w') {item : Detach}
      (hnew : ¬ w'.Given item) : ¬ w.Given item := fun hgiven =>
    hnew (h.makes.keeps (I := fun w => w.Given item) (fun _ ch _ hw => hw.apply ch) hgiven)
  have hnext {w' : World} {c : Connection} (hc : w'.connection? p.channel.connection = some c) :
      ¬ w'.Given (.listener p.channel.connection c.listeners.next) := by
    rintro ⟨c', hc', hlt⟩
    obtain rfl : c = c' := Option.some.inj (hc.symm.trans hc')
    exact Nat.lt_irrefl _ hlt
  induction h with
  | nothing => exact .refl w
  | quiet ch _ hch ih => exact ih.same (listenersOn_apply hch.not_tunes)
  | claim b _ _ ih => exact ih.same (listenersOn_apply id)
  | @hear _ _ _ event action _ h hc ih =>
    exact ih.hear (l := ⟨_, event, action, false⟩) (hearlier h (hnext hc))
      (listenersOn_listen hc event action false)
  | @employ _ w' _ worker _ h hc ih =>
    refine ih.hear (l := ⟨_, worker.event, .enqueue w'.workers.length worker.token, false⟩)
      (hearlier h (hnext hc)) ?_
    refine listenersOn_hear hc (by simp) (by simp [Change.reshape, Listeners.add]) ?_
    intro n hn
    simp [Change.reshape, hn, funext_iff]
  | @send _ w' back path h ih =>
    have hsend : (Change.attachBack back path).Tunes → False := id
    have htold := ih.same (listenersOn_apply hsend)
    refine ⟨fun n => ?_, ?_⟩
    · obtain ⟨more, hmore, hlisted⟩ := htold.heard n
      exact ⟨more, hmore, fun l hl => List.mem_append_left _ (hlisted l hl)⟩
    · intro item hitem
      rcases List.mem_append.1 hitem with hitem | hitem
      · exact htold.new item hitem
      · exact List.mem_singleton.1 hitem ▸ hearlier h (Nat.lt_irrefl w'.tokens)

/-- Listeners and registrations are the same. -/
structure SameWiring (w w' : World) : Prop where
  listeners : ∀ n, w'.listenersOn n = w.listenersOn n
  registry : w'.registry = w.registry

theorem SameWiring.trans {w'' : World} (h : SameWiring w w') (h' : SameWiring w' w'') :
    SameWiring w w'' :=
  ⟨fun n => (h'.listeners n).trans (h.listeners n), h'.registry.trans h.registry⟩

/-! Requests on a kept connection -/

/-- A request that got a kept connection tells what it attaches to it, and registers things by it
alone. It has failed then, or goes on. -/
theorem startConnect_tells {opts : ConnectOptions} {r : Resolved} {serial : Nat}
    (hresolved : (Resolved.ofRequest w.settings w.runtimeSockets opts).1 = .ok r)
    (hacquire : (w.acquire r).1 = .ok (serial, true)) (ticket : Nat) (name : String)
    (owner : ComponentId) :
    ∃ c mid, c.reused = true ∧ c.pass.token = w.tokens ∧
      c.pass.channel = ⟨serial, r.scope, r.emitTimeout⟩ ∧ mid.waiting ⊆ w.waiting ∧
      Tells c.wired.items w mid ∧ Gains c.pass.id c.pass.Claims w mid ∧
      ((∃ error, w.startConnect ticket name owner opts = mid.failConnect c error) ∨
        w.startConnect ticket name owner opts = mid.askOrFinish c) := by
  let warned := (Resolved.ofRequest w.settings w.runtimeSockets opts).2.foldl warn w
  have heq : warned = { w with trace := w.trace ++
      (Resolved.ofRequest w.settings w.runtimeSockets opts).2.map .warned } := foldl_warn_eq ..
  have hgot : (warned.acquire r).1 = .ok (serial, true) := by
    rw [(acquire_foldl_warn ..).1, hacquire]
  obtain ⟨-, hsame, -⟩ | ⟨hfresh, -⟩ := acquire_ok hgot
  · obtain ⟨c, mid, hpass, -, hreused, hattaches, hends⟩ :=
      startConnect_attaches hresolved (Prod.ext hgot hsame) ticket name owner
    have hentering : Makes Change.Enters w (warned.enter r) :=
      ((foldl_warn_makes ..).mono fun _ hc => hc.enters).trans (enter_makes ..)
    have hidle : SameWiring w (warned.enter r) := by
      rw [heq]
      exact ⟨fun _ => rfl, rfl⟩
    have htokens : warned.tokens = w.tokens := by rw [heq]
    have htells := hattaches.tells
    refine ⟨c, mid, hreused, ?_, by rw [hpass], ?_, ⟨?_, ?_⟩, ?_, hends⟩
    · rw [hpass]
      exact htokens
    · refine List.Subset.trans (hattaches.makes.waiting fun _ h => h.elim).subset ?_
      exact (hentering.waiting fun _ h => h.elim).subset
    · intro n
      rw [← hidle.listeners]
      exact htells.heard n
    · intro item hitem hgiven
      exact htells.new item hitem
        (hentering.keeps (I := fun w => w.Given item) (fun _ ch _ hw => hw.apply ch) hgiven)
    · exact (Gains.none hidle.registry).trans hattaches.gains
  · cases hfresh

/-- A request that waits asks the peer for its API and does nothing else. -/
theorem askOrFinish_asks {c : Connecting} (hasked : c ∈ (w.askOrFinish c).waiting)
    (hnew : c ∉ w.waiting) : ∃ job, w.askOrFinish c = w.resume job := by
  unfold askOrFinish at hasked ⊢
  split at hasked
  · exact absurd (((finishConnect_makes w c none).waiting fun _ h => h.elim).subset hasked) hnew
  · exact ⟨_, rfl⟩

end World

/-- The connect request that starts at a moment is over at a later one, or at once, and no session
has come of it. -/
structure Moment.FailsAt (m last : Moment) : Prop where
  ends : last = m ∨ ∃ result c, last.job = .emitDone result (.discovery c) ∧
    c.pass.token = m.world.tokens
  forgotten : ∀ hd ∈ last.after.holding, hd.token ≠ m.world.tokens

namespace World

variable {w₀ w : World} {log₁ log₂ : List Moment} {m last : Moment} {g : Grant}

theorem Fresh.waiting (h : w.Fresh) : w.waiting = [] := by
  simp [World.waiting, jobs, tasks, h.ready, h.parked]

/-- Those that wait when a task begins have tokens that were given out. -/
theorem Run.begin_given {log : List Moment} {task : Task} {rest : List Task} (h : Run w₀ log w)
    (hfresh : w₀.Fresh) (hready : w.ready = task :: rest) :
    ∀ c ∈ (w.begin task rest).waiting, c.pass.token < (w.begin task rest).tokens := by
  intro c hc
  refine h.since.given (by simp [hfresh.waiting]) c ?_
  rw [begin_waiting hready]
  exact List.mem_append_right _ hc

/-- Who waits under the token of a request after its first job is that request. It has asked the
peer for its API then. -/
theorem asked_of_waits {c c' : Connecting} {mid w' : World} {t : Token} (hwaits : c' ∈ w'.waiting)
    (htoken : c'.pass.token = t) (hothers : ∀ c' ∈ mid.waiting, c'.pass.token ≠ t)
    (hends : (∃ error, w' = mid.failConnect c error) ∨ w' = mid.askOrFinish c) :
    c' = c ∧ ∃ job, w' = mid.resume job := by
  rcases hends with ⟨error, rfl⟩ | rfl
  · exact absurd htoken (hothers c' ((failConnect_waiting mid c error).subset hwaits))
  · obtain rfl : c' = c :=
      (askOrFinish_waiting hwaits).resolve_right fun hmem => hothers c' hmem htoken
    exact ⟨rfl, askOrFinish_asks hwaits fun hmem => hothers c' hmem htoken⟩

/-- A request that fails after it waited is the one that began. -/
theorem failConnect_of_failsAt_later {c : Connecting} {mid : World}
    (hafter : Run m.after log₂ w) (hlast : last ∈ log₂)
    (hnew : m.world.tokens < m.after.tokens)
    (hothers : ∀ c' ∈ mid.waiting, c'.pass.token ≠ m.world.tokens)
    (htoken : c.pass.token = m.world.tokens)
    (hends : (∃ error, m.after = mid.failConnect c error) ∨ m.after = mid.askOrFinish c)
    (hfails : m.FailsAt last) (hne : last ≠ m) :
    (∃ job, m.after = mid.resume job) ∧ ∃ error, last.after = last.world.failConnect c error := by
  obtain ⟨result, c', hdone, hctoken⟩ := hfails.ends.resolve_left hne
  have hconnecting : last.job.connecting? = some c' := by
    rw [hdone]
    rfl
  have hstill : c' ∈ m.after.waiting := hafter.waited hlast hconnecting (hctoken ▸ hnew)
  obtain ⟨rfl, hasked⟩ := asked_of_waits hstill hctoken hothers hends
  refine ⟨hasked, ?_⟩
  have htask : last.task.job = .emitDone result (.discovery c') := hdone
  have hover : last.after = last.world.finishEmit result (.discovery c') := by
    rw [Moment.after, htask]
    rfl
  have hforgotten := hfails.forgotten
  rw [hover, ← htoken] at hforgotten
  rw [hover]
  exact finishEmit_fails hforgotten

/-- A request that is over in its first job has failed there. -/
theorem failConnect_of_failsAt_once {c : Connecting} {mid : World}
    (htoken : c.pass.token = m.world.tokens)
    (hends : (∃ error, m.after = mid.failConnect c error) ∨ m.after = mid.askOrFinish c)
    (hfails : m.FailsAt m) : ∃ error, m.after = mid.failConnect c error := by
  rcases hends with hfailed | heq
  · exact hfailed
  · obtain ⟨hd, hhd, hheld⟩ := askOrFinish_holds mid c
    exact absurd (hheld.trans htoken) (hfails.forgotten hd (heq ▸ hhd))

/-- A request that fails, at once or later, does so in a world that is wired as it left it, if
nothing else is wired meanwhile. -/
theorem failConnect_of_failsAt {c : Connecting} {mid : World}
    (hafter : Run m.after log₂ w) (hlast : last ∈ m :: log₂)
    (hnew : m.world.tokens < m.after.tokens)
    (hothers : ∀ c' ∈ mid.waiting, c'.pass.token ≠ m.world.tokens)
    (htoken : c.pass.token = m.world.tokens)
    (hends : (∃ error, m.after = mid.failConnect c error) ∨ m.after = mid.askOrFinish c)
    (hfails : m.FailsAt last) (hidle : last = m ∨ m.after.SameWiring last.world) :
    ∃ w' error, SameWiring mid w' ∧ last.after = w'.failConnect c error := by
  by_cases hlater : last = m
  · subst hlater
    obtain ⟨error, heq⟩ := failConnect_of_failsAt_once htoken hends hfails
    exact ⟨mid, error, ⟨fun _ => rfl, rfl⟩, heq⟩
  · have hlast' := (List.mem_cons.1 hlast).resolve_left hlater
    obtain ⟨⟨job, hasked⟩, error, heq⟩ :=
      failConnect_of_failsAt_later hafter hlast' hnew hothers htoken hends hfails hlater
    have hsame : SameWiring mid m.after := by
      rw [hasked]
      exact ⟨fun _ => rfl, rfl⟩
    exact ⟨last.world, error, hsame.trans (hidle.resolve_left hlater), heq⟩

/-- A connect request that fails on a kept connection leaves all connections the listeners they had,
if nothing else is wired meanwhile. The registry keeps what the request has registered. -/
theorem failed_connect_leaves_its_claims (hfresh : w₀.Fresh)
    (hrun : Run w₀ (log₁ ++ m :: log₂) w) (hg : m.grant? = some g) (hreused : g.reused = true)
    (hlast : last ∈ m :: log₂) (hfails : m.FailsAt last)
    (hidle : last = m ∨ m.after.SameWiring last.world) :
    (∀ n, last.after.listenersOn n = m.world.listenersOn n) ∧
      ∃ claims, last.after.registry.log = m.world.registry.log ++ claims ∧
        ∀ r ∈ claims, r.via = .opened g.serial ∧
          ((∃ owner, r.scope = .component (.opened g.serial) owner) ∨
            ∃ area, r.scope = .store g.resolved.scope area) := by
  obtain ⟨v, rest, hbefore, hready, hworld, hafter⟩ := hrun.split
  obtain ⟨ticket, name, owner, opts, hjob, hok, hacquire, hexec⟩ := started_of_grant? hg
  rw [hreused] at hacquire
  have hnumbers : m.world.Numbers := by
    rw [hworld]
    exact (hbefore.numbered hfresh).numbers
  have hgiven : ∀ c ∈ m.world.waiting, c.pass.token < m.world.tokens :=
    hworld ▸ hbefore.begin_given hfresh hready
  have hspent := startConnect_tokens hok hacquire ticket name owner
  obtain ⟨c, mid, hkept, htoken, hchannel, hwaiting, htells, ⟨claims, hlog, hclaims⟩, hends⟩ :=
    startConnect_tells hok hacquire ticket name owner
  rw [← hexec] at hspent hends
  obtain ⟨w', error, hsame, heq⟩ := failConnect_of_failsAt hafter hlast
    hspent (fun c' hc' => Nat.ne_of_lt (hgiven c' (hwaiting hc'))) htoken hends hfails hidle
  rw [heq]
  refine ⟨?_, claims, ?_, ?_⟩
  · intro n
    rw [listenersOn_failConnect hkept, hsame.listeners]
    exact htells.undone hnumbers n
  · rw [failConnect_registry hkept, hsame.registry, hlog]
  · intro r hr
    obtain ⟨hvia, hscope⟩ := hclaims r hr
    have hid : c.pass.id = .opened g.serial := by rw [Pass.id, hchannel]
    refine ⟨hvia.trans hid, hscope.imp ?_ ?_⟩
    · intro heq
      exact ⟨c.pass.owner, by rw [heq, Pass.componentScope, hid]⟩
    · rintro ⟨area, heq⟩
      exact ⟨area, by rw [heq, Pass.storeScope, hchannel]⟩

/-! A request that fails for want of a source, and is made again without it -/

def studio : World := { settings := { sockets := [{ name := "home", url := some "http://home" }] } }

/-- A request for the kept connection, for the news, with these emitBacks of the store. -/
def forNews (emitBacks : List Json) : ConnectOptions :=
  { persist := .key "main", namespaceConfig := some { listeners := [.str "news"] }
    store := some { emitBacks } }

/-- One component opens the connection; another wants the news on it, and something that is not
there. -/
def studioPlayed : List Moment × World :=
  studio.play [.command 0 (.connect "x" ⟨"a"⟩ { persist := .key "main" }), .steps 10,
    .command 1 (.connect "y" ⟨"b"⟩ (forNews [.str "missing"])), .steps 10]

def studioFailed : Moment := studioPlayed.1.get ⟨1, Nat.lt_of_lt_of_eq (by decide) rfl⟩

theorem studio_fresh : studio.Fresh := .of_unwatched rfl (List.forall_mem_nil _)

theorem studio_run : Run studio (studioPlayed.1.take 1 ++ studioFailed :: studioPlayed.1.drop 2)
    studioPlayed.2 := by
  have hrun : Run studio studioPlayed.1 studioPlayed.2 := .of_play studio rfl
  have hcut : studioFailed :: studioPlayed.1.drop 2 = studioPlayed.1.drop 1 :=
    List.getElem_cons_drop _
  rwa [hcut, List.take_append_drop]

theorem studio_fails : studioFailed.FailsAt studioFailed where
  ends := .inl rfl
  forgotten := by
    have hheld : studioFailed.after.holding.map (·.token) = [0] := rfl
    intro hd hhd
    have hmem := List.mem_map_of_mem (f := (·.token)) hhd
    rw [hheld] at hmem
    rw [List.mem_singleton.1 hmem]
    exact nofun

/-- Nobody listens to the news when the request has failed. -/
theorem silent_after_failed_connect : studioFailed.after.listenersOn 1 = [] := by
  obtain ⟨g, hg, hreused⟩ : ∃ g, studioFailed.grant? = some g ∧ g.reused = true := ⟨_, rfl, rfl⟩
  have hkept := failed_connect_leaves_its_claims studio_fresh studio_run hg hreused
    List.mem_cons_self studio_fails (.inl rfl)
  exact (hkept.1 1).trans rfl

/-- What the failed request has registered stays behind. -/
theorem failed_connect_not_undone :
    ¬ ∀ (w₀ w : World) (log₁ log₂ : List Moment) (m last : Moment) (g : Grant), w₀.Fresh →
      Run w₀ (log₁ ++ m :: log₂) w → m.grant? = some g → g.reused = true → last ∈ m :: log₂ →
      m.FailsAt last → (last = m ∨ m.after.SameWiring last.world) →
      (∀ n, last.after.listenersOn n = m.world.listenersOn n) ∧
        last.after.registry = m.world.registry := by
  intro h
  obtain ⟨g, hg, hreused⟩ : ∃ g, studioFailed.grant? = some g ∧ g.reused = true := ⟨_, rfl, rfl⟩
  have hsame := (h _ _ _ _ _ _ g studio_fresh studio_run hg hreused List.mem_cons_self studio_fails
    (.inl rfl)).2
  have hlog : studioFailed.after.registry.log.length = studioFailed.world.registry.log.length := by
    rw [hsame]
  exact absurd hlog (by decide)

/-- So when the request is made again, and nothing is missing, it gets no listener. -/
example : (studioPlayed.2.play [.command 2 (.connect "z" ⟨"b"⟩ (forNews [])),
    .steps 10]).2.listenersOn 1 = [] := rfl

end World

end Patchbay
