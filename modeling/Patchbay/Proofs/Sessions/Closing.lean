import Patchbay.Proofs.Sessions.FailedConnect
import Patchbay.Proofs.Sessions.Undisturbed

/-!
What goes with a session that is closed, and what stays. Its connection is dropped with all that is
on it; no other connection is touched, and no token is cancelled but the session's own. So teardown
and shutdown leave nothing behind of what they close.
-/

namespace Patchbay

/-- A change that undoes what a holder has attached. -/
def Change.Frees (hd : Holder) : Change → Prop
  | .cancel t => .token t ∈ hd.items
  | .hush n _ => n = hd.connection
  | c => c.Stirs

/-- A change that also drops the holder's connection. -/
def Change.Ends (hd : Holder) : Change → Prop
  | .cancel t => .token t ∈ hd.items
  | c => c.Drops hd.connection

namespace Change

variable {c : Change} {hd : Holder}

theorem Frees.ends (h : c.Frees hd) : c.Ends hd := by
  cases c <;> first | exact h | exact h.elim

theorem Stirs.frees (h : c.Stirs) : c.Frees hd := by
  cases c <;> first | exact h | exact h.elim

theorem Shuts.not_tunes {serial : Nat} (h : c.Shuts serial) : ¬ c.Tunes :=
  Among.not_tunes (h.among.mono rfl)

theorem Drops.ends (h : c.Drops hd.connection) : c.Ends hd := by
  cases c <;> first | exact h | exact h.elim

theorem Ends.cancels_or_drops (h : c.Ends hd) : (∃ t, c = .cancel t) ∨ c.Drops hd.connection := by
  cases c with
  | cancel t => exact .inl ⟨t, rfl⟩
  | _ => exact .inr h

theorem Ends.among (h : c.Ends hd) :
    c.Among [.cancel, .hush, .releaseBindings, .forget, .shut, .stir] := by
  rcases h.cancels_or_drops with ⟨t, rfl⟩ | hdrops
  · trivial
  · exact hdrops.among.mono rfl

theorem Ends.holds (h : c.Ends hd) : c.Holds := Among.holds (h.among.mono rfl)

/-- It takes listeners off the holder's connection, or none. -/
theorem Ends.tunes (h : c.Ends hd) : ¬ c.Tunes ∨ ∃ out, c = .hush hd.connection out := by
  cases c with
  | hush n out => exact .inr ⟨out, congrArg (Change.hush · out) h⟩
  | listen serial event action once => cases action <;> exact h.among.elim
  | _ => first | exact h.elim | exact .inl id

/-- It releases what the holder's connection has registered, or nothing. -/
theorem Ends.registry (h : c.Ends hd) (w : World) :
    (w.apply c).registry = w.registry ∨ c = .releaseBindings hd.connection := by
  cases c with
  | releaseBindings n => exact .inr (congrArg Change.releaseBindings h)
  | _ => first | exact h.elim | exact .inl (World.apply_registry w (by simp) (by simp))

end Change

/-- A holder listens on its own connection only. -/
def Holder.Own (hd : Holder) : Prop := ∀ n id, .listener n id ∈ hd.items → n = hd.connection

namespace World

variable {w w' w'' : World} {n : Nat} {hd : Holder} {ch : Change}

/-! What comes and what goes -/

/-- Nothing has come: no connection is open, listed, listened to, registered for or kept that was
not before. -/
structure Sheds (w w' : World) : Prop where
  connected : ∀ n, w'.isConnected n = true → w.isConnected n = true
  hub : w'.hub ⊆ w.hub
  listeners : ∀ n, w'.listenersOn n ⊆ w.listenersOn n
  registered : w'.registry.log ⊆ w.registry.log
  kept : w'.persisted ⊆ w.persisted

/-- The connection and all that is on it are as they were. -/
structure Leaves (n : Nat) (w w' : World) : Prop where
  connected : w'.isConnected n = w.isConnected n
  hub : n ∈ w'.hub ↔ n ∈ w.hub
  listeners : w'.listenersOn n = w.listenersOn n
  registered : ∀ r : Registration, r.via = .opened n → (r ∈ w'.registry.log ↔ r ∈ w.registry.log)
  kept : ∀ slot, (slot, n) ∈ w'.persisted ↔ (slot, n) ∈ w.persisted

/-- Nothing is left of the connection. -/
structure Gone (n : Nat) (w : World) : Prop where
  closed : w.isConnected n = false
  unlisted : n ∉ w.hub
  silent : w.listenersOn n = []
  released : ∀ r ∈ w.registry.log, r.via ≠ .opened n
  forgotten : ∀ slot, (slot, n) ∉ w.persisted

theorem listenersOn_congr (h : w'.connections = w.connections) (n : Nat) :
    w'.listenersOn n = w.listenersOn n := by
  simp only [listenersOn, connection?_congr h]

namespace Sheds

theorem same (hconnections : w'.connections = w.connections) (hhub : w'.hub = w.hub)
    (hregistry : w'.registry = w.registry) (hpersisted : w'.persisted = w.persisted) :
    Sheds w w' := by
  refine ⟨fun n => ?_, hhub ▸ List.Subset.refl _, fun n => ?_, hregistry ▸ List.Subset.refl _,
    hpersisted ▸ List.Subset.refl _⟩
  · rw [isConnected_congr hconnections]
    exact id
  · rw [listenersOn_congr hconnections]
    exact List.Subset.refl _

theorem refl (w : World) : Sheds w w := .same rfl rfl rfl rfl

theorem trans (h : Sheds w w') (h' : Sheds w' w'') : Sheds w w'' where
  connected n hn := h.connected n (h'.connected n hn)
  hub := List.Subset.trans h'.hub h.hub
  listeners n := List.Subset.trans (h'.listeners n) (h.listeners n)
  registered := List.Subset.trans h'.registered h.registered
  kept := List.Subset.trans h'.kept h.kept

end Sheds

theorem Gone.sheds (h : Gone n w) (hsheds : Sheds w w') : Gone n w' where
  closed := by
    have hclosed := h.closed
    rw [Bool.eq_false_iff] at hclosed ⊢
    exact fun hlive => hclosed (hsheds.connected n hlive)
  unlisted hn := h.unlisted (hsheds.hub hn)
  silent := List.eq_nil_of_subset_nil (h.silent ▸ hsheds.listeners n)
  released r hr := h.released r (hsheds.registered hr)
  forgotten slot hslot := h.forgotten slot (hsheds.kept hslot)

namespace Leaves

theorem same (n : Nat) (hconnections : w'.connections = w.connections) (hhub : w'.hub = w.hub)
    (hregistry : w'.registry = w.registry) (hpersisted : w'.persisted = w.persisted) :
    Leaves n w w' := by
  refine ⟨isConnected_congr hconnections n, ?_, listenersOn_congr hconnections n, fun r _ => ?_,
    fun slot => ?_⟩
  · rw [hhub]
  · rw [hregistry]
  · rw [hpersisted]

theorem refl (n : Nat) (w : World) : Leaves n w w := .same n rfl rfl rfl rfl

theorem trans (h : Leaves n w w') (h' : Leaves n w' w'') : Leaves n w w'' where
  connected := h'.connected.trans h.connected
  hub := h'.hub.trans h.hub
  listeners := h'.listeners.trans h.listeners
  registered r hr := (h'.registered r hr).trans (h.registered r hr)
  kept slot := (h'.kept slot).trans (h.kept slot)

end Leaves

/-! What a change does that ends a holder -/

theorem Woken.persisted (h : Woken w w') : w'.persisted = w.persisted := by
  rw [h.eq]

theorem sheds_apply (w : World) (hch : ch.Ends hd) : Sheds w (w.apply ch) where
  connected := (apply_loosens w hch.holds).connected
  hub n hn := ((mem_hub_apply w (by rintro _ _ rfl; exact hch) n).1 hn).1
  listeners n := by
    rcases hch.tunes with hsame | ⟨out, rfl⟩
    · rw [listenersOn_apply hsame]
      exact List.Subset.refl _
    · rw [listenersOn_hush]
      split
      · exact List.filter_sublist.subset
      · exact List.Subset.refl _
  registered := registry_apply_subset w (by rintro _ _ _ rfl; exact hch)
  kept := persisted_apply_subset w (by rintro _ _ rfl; exact hch)

theorem leaves_apply (w : World) (hch : ch.Ends hd) (hn : n ≠ hd.connection) :
    Leaves n w (w.apply ch) where
  connected := by
    refine Bool.eq_iff_iff.2 ⟨(sheds_apply w hch).connected n, fun hlive => ?_⟩
    refine isConnected_apply hlive ?_
    rintro rfl
    exact hn hch
  hub := by
    rw [mem_hub_apply w (by rintro _ _ rfl; exact hch)]
    refine and_iff_left ?_
    rintro rfl
    exact hn hch
  listeners := by
    rcases hch.tunes with hsame | ⟨out, rfl⟩
    · exact listenersOn_apply hsame n
    · rw [listenersOn_hush, if_neg hn]
  registered r hr := by
    rcases hch.registry w with hsame | rfl
    · rw [hsame]
    · simp only [apply]
      split
      · rfl
      · simp [Registry.log_release, hr, hn]
  kept slot := by
    cases ch with
    | forget m =>
      obtain rfl : m = hd.connection := hch
      simp only [apply]
      split
      · rfl
      · simp [hn]
    | _ => first | exact hch.elim | rw [(apply_woken w _).persisted]; rfl

/-- What another holder has stays. -/
theorem Intact.ends {item : Detach} (h : w.Intact item) (hch : ch.Ends hd) (hfree : item ∉ hd.items)
    (hother : ∀ n id, item = .listener n id → n ≠ hd.connection) : (w.apply ch).Intact item := by
  cases ch with
  | cancel t =>
    cases item with
    | token t' =>
      refine Bool.eq_false_iff.2 fun hcancelled => ?_
      rcases List.mem_cons.1 (Held.cancelled_cancel w t (List.contains_iff_mem.1 hcancelled)) with
        rfl | hold
      · exact hfree hch
      · exact absurd (List.contains_iff_mem.2 hold) (Bool.eq_false_iff.1 h)
    | listener n id =>
      obtain ⟨c, l, hc, hrest⟩ := h
      exact ⟨c, l, connection?_apply hc _, hrest⟩
  | hush m out =>
    obtain rfl : m = hd.connection := hch
    cases item with
    | token t => exact h
    | listener n id =>
      obtain ⟨c, l, hc, hl, hrest⟩ := h
      refine ⟨_, l, connection?_apply hc _, ?_, hrest⟩
      simpa only [Change.reshape, if_neg (hother n id rfl)] using hl
  | _ => first | exact hch.elim | exact h.apply trivial

theorem Sheds.of_ends (h : Makes (Change.Ends hd) w w') : Sheds w w' :=
  h.keeps (I := Sheds w) (fun w' _ hch hw => hw.trans (sheds_apply w' hch)) (.refl w)

theorem Leaves.of_ends (h : Makes (Change.Ends hd) w w') (hn : n ≠ hd.connection) : Leaves n w w' :=
  h.keeps (I := Leaves n w) (fun w' _ hch hw => hw.trans (leaves_apply w' hch hn)) (.refl n w)

/-! Dropping a connection -/

theorem listenersOn_offAll (w : World) (n : Nat) : (w.offAll n).listenersOn n = [] := by
  rw [offAll, (removeListeners_eq w n _).listenersOn (fun _ hc => hc.not_tunes),
    listenersOn_hush, if_pos rfl]
  simp

/-- A connection that is discarded leaves nothing behind. -/
theorem discard_gone (h : w.Listed) (n : Nat) : Gone n (w.discard n) := by
  have hclosing : Makes (Change.Drops n) w ((w.offAll n).close n) :=
    (removeListeners_drops w n _).trans ((close_makes _ n).mono fun _ hc => hc.drops)
  have hdown : ((w.offAll n).close n).isConnected n = false := isConnected_close ..
  have hunlisted : n ∉ ((w.offAll n).close n).hub := by
    intro hn
    have hlive := h.makes hclosing n hn
    rw [hdown] at hlive
    cases hlive
  have hsilent : ((w.offAll n).close n).listenersOn n = [] := by
    rw [(close_makes _ n).listenersOn fun _ hc => hc.not_tunes, listenersOn_offAll]
  rw [discard_eq]
  refine ⟨hdown, hunlisted, hsilent, ?_, ?_⟩
  · intro r hr
    have hreleased :
        ((((w.offAll n).close n).apply (.releaseBindings n)).apply (.forget n)).registry =
        ((w.offAll n).close n).registry.release (.opened n) := if_neg (Bool.eq_false_iff.1 hdown)
    rw [hreleased, Registry.log_release] at hr
    simpa using (List.mem_filter.1 hr).2
  · intro slot hslot
    have hstill : (((w.offAll n).close n).apply (.releaseBindings n)).isConnected n = false := hdown
    have hforgot :
        ((((w.offAll n).close n).apply (.releaseBindings n)).apply (.forget n)).persisted =
        ((w.offAll n).close n).persisted.filter (·.2 != n) := if_neg (Bool.eq_false_iff.1 hstill)
    rw [hforgot] at hslot
    simpa using (List.mem_filter.1 hslot).2

/-- A request that fails leaves nothing behind of the connection that was opened for it. -/
theorem failConnect_gone {c : Connecting} (h : w.Listed) (hfresh : c.reused = false)
    (error : EngineError) : Gone c.pass.channel.connection (w.failConnect c error) := by
  rw [failConnect_of_fresh w hfresh]
  exact (discard_gone (h.makes (undo_makes w c)) _).sheds (.same rfl rfl rfl rfl)

/-! Ending a session -/

theorem detachAll_frees {subscriptions : List (Subscription Detach)} (hown : hd.Own)
    (hheld : subscriptions.filterMap (·.undo) ⊆ hd.items) (w : World) :
    Makes (Change.Frees hd) w (w.detachAll subscriptions) := by
  induction subscriptions generalizing w with
  | nil => exact .nothing
  | cons s rest ih =>
    have hfirst : ∀ item, s.undo = some item → item ∈ hd.items := fun item hundo =>
      hheld (List.mem_filterMap.2 ⟨s, List.mem_cons_self, hundo⟩)
    have hdetached : Makes (Change.Frees hd) w (w.detach s) := by
      unfold detach
      split
      · exact .nothing
      · rename_i serial id hundo
        have hserial : serial = hd.connection := hown serial id (hfirst _ hundo)
        exact (Makes.one (P := Change.Frees hd) (.hush serial _) hserial).trans
          ((removeListeners_eq w serial _).mono fun _ hc => hc.frees)
      · rename_i t hundo
        exact .one (.cancel t) (hfirst _ hundo)
    refine hdetached.trans (ih ?_ _)
    refine fun item hitem => hheld ?_
    obtain ⟨s', hs', hundo⟩ := List.mem_filterMap.1 hitem
    exact List.mem_filterMap.2 ⟨s', List.mem_cons_of_mem _ hs', hundo⟩

variable {s : Session}

/-- A session listens on its own connection. -/
theorem Orderly.own {muted : Bool} {past : Past} (h : Orderly muted past [] w)
    (hs : s ∈ w.sessions) :
    s.holder.Own :=
  h.held.own s.holder (mem_holding_of_session hs)

theorem closeSession_ends (w : World) (hown : s.holder.Own) :
    Makes (Change.Ends s.holder) w (w.closeSession s) := by
  have hcancelled : Makes (Change.Ends s.holder) w (w.cancel s.token) :=
    .one (.cancel s.token) List.mem_cons_self
  have hdetached := (detachAll_frees hown (List.subset_cons_self _ _) (w.cancel s.token)).mono
    fun _ hc => hc.ends
  exact (hcancelled.trans hdetached).trans ((discard_drops _ _).mono fun _ hc => hc.ends)

theorem isCancelled_cancel (w : World) (t : Token) : (w.cancel t).isCancelled t = true := by
  unfold cancel
  split
  · assumption
  · simp [isCancelled, signal, wakeIf]

theorem Makes.isCancelled {P : Change → Prop} {t : Token} (h : Makes P w w')
    (ht : w.isCancelled t = true) : w'.isCancelled t = true :=
  List.contains_iff_mem.2 (h.cancelled (List.contains_iff_mem.1 ht))

/-- Nothing is left of the session's connection, and the session's token is cancelled. -/
structure Over (s : Session) (w : World) : Prop extends Gone s.channel.connection w where
  cancelled : w.isCancelled s.token = true

theorem Over.later {P : Change → Prop} (h : Over s w) (hsheds : Sheds w w')
    (hmakes : Makes P w w') :
    Over s w' :=
  ⟨h.toGone.sheds hsheds, hmakes.isCancelled h.cancelled⟩

/-- A session that is closed is over. -/
theorem closeSession_over (h : w.Listed) (s : Session) : Over s (w.closeSession s) := by
  have hcancelled : Makes Change.Detaches w (w.cancel s.token) := .one (.cancel s.token) trivial
  have hundone := (detachAll_makes (w.cancel s.token) s.subscriptions).mono fun _ hc => hc.detaches
  refine ⟨discard_gone (h.makes (hcancelled.trans hundone)) _, ?_⟩
  exact (hundone.trans (discard_makes _ _)).isCancelled (isCancelled_cancel w s.token)

/-! Teardown and shutdown -/

/-- One session of a component that is torn down. -/
def parted : World × Nat → Session → World × Nat
  | (w, closed), s =>
    if s.teardown then (w.closeSession s, closed + 1)
    else ({ w with detached := w.detached ++ [s] }, closed)

theorem teardown_eq (w : World) (owner : ComponentId) :
    w.teardown owner = (w.sessionsOf owner).foldl parted (w.apply (.disown owner), 0) := rfl

variable {owner : ComponentId}

theorem parted_cases (acc : World × Nat) (s : Session) :
    (s.teardown = true ∧ parted acc s = (acc.1.closeSession s, acc.2 + 1)) ∨
      (s.teardown = false ∧ parted acc s = (acc.1.apply (.outlive s), acc.2)) := by
  cases hteardown : s.teardown with
  | true => exact .inl ⟨rfl, if_pos hteardown⟩
  | false => exact .inr ⟨rfl, if_neg (Bool.eq_false_iff.1 hteardown)⟩

theorem parted_makes (acc : World × Nat) (s : Session) :
    Makes Change.Undoes acc.1 (parted acc s).1 := by
  rcases parted_cases acc s with ⟨-, heq⟩ | ⟨-, heq⟩ <;> rw [heq]
  · exact (closeSession_makes acc.1 s).mono fun _ hc => hc.undoes
  · exact .one (.outlive s) trivial

theorem parted_sheds (acc : World × Nat) (s : Session) (hown : s.holder.Own) :
    Sheds acc.1 (parted acc s).1 := by
  rcases parted_cases acc s with ⟨-, heq⟩ | ⟨-, heq⟩ <;> rw [heq]
  · exact .of_ends (closeSession_ends acc.1 hown)
  · exact .same rfl rfl rfl rfl

theorem parted_over (acc : World × Nat) (s : Session) (hteardown : s.teardown = true)
    (hlisted : acc.1.Listed) : Over s (parted acc s).1 := by
  rcases parted_cases acc s with ⟨-, heq⟩ | ⟨hstays, -⟩
  · rw [heq]
    exact closeSession_over hlisted s
  · rw [hteardown] at hstays
    cases hstays

/-- Of sessions that are parted one after the other, those that are to be closed are over in the
end. -/
theorem foldl_parted_over (ended : List Session) (hown : ∀ s ∈ ended, s.holder.Own)
    (acc : World × Nat) (hlisted : acc.1.Listed) :
    Makes Change.Undoes acc.1 (ended.foldl parted acc).1 ∧ Sheds acc.1 (ended.foldl parted acc).1 ∧
      ∀ s ∈ ended, s.teardown = true → Over s (ended.foldl parted acc).1 := by
  induction ended generalizing acc with
  | nil => exact ⟨.nothing, .refl _, fun s hs => absurd hs List.not_mem_nil⟩
  | cons first rest ih =>
    obtain ⟨hfirst, hrest⟩ := List.forall_mem_cons.1 hown
    have hmakes := parted_makes acc first
    obtain ⟨hlater, hsheds, hover⟩ := ih hrest (parted acc first) (hlisted.makes hmakes)
    refine ⟨hmakes.trans hlater, (parted_sheds acc first hfirst).trans hsheds, ?_⟩
    refine List.forall_mem_cons.2 ⟨fun hteardown => ?_, hover⟩
    exact (parted_over acc first hteardown hlisted).later hsheds hlater

/-- Of the sessions of a component that is torn down, those that are to be closed are over. -/
theorem teardown_over (hlisted : w.Listed) (hown : ∀ s ∈ w.sessionsOf owner, s.holder.Own) :
    ∀ s ∈ w.sessionsOf owner, s.teardown = true → Over s (w.teardown owner).1 := by
  rw [teardown_eq]
  exact (foldl_parted_over _ hown (w.apply (.disown owner), 0) (hlisted.apply _)).2.2

/-- What the closing of one of the sessions keeps, and the parting from the others, the parting from
all of them keeps. -/
theorem foldl_parted_keeps {I : World → Prop} {ended : List Session}
    (hclose : ∀ w, ∀ s ∈ ended, s.teardown = true → I w → I (w.closeSession s))
    (houtlive : ∀ w s, I w → I (w.apply (.outlive s))) (acc : World × Nat) (h : I acc.1) :
    I (ended.foldl parted acc).1 := by
  induction ended generalizing acc with
  | nil => exact h
  | cons first rest ih =>
    refine ih (fun w s hs => hclose w s (List.mem_cons_of_mem _ hs)) (parted acc first) ?_
    rcases parted_cases acc first with ⟨hcloses, heq⟩ | ⟨-, heq⟩ <;> rw [heq]
    · exact hclose acc.1 first List.mem_cons_self hcloses h
    · exact houtlive acc.1 first h

/-- A connection stays as it is when none of the sessions that are closed is on it. -/
theorem teardown_leaves (hown : ∀ s ∈ w.sessionsOf owner, s.holder.Own)
    (hapart : ∀ s ∈ w.sessionsOf owner, s.teardown = true → s.channel.connection ≠ n) :
    Leaves n w (w.teardown owner).1 := by
  rw [teardown_eq]
  refine foldl_parted_keeps (I := Leaves n w) ?_ ?_ (w.apply (.disown owner), 0)
    (.same n rfl rfl rfl rfl)
  · intro w' s hs hcloses hw
    exact hw.trans (.of_ends (closeSession_ends w' (hown s hs)) (hapart s hs hcloses).symm)
  · exact fun w' s hw => hw.trans (.same n rfl rfl rfl rfl)

/-- What is held by none of them stays in place. -/
theorem teardown_intact {item : Detach} (hown : ∀ s ∈ w.sessionsOf owner, s.holder.Own)
    (hfree : ∀ s ∈ w.sessionsOf owner, s.teardown = true → item ∉ s.holder.items ∧
      ∀ n id, item = .listener n id → n ≠ s.channel.connection) (hintact : w.Intact item) :
    (w.teardown owner).1.Intact item := by
  rw [teardown_eq]
  have hdisowned : (w.apply (.disown owner)).Intact item := hintact.apply trivial
  refine foldl_parted_keeps (I := fun w => w.Intact item) ?_ ?_
    (w.apply (.disown owner), 0) hdisowned
  · intro w' s hs hcloses hw
    obtain ⟨hitem, hother⟩ := hfree s hs hcloses
    exact (closeSession_ends w' (hown s hs)).keeps (I := fun w => w.Intact item)
      (fun _ _ hch hw => hw.ends hch hitem hother) hw
  · intro w' s hw
    have houtlives : (w'.apply (.outlive s)).Intact item := hw.apply trivial
    exact houtlives

/-- So it is when the engine is shut down. -/
theorem shutdown_leaves (hown : ∀ s ∈ w.sessions, s.holder.Own)
    (hapart : ∀ s ∈ w.sessions, s.channel.connection ≠ n) : Leaves n w w.shutdown := by
  have hclosed (ended : List Session) (hsub : ended ⊆ w.sessions) (w' : World)
    (hw : Leaves n w w') :
      Leaves n w (ended.foldl closeSession w') := by
    induction ended generalizing w' with
    | nil => exact hw
    | cons first rest ih =>
      have hfirst := hsub List.mem_cons_self
      refine ih (fun s hs => hsub (List.mem_cons_of_mem _ hs)) _ ?_
      exact hw.trans
        (.of_ends (closeSession_ends w' (hown first hfirst)) (hapart first hfirst).symm)
  exact hclosed w.sessions (List.Subset.refl _) (w.apply .disownAll) (.same n rfl rfl rfl rfl)

/-- And all sessions are over. -/
theorem shutdown_over (hlisted : w.Listed) (hown : ∀ s ∈ w.sessions, s.holder.Own) :
    ∀ s ∈ w.sessions, Over s w.shutdown := by
  have hclosed (ended : List Session) (hsub : ended ⊆ w.sessions) (w' : World)
    (hlisted : w'.Listed) :
      Makes Change.Detaches w' (ended.foldl closeSession w') ∧
        Sheds w' (ended.foldl closeSession w') ∧
          ∀ s ∈ ended, Over s (ended.foldl closeSession w') := by
    induction ended generalizing w' with
    | nil => exact ⟨.nothing, .refl _, fun s hs => absurd hs List.not_mem_nil⟩
    | cons first rest ih =>
      have hmakes := closeSession_makes w' first
      obtain ⟨hlater, hsheds, hover⟩ :=
        ih (fun s hs => hsub (List.mem_cons_of_mem _ hs)) (w'.closeSession first)
          (hlisted.makes hmakes)
      have hfirst : Sheds w' (w'.closeSession first) :=
        .of_ends (closeSession_ends w' (hown first (hsub List.mem_cons_self)))
      refine ⟨hmakes.trans hlater, hfirst.trans hsheds, List.forall_mem_cons.2 ⟨?_, hover⟩⟩
      exact (closeSession_over hlisted first).later hsheds hlater
  exact (hclosed w.sessions (List.Subset.refl _) (w.apply .disownAll) (hlisted.apply _)).2.2

theorem teardown_count (w : World) (owner : ComponentId) :
    (w.teardown owner).2 = (w.sessionsOf owner).countP (·.teardown) := by
  have hfold (ended : List Session) (acc : World × Nat) :
      (ended.foldl parted acc).2 = acc.2 + ended.countP (·.teardown) := by
    induction ended generalizing acc with
    | nil => rfl
    | cons first rest ih =>
      rw [List.foldl_cons, ih, List.countP_cons]
      rcases parted_cases acc first with ⟨hcloses, heq⟩ | ⟨hstays, heq⟩
      · simp [heq, hcloses]
        omega
      · simp [heq, hstays]
  rw [teardown_eq, hfold]
  exact Nat.zero_add _

/-! Who is left -/

theorem Makes.owned (h : Makes Change.Still w w') :
    w'.owned = w.owned ∧ w'.detached = w.detached :=
  h.keeps (I := fun w' => w'.owned = w.owned ∧ w'.detached = w.detached)
    (fun w' _ hch hw => ⟨(apply_owned w' hch).1.trans hw.1, (apply_owned w' hch).2.trans hw.2⟩)
    ⟨rfl, rfl⟩

/-- The component has no session any more; those that outlive it are kept apart. -/
theorem teardown_owned (w : World) (owner : ComponentId) :
    (w.teardown owner).1.owned = w.owned.filter (·.1 != owner) ∧
      (w.teardown owner).1.detached =
        w.detached ++ (w.sessionsOf owner).filter (!·.teardown) := by
  have hfold (ended : List Session) (acc : World × Nat) :
      (ended.foldl parted acc).1.owned = acc.1.owned ∧
        (ended.foldl parted acc).1.detached = acc.1.detached ++ ended.filter (!·.teardown) := by
    induction ended generalizing acc with
    | nil => simp
    | cons first rest ih =>
      obtain ⟨howned, hdetached⟩ := ih (parted acc first)
      rw [List.foldl_cons, howned, hdetached]
      rcases parted_cases acc first with ⟨hcloses, heq⟩ | ⟨hstays, heq⟩ <;> rw [heq]
      · have hsame := ((closeSession_makes acc.1 first).mono fun _ hc => hc.still).owned
        simp only [hsame, List.filter_cons, hcloses, Bool.not_true, Bool.false_eq_true, ↓reduceIte,
          and_self]
      · simp only [apply, List.filter_cons, hstays, Bool.not_false, ↓reduceIte, List.append_assoc,
          List.singleton_append, and_self]
  rw [teardown_eq]
  exact hfold _ _

theorem sessionsOf_teardown (w : World) (owner : ComponentId) :
    (w.teardown owner).1.sessionsOf owner = [] := by
  have hnone : (w.owned.filter (·.1 != owner)).lookup owner = none := by
    refine List.lookup_eq_none_iff.2 fun entry hentry => bne_iff_ne.2 ?_
    exact (bne_iff_ne.1 (List.mem_filter.1 hentry).2).symm
  rw [sessionsOf, (teardown_owned w owner).1, hnone]
  rfl

end World

end Patchbay
