import Patchbay.Proofs.Engine.Connections

/-!
What a session or a connect request on its way has attached: its listeners, and its token with those
of its emitBacks. Nothing is held by two of them, so undoing one of them leaves the others' as they
are, and while a connection is open all that is held on it is there.
-/

namespace Patchbay

/-- Who has attached things to a connection, under a token. -/
structure Holder where
  connection : Nat
  token : Token
  attached : List Detach

namespace Holder

def items (h : Holder) : List Detach := .token h.token :: h.attached

/-- Later the same holder may have attached more. -/
structure Grows (old hd : Holder) : Prop where
  connection : hd.connection = old.connection
  token : hd.token = old.token
  attached : old.attached ⊆ hd.attached

theorem Grows.refl (hd : Holder) : hd.Grows hd := ⟨rfl, rfl, List.Subset.refl _⟩

end Holder

/-- A change that takes nothing away that was attached for good. -/
def Change.Spares : Change → Prop
  | .cancel _ | .hush .. => False
  | _ => True

namespace Change

theorem Among.spares {c : Change} (h : c.Among (Kind.but [.cancel, .hush])) : c.Spares := by
  cases c <;> first | exact trivial | exact h.elim

theorem Stirs.spares {c : Change} (h : c.Stirs) : c.Spares := Among.spares (h.mono rfl)

variable (w : World) (n : Nat) (ch : Change) (c : Connection)

theorem next_le_reshape : c.listeners.next ≤ (ch.reshape w n c).listeners.next := by
  rcases ch.reshape_listeners w n c with ⟨l, -, hadded⟩ | ⟨hsame, -⟩
  · rw [hadded]
    exact Nat.le_succ _
  · exact Nat.le_of_eq hsame.symm

theorem mem_reshape {l : Listener Reaction} (h : ch.Spares) (hl : l ∈ c.listeners.entries)
    (hlasts : l.once = false) : l ∈ (ch.reshape w n c).listeners.entries := by
  cases ch with
  | hush => exact h.elim
  | spend serial event =>
    simp only [reshape]
    split
    · exact List.mem_filter.2 ⟨hl, by simp [hlasts]⟩
    · exact hl
  | _ =>
    simp only [reshape]
    first
    | exact hl
    | (split <;> first | exact hl | exact List.mem_append_left _ hl)

end Change

namespace World

variable {w w' : World} {hs : List Holder} {gone : Nat → Prop} {n : Nat}

/-- What is on the connection may be gone: it is not open, or the application takes listeners off
as it likes. -/
def Lost (w : World) (muted : Bool) (n : Nat) : Prop := (!muted && w.isConnected n) = false

theorem lost_of_not_connected (muted : Bool) (h : w.isConnected n = false) : w.Lost muted n := by
  rw [Lost, h, Bool.and_false]

theorem Lost.makes {P : Change → Prop} {muted : Bool} (h : w.Lost muted n) (hopened : w.Opened n)
    (hmakes : Makes P w w') : w'.Lost muted n := by
  cases muted with
  | true => rfl
  | false =>
    refine lost_of_not_connected false (Bool.eq_false_iff.2 fun hlive => ?_)
    have hdown : w.isConnected n = false := h
    rw [hopened.isConnected_of_makes hmakes hlive] at hdown
    cases hdown

/-- The number or token was given out. -/
def Given (w : World) : Detach → Prop
  | .token t => t < w.tokens
  | .listener n id => ∃ c, w.connection? n = some c ∧ id < c.listeners.next

/-- What was attached is still there. -/
def Intact (w : World) : Detach → Prop
  | .token t => w.isCancelled t = false
  | .listener n id => ∃ c l, w.connection? n = some c ∧ l ∈ c.listeners.entries ∧ l.id = id ∧
    l.once = false

theorem Given.apply {item : Detach} (h : w.Given item) (ch : Change) : (w.apply ch).Given item := by
  cases item with
  | token t => exact Nat.lt_of_lt_of_le h (apply_tokens w ch).1
  | listener n id =>
    obtain ⟨c, hc, hid⟩ := h
    exact ⟨_, connection?_apply hc ch, Nat.lt_of_lt_of_le hid (Change.next_le_reshape w n ch c)⟩

theorem Intact.apply {item : Detach} (h : w.Intact item) {ch : Change} (hch : ch.Spares) :
    (w.apply ch).Intact item := by
  cases item with
  | token t =>
    have hsame : (w.apply ch).cancelled = w.cancelled :=
      apply_cancelled w (by rintro t rfl; exact hch)
    unfold Intact isCancelled at h ⊢
    rwa [hsame]
  | listener n id =>
    obtain ⟨c, l, hc, hl, hid, hlasts⟩ := h
    exact ⟨_, l, connection?_apply hc ch, Change.mem_reshape w n ch c hch hl hlasts, hid, hlasts⟩

/-- Nothing is held twice, and what is held on a connection that is not gone is there. -/
structure Held (gone : Nat → Prop) (hs : List Holder) (w : World) : Prop where
  nodup : (hs.flatMap (·.items)).Nodup
  opened : ∀ h ∈ hs, w.Opened h.connection
  own : ∀ h ∈ hs, ∀ n id, .listener n id ∈ h.items → n = h.connection
  given : ∀ h ∈ hs, ∀ item ∈ h.items, w.Given item
  spent : ∀ t ∈ w.cancelled, t < w.tokens
  intact : ∀ h ∈ hs, ¬ gone h.connection → ∀ item ∈ h.items, w.Intact item

namespace Held

variable {muted : Bool}

theorem spares (h : Held gone hs w) {ch : Change} (hch : ch.Spares) :
    Held gone hs (w.apply ch) where
  nodup := h.nodup
  opened hd hhd := (h.opened hd hhd).apply ch
  own := h.own
  given hd hhd item hitem := (h.given hd hhd item hitem).apply ch
  spent := by
    rw [apply_cancelled w (by rintro t rfl; exact hch)]
    intro t ht
    exact Nat.lt_of_lt_of_le (h.spent t ht) (apply_tokens w ch).1
  intact hd hhd hstays item hitem := (h.intact hd hhd hstays item hitem).apply hch

theorem makes (h : Held gone hs w) (hmakes : Makes Change.Spares w w') : Held gone hs w' :=
  hmakes.keeps (fun _ _ hch hw => hw.spares hch) h

/-- Connections that are gone stay gone. -/
theorem renew {P : Change → Prop} (h : Held (w.Lost muted) hs w') (hmakes : Makes P w w')
    (hopened : ∀ hd ∈ hs, w.Opened hd.connection) : Held (w'.Lost muted) hs w' where
  nodup := h.nodup
  opened := h.opened
  own := h.own
  given := h.given
  spent := h.spent
  intact hd hhd hstays :=
    h.intact hd hhd fun hlost => hstays (hlost.makes (hopened hd hhd) hmakes)

theorem perm {hs' : List Holder} (h : Held gone hs w) (hperm : hs'.Perm hs) : Held gone hs' w where
  nodup := (hperm.flatMap_right _).nodup_iff.2 h.nodup
  opened hd hhd := h.opened hd (hperm.subset hhd)
  own hd hhd := h.own hd (hperm.subset hhd)
  given hd hhd := h.given hd (hperm.subset hhd)
  spent := h.spent
  intact hd hhd := h.intact hd (hperm.subset hhd)

/-- The others hold what they held when one is forgotten. -/
theorem tail {hd : Holder} (h : Held gone (hd :: hs) w) : Held gone hs w where
  nodup := by
    have hnodup := h.nodup
    rw [List.flatMap_cons] at hnodup
    exact (List.nodup_append.1 hnodup).2.1
  opened hd' hhd' := h.opened hd' (List.mem_cons_of_mem _ hhd')
  own hd' hhd' := h.own hd' (List.mem_cons_of_mem _ hhd')
  given hd' hhd' := h.given hd' (List.mem_cons_of_mem _ hhd')
  spent := h.spent
  intact hd' hhd' := h.intact hd' (List.mem_cons_of_mem _ hhd')

/-- What the first holds no other does. -/
theorem apart {hd : Holder} (h : Held gone (hd :: hs) w) {item : Detach} (hitem : item ∈ hd.items) :
    ∀ hd' ∈ hs, item ∉ hd'.items := by
  have hnodup := h.nodup
  rw [List.flatMap_cons] at hnodup
  intro hd' hhd' hitem'
  exact (List.nodup_append.1 hnodup).2.2 item hitem item
    (List.mem_flatMap.2 ⟨hd', hhd', hitem'⟩) rfl

/-- What one holds another does not. -/
theorem disjoint (h : Held gone hs w) {hd hd' : Holder} (hhd : hd ∈ hs) (hhd' : hd' ∈ hs)
    (hne : hd ≠ hd') {item : Detach} (hitem : item ∈ hd.items) : item ∉ hd'.items := by
  obtain ⟨before, after, rfl⟩ := List.append_of_mem hhd
  have hfront : Held gone (hd :: (before ++ after)) w := h.perm List.perm_middle.symm
  refine hfront.apart hitem hd' ?_
  exact List.mem_of_ne_of_mem hne.symm (List.perm_middle.subset hhd')

theorem idle (h : Held gone hs w) (hconnections : w'.connections = w.connections)
    (htokens : w'.tokens = w.tokens) (hcancelled : w'.cancelled = w.cancelled) :
    Held gone hs w' := by
  have hsame (n : Nat) : w'.connection? n = w.connection? n := connection?_congr hconnections n
  refine ⟨h.nodup, ?_, h.own, ?_, ?_, ?_⟩
  · intro hd hhd
    obtain ⟨c, hc⟩ := h.opened hd hhd
    exact ⟨c, (hsame _).trans hc⟩
  · intro hd hhd item hitem
    have hgiven := h.given hd hhd item hitem
    cases item with
    | token t =>
      unfold Given at hgiven ⊢
      rwa [htokens]
    | listener n id =>
      simpa only [Given, hsame] using hgiven
  · rw [hcancelled, htokens]
    exact h.spent
  · intro hd hhd hstays item hitem
    have hintact := h.intact hd hhd hstays item hitem
    cases item with
    | token t =>
      unfold Intact isCancelled at hintact ⊢
      rwa [hcancelled]
    | listener n id =>
      simpa only [Intact, hsame] using hintact

/-! Attaching -/

/-- The next token is not cancelled. -/
theorem next_intact (h : Held gone hs w) : w.Intact (.token w.tokens) := by
  refine Bool.eq_false_iff.2 ?_
  intro hcancelled
  exact absurd (h.spent _ (List.contains_iff_mem.1 hcancelled)) (Nat.lt_irrefl _)

/-- A new holder has a new token. -/
theorem enter (h : Held gone hs w) (hopened : w.Opened n) :
    Held gone (⟨n, w.tokens, []⟩ :: hs) (w.apply .newToken) := by
  have hnew : ∀ hd ∈ hs, .token w.tokens ∉ hd.items := fun hd hhd hitem =>
    absurd (h.given hd hhd _ hitem) (Nat.lt_irrefl _)
  have hfresh : (w.apply .newToken).Intact (.token w.tokens) := h.next_intact.apply trivial
  have hafter : Held gone hs (w.apply .newToken) := h.spares trivial
  refine ⟨?_, ?_, ?_, ?_, hafter.spent, ?_⟩
  · rw [List.flatMap_cons]
    refine List.nodup_cons.2 ⟨?_, h.nodup⟩
    intro hmem
    obtain ⟨hd, hhd, hitem⟩ := List.mem_flatMap.1 hmem
    exact hnew hd hhd hitem
  · exact List.forall_mem_cons.2 ⟨hopened.apply _, hafter.opened⟩
  · refine List.forall_mem_cons.2 ⟨?_, hafter.own⟩
    intro n id hitem
    cases List.mem_singleton.1 hitem
  · refine List.forall_mem_cons.2 ⟨?_, hafter.given⟩
    intro item hitem
    rw [List.mem_singleton.1 hitem]
    exact Nat.lt_succ_self _
  · refine List.forall_mem_cons.2 ⟨?_, hafter.intact⟩
    intro _ item hitem
    rw [List.mem_singleton.1 hitem]
    exact hfresh

/-- What comes new with a change goes to one holder. -/
theorem gain {hd : Holder} (h : Held gone (hd :: hs) w) {ch : Change} (hch : ch.Spares)
    {item : Detach} (hnew : ¬ w.Given item) (hgiven : (w.apply ch).Given item)
    (hintact : (w.apply ch).Intact item)
    (hown : ∀ n id, item = .listener n id → n = hd.connection) :
    Held gone ({ hd with attached := hd.attached ++ [item] } :: hs) (w.apply ch) := by
  have hafter := h.spares hch
  have hmem {item' : Detach}
      (hitem : item' ∈ ({ hd with attached := hd.attached ++ [item] } : Holder).items) :
      item' ∈ hd.items ∨ item' = item := by
    simpa [Holder.items, or_assoc] using hitem
  refine ⟨?_, ?_, ?_, ?_, hafter.spent, ?_⟩
  · have hperm : (({ hd with attached := hd.attached ++ [item] } :: hs).flatMap (·.items)).Perm
        (item :: (hd :: hs).flatMap (·.items)) := by
      simp only [List.flatMap_cons, Holder.items]
      exact ((List.perm_append_singleton item (.token hd.token :: hd.attached)).append_right _)
    rw [hperm.nodup_iff]
    refine List.nodup_cons.2 ⟨?_, h.nodup⟩
    intro hitem
    obtain ⟨hd', hhd', hitem'⟩ := List.mem_flatMap.1 hitem
    exact hnew (h.given hd' hhd' item hitem')
  · exact List.forall_mem_cons.2 (List.forall_mem_cons.1 hafter.opened)
  · obtain ⟨hfirst, hrest⟩ := List.forall_mem_cons.1 hafter.own
    refine List.forall_mem_cons.2 ⟨?_, hrest⟩
    intro n id hitem
    rcases hmem hitem with hold | heq
    · exact hfirst n id hold
    · exact hown n id heq.symm
  · obtain ⟨hfirst, hrest⟩ := List.forall_mem_cons.1 hafter.given
    refine List.forall_mem_cons.2 ⟨?_, hrest⟩
    intro item' hitem
    rcases hmem hitem with hold | rfl
    · exact hfirst item' hold
    · exact hgiven
  · obtain ⟨hfirst, hrest⟩ := List.forall_mem_cons.1 hafter.intact
    refine List.forall_mem_cons.2 ⟨?_, hrest⟩
    intro hstays item' hitem
    rcases hmem hitem with hold | rfl
    · exact hfirst hstays item' hold
    · exact hintact

/-! Undoing -/

theorem cancelled_cancel (w : World) (t : Token) :
    (w.apply (.cancel t)).cancelled ⊆ t :: w.cancelled := by
  rw [(apply_woken w (.cancel t)).eq]
  simp only [effect]
  split
  · exact List.subset_cons_self _ _
  · exact List.Subset.refl _

theorem cancel (h : Held gone hs w) {t : Token} (hgiven : w.Given (.token t))
    (hfree : ∀ hd ∈ hs, .token t ∉ hd.items) : Held gone hs (w.apply (.cancel t)) := by
  have htokens := (apply_tokens w (.cancel t)).1
  refine ⟨h.nodup, ?_, h.own, ?_, ?_, ?_⟩
  · exact fun hd hhd => (h.opened hd hhd).apply _
  · exact fun hd hhd item hitem => (h.given hd hhd item hitem).apply _
  · intro t' ht'
    rcases List.mem_cons.1 (cancelled_cancel w t ht') with rfl | hold
    · exact Nat.lt_of_lt_of_le hgiven htokens
    · exact Nat.lt_of_lt_of_le (h.spent t' hold) htokens
  · intro hd hhd hstays item hitem
    have hintact := h.intact hd hhd hstays item hitem
    cases item with
    | token t' =>
      refine Bool.eq_false_iff.2 ?_
      intro hcancelled
      rcases List.mem_cons.1
        (cancelled_cancel w t (List.contains_iff_mem.1 hcancelled)) with rfl | hold
      · exact hfree hd hhd hitem
      · exact absurd (List.contains_iff_mem.2 hold) (Bool.eq_false_iff.1 hintact)
    | listener n id =>
      obtain ⟨c, l, hc, hl, hrest⟩ := hintact
      exact ⟨c, l, connection?_apply hc _, hl, hrest⟩

theorem hush (h : Held gone hs w) {serial : Nat} {out : Listener Reaction → Bool}
    (hout : ∀ hd ∈ hs, ¬ gone hd.connection → ∀ l : Listener Reaction,
      .listener serial l.id ∈ hd.items → out l = false) :
    Held gone hs (w.apply (.hush serial out)) where
  nodup := h.nodup
  opened hd hhd := (h.opened hd hhd).apply _
  own := h.own
  given hd hhd item hitem := (h.given hd hhd item hitem).apply _
  spent := h.spent
  intact hd hhd hstays item hitem := by
    have hintact := h.intact hd hhd hstays item hitem
    cases item with
    | token t => exact hintact
    | listener n id =>
      obtain ⟨c, l, hc, hl, rfl, hlasts⟩ := hintact
      refine ⟨_, l, connection?_apply hc _, ?_, rfl, hlasts⟩
      simp only [Change.reshape]
      split
      · rename_i hn
        refine List.mem_filter.2 ⟨hl, ?_⟩
        rw [hout hd hhd hstays l (hn ▸ hitem)]
        rfl
      · exact hl

/-- What nobody else holds may be undone. -/
theorem detach (h : Held gone hs w) {s : Subscription Detach}
    (hfree : ∀ item ∈ s.undo, w.Given item ∧ ∀ hd ∈ hs, item ∉ hd.items) :
    Held gone hs (w.detach s) := by
  unfold World.detach
  split
  · exact h
  · rename_i serial id hundo
    refine Held.makes ?_ ((removeListeners_eq w serial _).mono fun _ hc => hc.spares)
    refine h.hush ?_
    intro hd hhd _ l hitem
    refine Bool.eq_false_iff.2 ?_
    intro heq
    rw [eq_of_beq heq] at hitem
    exact (hfree _ hundo).2 hd hhd hitem
  · rename_i t hundo
    exact h.cancel (hfree _ hundo).1 (hfree _ hundo).2

theorem detachAll (h : Held gone hs w) {subscriptions : List (Subscription Detach)}
    (hfree : ∀ item ∈ subscriptions.filterMap (·.undo), w.Given item ∧ ∀ hd ∈ hs, item ∉ hd.items) :
    Held gone hs (w.detachAll subscriptions) := by
  induction subscriptions generalizing w with
  | nil => exact h
  | cons s rest ih =>
    have hfirst := h.detach (s := s) fun item hitem =>
      hfree item (List.mem_filterMap.2 ⟨s, List.mem_cons_self, hitem⟩)
    refine ih hfirst ?_
    intro item hitem
    obtain ⟨s', hs', hundo⟩ := List.mem_filterMap.1 hitem
    obtain ⟨hgiven, hrest⟩ :=
      hfree item (List.mem_filterMap.2 ⟨s', List.mem_cons_of_mem _ hs', hundo⟩)
    have hkept : (w.detach s).Given item :=
      (detach_makes w s).keeps (I := fun w => w.Given item)
        (fun _ ch _ hw => Given.apply hw ch) hgiven
    exact ⟨hkept, hrest⟩

/-- What is dropped with a connection is gone anyway, and nothing else goes. -/
theorem drops (h : Held gone hs w) (hgone : gone n) (hmakes : Makes (Change.Drops n) w w') :
    Held gone hs w' := by
  refine hmakes.keeps (I := Held gone hs) ?_ h
  intro w ch hch hw
  cases ch with
  | hush m out =>
    obtain rfl : m = n := hch
    refine hw.hush ?_
    intro hd hhd hstays l hitem
    exact absurd (hw.own hd hhd m l.id hitem ▸ hgone) hstays
  | _ => first | exact hch.elim | exact hw.spares trivial

/-- A discarded connection takes along what is held on it, and nothing else. -/
theorem discard (h : Held (w.Lost muted) hs w) (n : Nat) :
    Held ((w.discard n).Lost muted) hs (w.discard n) := by
  have hclosing : Held (fun m => m = n ∨ w.Lost muted m) hs w :=
    { h with intact := fun hd hhd hstays => h.intact hd hhd fun hlost => hstays (.inr hlost) }
  have hdiscarded := hclosing.drops (.inl rfl) (discard_drops w n)
  refine { hdiscarded with intact := ?_ }
  intro hd hhd hstays
  refine hdiscarded.intact hd hhd ?_
  rintro (rfl | hlost)
  · exact hstays (lost_of_not_connected muted (isConnected_discard ..))
  · exact hstays (hlost.makes (h.opened hd hhd) (discard_makes w n))

/-- A holder is undone with all it has attached. -/
theorem release {hd : Holder} (h : Held gone (hd :: hs) w)
    {subscriptions : List (Subscription Detach)}
    (hattached : subscriptions.filterMap (·.undo) = hd.attached) :
    Held gone hs ((w.detachAll subscriptions).cancel hd.token) := by
  have hheld {item : Detach} (hitem : item ∈ hd.items) :
      w.Given item ∧ ∀ hd' ∈ hs, item ∉ hd'.items :=
    ⟨h.given hd List.mem_cons_self item hitem, h.apart hitem⟩
  have hdetached : Held gone hs (w.detachAll subscriptions) := by
    refine h.tail.detachAll ?_
    intro item hitem
    exact hheld (List.mem_cons_of_mem _ (hattached ▸ hitem))
  obtain ⟨hgiven, hfree⟩ := hheld (show .token hd.token ∈ hd.items from List.mem_cons_self)
  refine hdetached.cancel ?_ hfree
  exact (detachAll_makes w subscriptions).keeps (I := fun w => w.Given _)
    (fun _ ch _ hw => Given.apply hw ch) hgiven

end Held

end World

end Patchbay
