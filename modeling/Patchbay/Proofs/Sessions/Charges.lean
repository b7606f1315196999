import Patchbay.Proofs.Sessions.Closing

/-!
Who answers for a connection. The request for which it was opened does as long as it waits for the
peer's API, and then the session that has come of it; whoever gets it later joins them. What is
open, registered or kept without anybody to answer for it would stay for ever.
-/

namespace Patchbay

/-- One who answers for a connection. -/
structure Charge where
  connection : Nat
  token : Token
  owner : ComponentId
  teardown : Bool

def Session.charge (s : Session) : Charge := ⟨s.channel.connection, s.token, s.owner, s.teardown⟩

def Connecting.charge (c : Connecting) : Charge :=
  ⟨c.pass.channel.connection, c.pass.token, c.pass.owner, c.resolved.teardown⟩

/-- A request answers for the connection that was opened for it, not for one that was kept. -/
def Connecting.charge? (c : Connecting) : Option Charge := if c.reused then none else some c.charge

/-- The charge of a connect request that opens a connection. -/
def Moment.opener? (m : Moment) : Option Charge :=
  match m.job, m.grant? with
  | .connect _ _ owner _, some g =>
    if g.reused then none else some ⟨g.serial, m.world.tokens, owner, g.resolved.teardown⟩
  | _, _ => none

namespace Moment

variable {m : Moment} {ticket : Nat} {name : String} {owner : ComponentId} {opts : ConnectOptions}

theorem opener?_of_grant {g : Grant} (hjob : m.job = .connect ticket name owner opts)
    (hg : m.grant? = some g) : m.opener? =
      if g.reused then none else some ⟨g.serial, m.world.tokens, owner, g.resolved.teardown⟩ := by
  simp only [opener?, hjob, hg]

theorem opener?_of_refused (hg : m.grant? = none) : m.opener? = none := by
  simp [opener?, hg]

theorem opener?_of_idle (h : ∀ ticket name owner opts, m.job ≠ .connect ticket name owner opts) :
    m.opener? = none := by
  unfold opener?
  split
  · rename_i hjob _
    exact absurd hjob (h _ _ _ _)
  · rfl

end Moment

/-- A change that registers nothing, fills no slot, and lets no session or waiting request come or
go. -/
def Change.Minds : Change → Prop
  | .register .. | .keep .. => False
  | c => c.Still

namespace Change

variable {c : Change}

theorem Among.minds (h : c.Among (Kind.but [.register, .keep, .track, .disown, .outlive, .disownAll,
    .spawn])) : c.Minds := by
  cases c <;> first | exact trivial | exact h.elim

theorem Minds.still (h : c.Minds) : c.Still := by
  cases c <;> first | exact h | exact h.elim

theorem Works.minds (h : c.Works) : c.Minds := by
  cases c <;> first | exact h.elim | exact trivial | exact h

theorem Detaches.minds (h : c.Detaches) : c.Minds := Among.minds (h.mono rfl)

theorem Hushes.minds (h : c.Hushes) : c.Minds := Among.minds (h.mono rfl)

theorem Evicts.minds (h : c.Evicts) : c.Minds := Among.minds (h.mono rfl)

end Change

namespace World

variable {w w' : World} {openers front front' : List Charge} {ch : Change} {a : Charge}
  {s : Session} {owner : ComponentId}

/-! Sessions and their components -/

/-- Each component is listed once, with sessions of its own, and those that outlived a component
were to do so. -/
structure Rostered (w : World) : Prop where
  once : (w.owned.map (·.1)).Nodup
  own : ∀ entry ∈ w.owned, ∀ s ∈ entry.2, s.owner = entry.1
  spared : ∀ s ∈ w.detached, s.teardown = false

namespace Rostered

theorem congr (h : w.Rostered) (howned : w'.owned = w.owned)
    (hdetached : w'.detached = w.detached) :
    w'.Rostered :=
  ⟨howned ▸ h.once, howned ▸ h.own, hdetached ▸ h.spared⟩

theorem track (h : w.Rostered) (s : Session) : (w.apply (.track s)).Rostered where
  once := (track_sessions h.once s).2
  own := by
    intro entry hentry s' hs'
    simp only [apply, World.track] at hentry
    split at hentry
    · rcases List.mem_append.1 hentry with hold | hnew
      · exact h.own entry hold s' hs'
      · obtain rfl := List.mem_singleton.1 hnew
        rw [List.mem_singleton.1 hs']
    · obtain ⟨⟨o, sessions⟩, hmem, rfl⟩ := List.mem_map.1 hentry
      by_cases ho : o = s.owner
      · simp only [ho, ↓reduceIte] at hs' ⊢
        rcases List.mem_append.1 hs' with hold | hnew
        · exact (h.own _ hmem s' hold).trans ho
        · rw [List.mem_singleton.1 hnew]
      · simp only [ho, ↓reduceIte] at hs' ⊢
        exact h.own _ hmem s' hs'
  spared := by
    simp only [apply]
    obtain ⟨owned, heq⟩ := track_eq w s
    rw [heq]
    exact h.spared

theorem disown (h : w.Rostered) (owner : ComponentId) : (w.apply (.disown owner)).Rostered where
  once := (List.filter_sublist.map _).nodup h.once
  own entry hentry := h.own entry (List.mem_filter.1 hentry).1
  spared := h.spared

theorem outlive (h : w.Rostered) (hs : s.teardown = false) : (w.apply (.outlive s)).Rostered where
  once := h.once
  own := h.own
  spared s' hs' := by
    rcases List.mem_append.1 hs' with hold | hnew
    · exact h.spared s' hold
    · exact List.mem_singleton.1 hnew ▸ hs

theorem disownAll (w : World) : (w.apply .disownAll).Rostered where
  once := List.nodup_nil
  own _ hentry := absurd hentry List.not_mem_nil
  spared _ hs := absurd hs List.not_mem_nil

theorem sessionsOf_subset (h : w.Rostered) (owner : ComponentId) :
    w.sessionsOf owner ⊆ w.sessions := fun _ hs =>
  (disown_sessions h.once owner).subset (List.mem_append_left _ hs)

/-- Unless it was to outlive its component a session stands with it. -/
theorem mem_sessionsOf (h : w.Rostered) (hs : s ∈ w.sessions) (hteardown : s.teardown = true) :
    s ∈ w.sessionsOf s.owner := by
  rcases List.mem_append.1 hs with howned | hdetached
  · obtain ⟨⟨o, sessions⟩, hentry, hmem⟩ := List.mem_flatMap.1 howned
    obtain rfl : s.owner = o := h.own _ hentry s hmem
    rw [sessionsOf, lookup_of_mem h.once hentry]
    exact hmem
  · rw [h.spared s hdetached] at hteardown
    cases hteardown

end Rostered

/-! Everything has somebody to answer for it -/

/-- All that answer for connections now. -/
def charges (w : World) : List Charge :=
  w.waiting.filterMap Connecting.charge? ++ w.sessions.map Session.charge

theorem mem_charges : a ∈ w.charges ↔
    (∃ c ∈ w.waiting, c.charge? = some a) ∨ ∃ s ∈ w.sessions, s.charge = a := by
  simp only [charges, List.mem_append, List.mem_filterMap, List.mem_map]

/-- Whoever opened a connection answers for it as long as it is open, and for all that is registered
or kept somebody answers; those named in front count with the others. -/
structure Minded (openers front : List Charge) (w : World) : Prop where
  listed : w.Listed
  roster : w.Rostered
  opened : ∀ a ∈ openers, w.Opened a.connection
  live : ∀ a ∈ openers, w.isConnected a.connection = true → a ∈ front ++ w.charges
  registered : ∀ r ∈ w.registry.log, ∃ a ∈ front ++ w.charges, r.via = .opened a.connection
  kept : ∀ entry ∈ w.persisted, ∃ a ∈ front ++ w.charges, entry.2 = a.connection

theorem charges_perm (hwaiting : w'.waiting.Perm w.waiting) (howned : w'.owned = w.owned)
    (hdetached : w'.detached = w.detached) : w'.charges.Perm w.charges := by
  simp only [charges, sessions, howned, hdetached]
  exact (hwaiting.filterMap _).append_right _

theorem Makes.charges (h : Makes Change.Still w w') : w'.charges.Perm w.charges :=
  charges_perm (h.waiting fun _ hjob => hjob) h.owned.1 h.owned.2

namespace Minded

/-- The same connections, slots and registrations may be answered for by others. -/
theorem regroup (h : Minded openers front w) (hconnections : w'.connections = w.connections)
    (hhub : w'.hub = w.hub) (hregistry : w'.registry = w.registry)
    (hpersisted : w'.persisted = w.persisted) (hroster : w'.Rostered)
    (hsub : front ++ w.charges ⊆ front' ++ w'.charges) : Minded openers front' w' where
  listed n hn := by
    rw [isConnected_congr hconnections]
    exact h.listed n (hhub ▸ hn)
  roster := hroster
  opened a ha := by
    obtain ⟨c, hc⟩ := h.opened a ha
    exact ⟨c, (connection?_congr hconnections _).trans hc⟩
  live a ha hlive := by
    rw [isConnected_congr hconnections] at hlive
    exact hsub (h.live a ha hlive)
  registered r hr := by
    obtain ⟨a, ha, hvia⟩ := h.registered r (hregistry ▸ hr)
    exact ⟨a, hsub ha, hvia⟩
  kept entry hentry := by
    obtain ⟨a, ha, hheld⟩ := h.kept entry (hpersisted ▸ hentry)
    exact ⟨a, hsub ha, hheld⟩

/-- More may be named in front. -/
theorem enlist (h : Minded openers front w) (hsub : front ⊆ front') : Minded openers front' w :=
  h.regroup rfl rfl rfl rfl h.roster
    (List.append_subset.2 ⟨List.Subset.trans hsub (List.subset_append_left _ _),
      List.subset_append_right _ _⟩)

/-- What comes new is answered for by those who are there. -/
theorem later (h : Minded openers front w) (hmakes : Makes Change.Still w w')
    (hregistered : ∀ r ∈ w'.registry.log, r ∈ w.registry.log ∨
      ∃ a ∈ front ++ w.charges, r.via = .opened a.connection)
    (hkept : ∀ entry ∈ w'.persisted, entry ∈ w.persisted ∨
      ∃ a ∈ front ++ w.charges, entry.2 = a.connection) : Minded openers front w' := by
  have hsame {a : Charge} (ha : a ∈ front ++ w.charges) : a ∈ front ++ w'.charges :=
    (hmakes.charges.symm.append_left front).subset ha
  constructor
  · exact h.listed.makes hmakes
  · exact h.roster.congr hmakes.owned.1 hmakes.owned.2
  · exact fun a ha => (h.opened a ha).makes hmakes
  · exact fun a ha hlive => hsame (h.live a ha ((h.opened a ha).isConnected_of_makes hmakes hlive))
  · intro r hr
    obtain ⟨a, ha, hvia⟩ := (hregistered r hr).elim (h.registered r) id
    exact ⟨a, hsame ha, hvia⟩
  · intro entry hentry
    obtain ⟨a, ha, hheld⟩ := (hkept entry hentry).elim (h.kept entry) id
    exact ⟨a, hsame ha, hheld⟩

theorem makes {P : Change → Prop} (h : Minded openers front w) (hmakes : Makes P w w')
    (hP : ∀ ch, P ch → ch.Minds) : Minded openers front w' := by
  have hminds := hmakes.mono hP
  have hfewer : w'.registry.log ⊆ w.registry.log ∧ w'.persisted ⊆ w.persisted := by
    refine hminds.keeps (I := fun w' => w'.registry.log ⊆ w.registry.log ∧
      w'.persisted ⊆ w.persisted) ?_ ⟨List.Subset.refl _, List.Subset.refl _⟩
    intro w' ch hch hw
    refine ⟨List.Subset.trans (registry_apply_subset w' ?_) hw.1,
      List.Subset.trans (persisted_apply_subset w' ?_) hw.2⟩
    · rintro _ _ _ rfl
      exact hch
    · rintro _ _ rfl
      exact hch
  exact h.later (hminds.mono fun _ hc => hc.still) (fun r hr => .inl (hfewer.1 hr))
    fun entry hentry => .inl (hfewer.2 hentry)

/-- Of a connection of which nothing is left nobody needs to answer. -/
theorem drop (h : Minded openers (a :: front) w) (hgone : Gone a.connection w) :
    Minded openers front w where
  listed := h.listed
  roster := h.roster
  opened := h.opened
  live b hb hlive := by
    refine List.mem_of_ne_of_mem ?_ (h.live b hb hlive)
    rintro rfl
    rw [hgone.closed] at hlive
    cases hlive
  registered r hr := by
    obtain ⟨b, hb, hvia⟩ := h.registered r hr
    refine ⟨b, List.mem_of_ne_of_mem ?_ hb, hvia⟩
    rintro rfl
    exact hgone.released r hr hvia
  kept entry hentry := by
    obtain ⟨b, hb, hheld⟩ := h.kept entry hentry
    refine ⟨b, List.mem_of_ne_of_mem ?_ hb, hheld⟩
    rintro rfl
    exact hgone.forgotten entry.1 (hheld ▸ hentry)

/-- Whoever opens a connection answers for it. -/
theorem opens (h : Minded openers (a :: front) w) (hopened : w.Opened a.connection) :
    Minded (openers ++ [a]) (a :: front) w where
  listed := h.listed
  roster := h.roster
  opened b hb := by
    rcases List.mem_append.1 hb with hold | hnew
    · exact h.opened b hold
    · rwa [List.mem_singleton.1 hnew]
  live b hb hlive := by
    rcases List.mem_append.1 hb with hold | hnew
    · exact h.live b hold hlive
    · rw [List.mem_singleton.1 hnew]
      exact List.mem_cons_self
  registered := h.registered
  kept := h.kept

end Minded

end World

end Patchbay
