import Patchbay.Proofs.Sessions.OnePerSlot
import Patchbay.Proofs.Settings.Resolve

/-!
What a connection was opened to against what the requests that get it resolve to. A connection keeps
its address and its namespace, and all requests that get it ask for one slot; so they differ in the
address only where one label stands for two.
-/

namespace Patchbay

/-- A connection handed out to a request. -/
structure Grant where
  /-- The socket that the request chose. -/
  entry : SocketEntry
  resolved : Resolved
  serial : Nat
  reused : Bool

namespace Grant

/-- What the request opened under its slot. -/
def opening (g : Grant) : List (Slot × Nat) := g.resolved.opening (.ok (g.serial, g.reused))

/-- The request chose its socket from the lists of its time. -/
def Made (s : Settings) (g : Grant) : Prop :=
  ∃ runtime opts, Resolved.chosen s runtime opts = .ok g.entry ∧
    g.resolved = Resolved.ofEntry s opts g.entry

/-- Two requests chose one socket: by one label and one name, and the name stood for one address
both times. An unnamed socket is known by its address, and a configured one keeps its entry. -/
def SameSocket (s : Settings) (g g' : Grant) : Prop :=
  g.resolved.label = g'.resolved.label ∧ g.entry.name = g'.entry.name ∧
    (g.entry.name = "" ∨ g.entry.url = g'.entry.url ∨ ∃ e ∈ s.sockets, e.name = g.entry.name)

variable {s : Settings} {g g' : Grant}

/-- Under one label a scope stands for one namespace, and in one namespace for one label. -/
theorem Made.label_eq_iff (h : g.Made s) (h' : g'.Made s)
    (hscope : g.resolved.scope = g'.resolved.scope) :
    g.resolved.label = g'.resolved.label ↔
      g.resolved.namespaceName = g'.resolved.namespaceName := by
  obtain ⟨-, opts, -, hresolved⟩ := h
  obtain ⟨-, opts', -, hresolved'⟩ := h'
  have hcut : g.resolved.scope = g.resolved.label ++ g.resolved.namespaceName :=
    hresolved ▸ Resolved.scope_ofEntry
  have hcut' : g'.resolved.scope = g'.resolved.label ++ g'.resolved.namespaceName :=
    hresolved' ▸ Resolved.scope_ofEntry
  rw [hcut, hcut'] at hscope
  constructor
  · intro hlabel
    rw [hlabel] at hscope
    exact (String.append_right_inj _).1 hscope
  · intro hname
    rw [hname] at hscope
    exact (String.append_left_inj _).1 hscope

/-- One socket has one address. -/
theorem Made.url_eq (h : g.Made s) (h' : g'.Made s) (hsame : g.SameSocket s g') :
    g.resolved.url = g'.resolved.url := by
  obtain ⟨runtime, opts, hchosen, hresolved⟩ := h
  obtain ⟨runtime', opts', hchosen', hresolved'⟩ := h'
  obtain ⟨hlabel, hname, hkind⟩ := hsame
  rw [hresolved, hresolved'] at hlabel ⊢
  by_cases hnamed : g.entry.name.isEmpty = true
  · rw [← Resolved.label_of_unnamed hnamed, ← Resolved.label_of_unnamed (hname ▸ hnamed), hlabel]
  · rcases hkind with hempty | hurl | ⟨e, he, hconfigured⟩
    · exact absurd (String.isEmpty_iff.2 hempty) hnamed
    · exact Resolved.url_ofEntry_congr hurl
    · rw [Resolved.eq_of_configured hchosen hchosen' hname
        (Bool.eq_false_iff.2 hnamed) he hconfigured]
      rfl

end Grant

namespace Moment

/-- The connection that a connect request gets. -/
def grant? (m : Moment) : Option Grant :=
  match m.job with
  | .connect _ _ _ opts =>
    match Resolved.chosen m.world.settings m.world.runtimeSockets opts with
    | .error _ => none
    | .ok entry =>
      let resolved := Resolved.ofEntry m.world.settings opts entry
      let warnings := (Resolved.ofRequest m.world.settings m.world.runtimeSockets opts).2
      match ((warnings.foldl World.warn m.world).acquire resolved).1 with
      | .error _ => none
      | .ok (serial, reused) => some ⟨entry, resolved, serial, reused⟩
  | _ => none

variable {m : Moment} {g : Grant}

/-- Behind a grant is a request that resolved and a connection that was acquired for it. -/
theorem exists_of_grant? (h : m.grant? = some g) :
    ∃ ticket name owner opts, m.job = .connect ticket name owner opts ∧
      Resolved.chosen m.world.settings m.world.runtimeSockets opts = .ok g.entry ∧
      g.resolved = Resolved.ofEntry m.world.settings opts g.entry ∧
      (((Resolved.ofRequest m.world.settings m.world.runtimeSockets opts).2.foldl World.warn
        m.world).acquire g.resolved).1 = .ok (g.serial, g.reused) := by
  unfold grant? at h
  split at h
  · rename_i ticket name owner opts hjob
    split at h
    · cases h
    · rename_i entry hchosen
      dsimp only at h
      split at h
      · cases h
      · rename_i serial reused hacquire
        cases h
        exact ⟨ticket, name, owner, opts, hjob, hchosen, rfl, hacquire⟩
  · cases h

theorem openings_eq (m : Moment) : m.openings = m.grant?.toList.flatMap Grant.opening := by
  obtain ⟨⟨id, job⟩, w⟩ := m
  cases job with
  | connect ticket name owner opts =>
    simp only [openings, grant?, job]
    have heq := Resolved.ofRequest_eq w.settings w.runtimeSockets opts
    cases hchosen : Resolved.chosen w.settings w.runtimeSockets opts with
    | error error =>
      rw [hchosen] at heq
      split
      · rename_i hrequest
        rw [hrequest] at heq
        cases heq
      · rfl
    | ok entry =>
      rw [hchosen] at heq
      split
      · rename_i r warnings hrequest
        rw [hrequest] at heq
        obtain rfl : r = Resolved.ofEntry w.settings opts entry := Except.ok.inj heq
        dsimp only
        rw [hrequest]
        cases ((warnings.foldl World.warn w).acquire
          (Resolved.ofEntry w.settings opts entry)).1 with
        | error error => rfl
        | ok got => simp [Grant.opening]
      · rename_i hrequest
        rw [hrequest] at heq
        cases heq
  | _ => rfl

end Moment

namespace World

variable {w₀ w w' : World} {log : List Moment} {g g' o : Grant}

/-- The connections that were handed out, in order. -/
def grants (log : List Moment) : List Grant := log.filterMap Moment.grant?

theorem openings_eq_grants (log : List Moment) :
    openings log = (grants log).flatMap Grant.opening := by
  induction log with
  | nil => rfl
  | cons m rest ih =>
    have hcons : openings (m :: rest) = m.openings ++ openings rest := rfl
    rw [hcons, ih, m.openings_eq]
    cases hg : m.grant? <;> simp [grants, hg]

/-- What was opened under a slot was opened by a request for it. -/
theorem exists_of_mem_openings {slot : Slot} {serial : Nat} (h : (slot, serial) ∈ openings log) :
    ∃ o ∈ grants log, o.reused = false ∧ o.serial = serial ∧ o.resolved.slot? = some slot := by
  rw [openings_eq_grants] at h
  obtain ⟨o, ho, hopening⟩ := List.mem_flatMap.1 h
  refine ⟨o, ho, ?_⟩
  cases hreused : o.reused with
  | true => simp [Grant.opening, Resolved.opening, hreused] at hopening
  | false =>
    simp only [Grant.opening, Resolved.opening, hreused, List.mem_map, Option.mem_toList,
      Prod.mk.injEq] at hopening
    obtain ⟨slot', hslot', rfl, rfl⟩ := hopening
    exact ⟨rfl, rfl, hslot'⟩

/-- All that were handed out against the connections there are. -/
structure Granted (gs : List Grant) (w : World) : Prop where
  made : ∀ g ∈ gs, g.Made w.settings
  opened : ∀ g ∈ gs, ∃ o ∈ gs, o.reused = false ∧ o.serial = g.serial ∧
    o.resolved.scope = g.resolved.scope ∧ o.resolved.persistKey = g.resolved.persistKey
  single : ∀ o ∈ gs, ∀ o' ∈ gs, o.reused = false → o'.reused = false → o.serial = o'.serial → o = o'
  keeps : ∀ o ∈ gs, o.reused = false → ∃ c, w.connection? o.serial = some c ∧
    c.url = o.resolved.url ∧ c.namespaceName = o.resolved.namespaceName

namespace Granted

variable {gs : List Grant}

theorem none (w : World) : Granted [] w := by
  constructor <;> simp

theorem apply (h : Granted gs w) (ch : Change) : Granted gs (w.apply ch) where
  made := by
    rw [apply_settings]
    exact h.made
  opened := h.opened
  single := h.single
  keeps o ho hfresh := by
    obtain ⟨c, hc, hurl, hname⟩ := h.keeps o ho hfresh
    exact ⟨_, connection?_apply hc ch, by rw [Change.reshape_url, hurl],
      by rw [Change.reshape_namespaceName, hname]⟩

theorem idle (h : Granted gs w) (hsettings : w'.settings = w.settings)
    (hconnections : w'.connections = w.connections) : Granted gs w' where
  made := hsettings ▸ h.made
  opened := h.opened
  single := h.single
  keeps o ho hfresh := by
    rw [connection?_congr hconnections]
    exact h.keeps o ho hfresh

theorem makes {P : Change → Prop} (h : Granted gs w) (hmakes : Makes P w w') : Granted gs w' :=
  hmakes.keeps (fun _ ch _ hw => hw.apply ch) h

theorem given (h : Granted gs w) (hg : g ∈ gs) : g.serial ≤ w.connections.length := by
  obtain ⟨o, ho, hfresh, hserial, -⟩ := h.opened g hg
  obtain ⟨c, hc, -⟩ := h.keeps o ho hfresh
  rw [hserial] at hc
  unfold connection? at hc
  split at hc
  · cases hc
  · have := (List.getElem?_eq_some_iff.1 hc).1
    omega

/-- A connection that was just opened goes to the request it was opened for. -/
theorem add_fresh (h : Granted gs w) (hmade : g.Made w.settings) (hfresh : g.reused = false)
    (hnew : ∀ g' ∈ gs, g'.serial ≠ g.serial)
    (hc : w.connection? g.serial = some g.resolved.dialled) : Granted (gs ++ [g]) w where
  made g' hg' := by
    rcases List.mem_append.1 hg' with hg' | hg'
    · exact h.made g' hg'
    · exact List.mem_singleton.1 hg' ▸ hmade
  opened g' hg' := by
    rcases List.mem_append.1 hg' with hg' | hg'
    · obtain ⟨o, ho, hrest⟩ := h.opened g' hg'
      exact ⟨o, List.mem_append_left _ ho, hrest⟩
    · rw [List.mem_singleton.1 hg']
      exact ⟨g, by simp, hfresh, rfl, rfl, rfl⟩
  single o ho o' ho' hf hf' hserial := by
    rcases List.mem_append.1 ho with ho | ho <;> rcases List.mem_append.1 ho' with ho' | ho'
    · exact h.single o ho o' ho' hf hf' hserial
    · rw [List.mem_singleton.1 ho'] at hserial
      exact absurd hserial (hnew o ho)
    · rw [List.mem_singleton.1 ho] at hserial
      exact absurd hserial.symm (hnew o' ho')
    · rw [List.mem_singleton.1 ho, List.mem_singleton.1 ho']
  keeps o ho hf := by
    rcases List.mem_append.1 ho with ho | ho
    · exact h.keeps o ho hf
    · rw [List.mem_singleton.1 ho]
      obtain ⟨runtime, opts, -, hresolved⟩ := hmade
      have hname : g.resolved.namespaceName.isEmpty = false :=
        hresolved ▸ Resolved.namespaceName_ofEntry
      exact ⟨_, hc, rfl, by simp [Resolved.dialled, hname]⟩

/-- A kept connection goes to a request for the slot it was opened under. -/
theorem add_reused (h : Granted gs w) (hmade : g.Made w.settings) (hreused : g.reused = true)
    (ho : o ∈ gs) (hfresh : o.reused = false) (hserial : o.serial = g.serial)
    (hscope : o.resolved.scope = g.resolved.scope)
    (hkey : o.resolved.persistKey = g.resolved.persistKey) : Granted (gs ++ [g]) w where
  made g' hg' := by
    rcases List.mem_append.1 hg' with hg' | hg'
    · exact h.made g' hg'
    · exact List.mem_singleton.1 hg' ▸ hmade
  opened g' hg' := by
    rcases List.mem_append.1 hg' with hg' | hg'
    · obtain ⟨o', ho', hrest⟩ := h.opened g' hg'
      exact ⟨o', List.mem_append_left _ ho', hrest⟩
    · rw [List.mem_singleton.1 hg']
      exact ⟨o, List.mem_append_left _ ho, hfresh, hserial, hscope, hkey⟩
  single o₁ h₁ o₂ h₂ hf₁ hf₂ heq := by
    have hold {o' : Grant} (h' : o' ∈ gs ++ [g]) (hf : o'.reused = false) : o' ∈ gs := by
      rcases List.mem_append.1 h' with h' | h'
      · exact h'
      · rw [List.mem_singleton.1 h', hreused] at hf
        cases hf
    exact h.single o₁ (hold h₁ hf₁) o₂ (hold h₂ hf₂) hf₁ hf₂ heq
  keeps o' h' hf := by
    rcases List.mem_append.1 h' with h' | h'
    · exact h.keeps o' h' hf
    · rw [List.mem_singleton.1 h', hreused] at hf
      cases hf

/-- All that got one connection asked for one slot. -/
theorem slot_eq (h : Granted gs w) (hg : g ∈ gs) (hg' : g' ∈ gs) (hserial : g.serial = g'.serial) :
    g.resolved.scope = g'.resolved.scope ∧ g.resolved.persistKey = g'.resolved.persistKey := by
  obtain ⟨o, ho, hfresh, hsame, hscope, hkey⟩ := h.opened g hg
  obtain ⟨o', ho', hfresh', hsame', hscope', hkey'⟩ := h.opened g' hg'
  obtain rfl := h.single o ho o' ho' hfresh hfresh' (hsame.trans (hserial.trans hsame'.symm))
  exact ⟨hscope.symm.trans hscope', hkey.symm.trans hkey'⟩

end Granted

/-- A request that gets a connection is the next on the list. -/
theorem startConnect_granted (h : Granted (grants log) w) (hkept : Kept (openings log) w)
    {t ticket : Nat} {name : String} {owner : ComponentId} {opts : ConnectOptions}
    (hg : Moment.grant? ⟨⟨t, .connect ticket name owner opts⟩, w⟩ = some g) :
    Granted (grants log ++ [g]) (w.startConnect ticket name owner opts) := by
  obtain ⟨_, _, _, _, hjob, hchosen, hresolved, hacquire⟩ := Moment.exists_of_grant? hg
  cases hjob
  have hok : (Resolved.ofRequest w.settings w.runtimeSockets opts).1 = .ok g.resolved := by
    rw [Resolved.ofRequest_eq, hchosen, hresolved]
    rfl
  obtain ⟨start, hstart, hwarned, mid, e, hmid, -, heq⟩ := startConnect_of_ok hok ticket name owner
  rw [← hwarned] at hacquire
  have hstarted := h.makes hstart
  have hacquired := hstarted.makes (acquire_makes start g.resolved)
  have hmade : g.Made (start.acquire g.resolved).2.settings := by
    have hsettings : (start.acquire g.resolved).2.settings = w.settings :=
      (hstart.mono fun _ _ => trivial).trans
        ((acquire_makes start g.resolved).mono fun _ _ => trivial)
        |>.keeps (P := fun _ => True) (I := fun w' => w'.settings = w.settings)
          (fun w' ch _ hw => (apply_settings w' ch).trans hw) rfl
    rw [hsettings]
    exact ⟨_, _, hchosen, hresolved⟩
  have hgranted : Granted (grants log ++ [g]) (start.acquire g.resolved).2 := by
    rcases acquire_ok hacquire with ⟨hreused, -, -, slot, hslot, hmem⟩ | ⟨hfresh, hserial, hlist⟩
    · have hopenings := (hkept.holds (hstart.mono fun _ hc => hc.holds)).origin hmem
      obtain ⟨o, ho, hfresh, hserial, hslot'⟩ := exists_of_mem_openings hopenings
      have hasked : o.resolved.slot? = g.resolved.slot? := hslot'.trans hslot.symm
      obtain ⟨key, hkey, hkeyed⟩ := Option.map_eq_some_iff.1 hslot
      obtain ⟨key', hkey', hkeyed'⟩ := Option.map_eq_some_iff.1 hslot'
      obtain ⟨hscope, hsame⟩ := Prod.mk.inj (hkeyed'.trans hkeyed.symm)
      exact hacquired.add_reused hmade hreused ho hfresh hserial hscope (by rw [hkey, hkey', hsame])
    · refine hacquired.add_fresh hmade hfresh ?_ ?_
      · intro g' hg'
        have := hstarted.given hg'
        omega
      · simp [connection?, hserial, hlist]
  rw [← heq]
  cases e <;> exact (hgranted.makes hmid).idle rfl rfl

theorem Run.granted (hfresh : w₀.Fresh) (h : Run w₀ log w) : Granted (grants log) w := by
  induction h with
  | start => exact .none w₀
  | @step log w task rest hrun hready ih =>
    have hbegun : Granted (grants log) (w.begin task rest) := ih.idle rfl rfl
    have hkept : Kept (openings log) (w.begin task rest) :=
      (hrun.kept hfresh).loosens (.same rfl rfl)
    have hgrants : grants (log ++ [⟨task, w.begin task rest⟩]) =
        grants log ++ (Moment.grant? ⟨task, w.begin task rest⟩).toList := filterMap_concat _ _ _
    rw [hgrants]
    cases hg : Moment.grant? ⟨task, w.begin task rest⟩ with
    | some g =>
      obtain ⟨ticket, name, owner, opts, hjob, -⟩ := Moment.exists_of_grant? hg
      obtain ⟨id, job⟩ := task
      obtain rfl : job = .connect ticket name owner opts := hjob
      exact startConnect_granted hbegun hkept hg
    | none =>
      obtain ⟨mid, e, hmid, -, heq⟩ := exec_does (w.begin task rest) task.job
      rw [Option.toList_none, List.append_nil, ← heq]
      cases e <;> exact (hbegun.makes hmid).idle rfl rfl
  | command _ ticket hc ih => exact ih.makes (perform_makes _ ticket hc)
  | pass _ _ ih => exact ih.idle rfl rfl
  | wake _ ih => exact ih.idle rfl rfl

/-- A connection keeps the address and the namespace it was opened with, and goes only to requests
for the scope and the key it was opened for. So it has the namespace of every request of its label
that gets it, and the address too where the label stands for one socket; and requests that differ in
the label alone or in the namespace alone never share one. -/
theorem connection_serves_its_slot (hfresh : w₀.Fresh) (hrun : Run w₀ log w) :
    (∀ g ∈ grants log, ∃ c o, w.connection? g.serial = some c ∧ o ∈ grants log ∧
      o.reused = false ∧ o.serial = g.serial ∧ (g.reused = false → o = g) ∧
      c.url = o.resolved.url ∧ c.namespaceName = o.resolved.namespaceName ∧
      (o.resolved.label = g.resolved.label → c.namespaceName = g.resolved.namespaceName) ∧
      (o.SameSocket w.settings g → c.url = g.resolved.url)) ∧
    ∀ g ∈ grants log, ∀ g' ∈ grants log, g.serial = g'.serial →
      g.resolved.scope = g'.resolved.scope ∧ g.resolved.persistKey = g'.resolved.persistKey ∧
      (g.resolved.label = g'.resolved.label ↔
        g.resolved.namespaceName = g'.resolved.namespaceName) := by
  have h := hrun.granted hfresh
  constructor
  · intro g hg
    obtain ⟨o, ho, hopener, hserial, hscope, hkey⟩ := h.opened g hg
    obtain ⟨c, hc, hurl, hname⟩ := h.keeps o ho hopener
    refine ⟨c, o, hserial ▸ hc, ho, hopener, hserial, ?_, hurl, hname, ?_, ?_⟩
    · intro hg'
      exact h.single o ho g hg hopener hg' hserial
    · intro hlabel
      rw [hname]
      exact ((h.made o ho).label_eq_iff (h.made g hg) hscope).1 hlabel
    · intro hsame
      rw [hurl]
      exact (h.made o ho).url_eq (h.made g hg) hsame
  · intro g hg g' hg' hserial
    obtain ⟨o, ho, hopener, ho_serial, hscope, hkey⟩ := h.opened g hg
    obtain ⟨o', ho', hopener', ho_serial', hscope', hkey'⟩ := h.opened g' hg'
    have hshared : o = o' := h.single o ho o' ho' hopener hopener' (by omega)
    subst hshared
    have hscopes : g.resolved.scope = g'.resolved.scope := hscope.symm.trans hscope'
    exact ⟨hscopes, hkey.symm.trans hkey', (h.made g hg).label_eq_iff (h.made g' hg') hscopes⟩

theorem lobby_requests_share_their_address :
    (grants lobbyPlayed.1).map (·.serial) = [1, 1, 2] ∧ ∀ g ∈ grants lobbyPlayed.1,
      ∃ c, lobbyPlayed.2.connection? g.serial = some c ∧ c.url = g.resolved.url := by
  have hrun : Run lobby lobbyPlayed.1 lobbyPlayed.2 := .of_play lobby rfl
  have hnamed : (grants lobbyPlayed.1).all
      (fun g => g.resolved.label == "home" && g.entry.name == "home") = true := rfl
  have hhome (g : Grant) (hg : g ∈ grants lobbyPlayed.1) :
      g.resolved.label = "home" ∧ g.entry.name = "home" := by
    simpa using List.all_eq_true.1 hnamed g hg
  refine ⟨rfl, ?_⟩
  intro g hg
  obtain ⟨c, o, hc, ho, -, -, -, -, -, -, hurl⟩ :=
    (connection_serves_its_slot lobby_fresh hrun).1 g hg
  refine ⟨c, hc, hurl ⟨?_, ?_, .inr (.inr ⟨{ name := "home", url := some "http://home" }, ?_, ?_⟩)⟩⟩
  · rw [(hhome o ho).1, (hhome g hg).1]
  · rw [(hhome o ho).2, (hhome g hg).2]
  · have hsettings : lobbyPlayed.2.settings = lobby.settings := rfl
    rw [hsettings]
    exact List.mem_cons_self
  · rw [(hhome o ho).2]

/-! A socket whose address changes while its connection is kept -/

def atrium : World := { settings := {} }

/-- The socket is given at run time, and given again with another address. -/
def atriumPlayed : List Moment × World :=
  atrium.play [.command 0 (.setRuntime [{ name := "home", url := some "http://one" }]),
    .command 1 (.connect "x" ⟨"a"⟩ shared), .steps 10,
    .command 2 (.setRuntime [{ name := "home", url := some "http://two" }]),
    .command 3 (.connect "y" ⟨"a"⟩ shared), .steps 10]

theorem atrium_fresh : atrium.Fresh := .of_unwatched rfl (List.forall_mem_nil _)

/-- The second request resolves to the new address and gets the connection to the old one. -/
theorem kept_connection_of_moved_socket :
    ¬ ∀ (w₀ w : World) (log : List Moment), w₀.Fresh → Run w₀ log w → ∀ g ∈ grants log,
      ∃ c, w.connection? g.serial = some c ∧ c.url = g.resolved.url ∧
        c.namespaceName = g.resolved.namespaceName := by
  intro h
  have hrun : Run atrium atriumPlayed.1 atriumPlayed.2 := .of_play atrium rfl
  obtain ⟨g, hg, hserial, hurl⟩ : ∃ g ∈ grants atriumPlayed.1, g.serial = 1 ∧
      g.resolved.url = "http://two" := by
    refine ⟨_, List.mem_cons_of_mem _ List.mem_cons_self, rfl, rfl⟩
  obtain ⟨c, hc, hsame, -⟩ := h _ _ _ atrium_fresh hrun g hg
  have hone : (atriumPlayed.2.connection? 1).map (·.url) = some "http://one" := rfl
  rw [hserial] at hc
  rw [hc, Option.map_some, hsame, hurl] at hone
  simp at hone

end World

end Patchbay
