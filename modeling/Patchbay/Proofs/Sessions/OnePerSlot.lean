import Patchbay.Proofs.Sessions.Kept

/-!
At most one live connection for each slot, in every world of a run: whatever tasks, commands and
peers do, the slots stay as they should be.
-/

namespace Patchbay

namespace Moment

/-- The connection that a connect request opens under a slot. -/
def openings (m : Moment) : List (Slot × Nat) :=
  match m.job with
  | .connect _ _ _ opts =>
    match Resolved.ofRequest m.world.settings m.world.runtimeSockets opts with
    | (.ok r, warnings) => r.opening ((warnings.foldl World.warn m.world).acquire r).1
    | (.error _, _) => []
  | _ => []

end Moment

namespace World

variable {w w' : World} {opened : List (Slot × Nat)} {r : Resolved} {slot : Slot}

/-- What was opened under slots, in order. -/
def openings (log : List Moment) : List (Slot × Nat) := log.flatMap Moment.openings

/-- A connect request opens at most what it acquires. -/
theorem startConnect_kept (h : Kept opened w) (t ticket : Nat) (name : String) (owner : ComponentId)
    (opts : ConnectOptions) :
    Kept (opened ++ Moment.openings ⟨⟨t, .connect ticket name owner opts⟩, w⟩)
      (w.startConnect ticket name owner opts) := by
  cases hresolved : (Resolved.ofRequest w.settings w.runtimeSockets opts).1 with
  | error error =>
    have hnone : Moment.openings ⟨⟨t, .connect ticket name owner opts⟩, w⟩ = [] := by
      simp only [Moment.openings, Moment.job]
      split
      · rename_i heq
        rw [heq] at hresolved
        cases hresolved
      · rfl
    rw [hnone, List.append_nil]
    exact h.holds ((startConnect_of_error hresolved ticket name owner).mono fun _ hc => hc.holds)
  | ok r =>
    obtain ⟨start, hstart, hwarned, mid, e, hmid, -, heq⟩ :=
      startConnect_of_ok hresolved ticket name owner
    have hopenings : Moment.openings ⟨⟨t, .connect ticket name owner opts⟩, w⟩ =
        r.opening (start.acquire r).1 := by
      simp only [Moment.openings, Moment.job]
      split
      · rename_i r' warnings hrequest
        rw [hrequest] at hresolved hwarned
        obtain rfl := Except.ok.inj hresolved
        rw [hwarned]
      · rename_i hrequest
        rw [hrequest] at hresolved
        cases hresolved
    have hkept := ((h.holds (hstart.mono fun _ hc => hc.holds)).acquire r).holds
      (hmid.mono fun _ hc => hc.holds)
    rw [hopenings, ← heq]
    cases e <;> exact hkept.loosens (.same rfl rfl)

theorem Run.kept {w₀ : World} {log : List Moment} (hfresh : w₀.Fresh) (h : Run w₀ log w) :
    Kept (openings log) w := by
  induction h with
  | start =>
    refine ⟨nofun, ?_, ?_, nofun⟩
    · rw [hfresh.persisted]
      exact List.nil_subset _
    · rw [hfresh.persisted]
      exact List.nodup_nil
  | @step log w task rest _ hready ih =>
    have hbegun : Kept (openings log) (w.begin task rest) := ih.loosens (.same rfl rfl)
    have hopenings : openings (log ++ [⟨task, w.begin task rest⟩]) =
        openings log ++ Moment.openings ⟨task, w.begin task rest⟩ := by simp [openings]
    rw [hopenings]
    obtain ⟨id, job⟩ := task
    by_cases hconnect : ∃ ticket name owner opts, job = .connect ticket name owner opts
    · obtain ⟨ticket, name, owner, opts, rfl⟩ := hconnect
      exact startConnect_kept hbegun id ticket name owner opts
    · have hidle : ∀ ticket name owner opts, job ≠ .connect ticket name owner opts :=
        fun ticket name owner opts heq => hconnect ⟨ticket, name, owner, opts, heq⟩
      have hnone : Moment.openings ⟨⟨id, job⟩, w.begin ⟨id, job⟩ rest⟩ = [] := by
        simp only [Moment.openings, Moment.job]
      rw [hnone, List.append_nil]
      obtain ⟨mid, e, hmid, -, heq⟩ := exec_does (w.begin ⟨id, job⟩ rest) job
      have hkept := hbegun.holds (hmid.mono fun c hc => hc.holds hidle)
      rw [← heq]
      cases e <;> exact hkept.loosens (.same rfl rfl)
  | command _ ticket hc ih => exact ih.commands (perform_makes _ ticket hc)
  | pass _ _ ih => exact ih.loosens (.same rfl rfl)
  | wake _ ih => exact ih.loosens (Loosens.woken (.same rfl rfl) (wakeDue_woken _))

theorem foldl_warn_connections (w : World) (warnings : List Warning) :
    (warnings.foldl warn w).connections = w.connections := by
  induction warnings generalizing w with
  | nil => rfl
  | cons first rest ih => exact ih (w.warn first)

theorem Makes.length (h : Makes Change.Holds w w') :
    w'.connections.length = w.connections.length :=
  h.keeps (I := fun w' => w'.connections.length = w.connections.length)
    (fun w' _ hc hw => (apply_loosens w' hc).length.trans hw) rfl

/-- How many connections there are after a request depends on the slot alone. -/
theorem Kept.acquire_length (h : Kept opened w) (h' : Kept opened w')
    (hconnections : w'.connections = w.connections) (hslot : r.slot? = some slot) :
    (w'.acquire r).2.connections.length = (w.acquire r).2.connections.length := by
  by_cases hlive : ∃ serial, (slot, serial) ∈ opened ∧ w.isConnected serial = true
  · obtain ⟨serial, hmem, hconnected⟩ := hlive
    have hconnected' : w'.isConnected serial = true := by
      rwa [isConnected_congr hconnections]
    rw [h.acquire_live hslot hmem hconnected, h'.acquire_live hslot hmem hconnected', hconnections]
  · have hdown (serial : Nat) (hmem : (slot, serial) ∈ opened) : w.isConnected serial = false := by
      cases hconnected : w.isConnected serial with
      | false => rfl
      | true => exact absurd ⟨serial, hmem, hconnected⟩ hlive
    have hdown' (serial : Nat) (hmem : (slot, serial) ∈ opened) :
        w'.isConnected serial = false := by
      rw [isConnected_congr hconnections]
      exact hdown serial hmem
    rcases h.acquire_fresh hslot hdown with ⟨hurl, -, hlist⟩ | ⟨hurl, -, hlist⟩ <;>
      rcases h'.acquire_fresh hslot hdown' with ⟨hurl', -, hlist'⟩ | ⟨hurl', -, hlist'⟩
    · rw [hlist, hlist', hconnections]
    · rw [hurl] at hurl'
      cases hurl'
    · rw [hurl] at hurl'
      cases hurl'
    · rw [hlist, hlist', hconnections]

/-- Wiring opens no connection, so a connect request opens what it acquires and no more. -/
theorem Kept.connect_length (h : Kept opened w) (hslot : r.slot? = some slot) (ticket : Nat)
    (name : String) (owner : ComponentId) {opts : ConnectOptions}
    (hresolved : (Resolved.ofRequest w.settings w.runtimeSockets opts).1 = .ok r) :
    (w.startConnect ticket name owner opts).connections.length =
      (w.acquire r).2.connections.length := by
  obtain ⟨start, hstart, hwarned, mid, e, hmid, -, heq⟩ :=
    startConnect_of_ok hresolved ticket name owner
  have hconnections : start.connections = w.connections := by
    rw [hwarned]
    exact foldl_warn_connections ..
  have honward : (w.startConnect ticket name owner opts).connections = mid.connections := by
    rw [← heq]
    cases e <;> rfl
  rw [honward, (hmid.mono fun _ hc => hc.holds).length]
  exact h.acquire_length (h.holds (hstart.mono fun _ hc => hc.holds)) hconnections hslot

/-- Of the connections opened under a slot at most one is live, in every world of a run. A request
for the slot gets the live one, and nothing is opened; without one it opens exactly one, unless the
transport refuses; and wiring opens no other. -/
theorem one_live_connection_per_slot {w₀ : World} {log : List Moment} (hfresh : w₀.Fresh)
    (hrun : Run w₀ log w) (slot : Slot) :
    (∀ n n', (slot, n) ∈ openings log → (slot, n') ∈ openings log →
      w.isConnected n = true → w.isConnected n' = true → n = n') ∧
    ∀ r : Resolved, r.slot? = some slot →
      (∀ n, (slot, n) ∈ openings log → w.isConnected n = true → w.acquire r = (.ok (n, true), w)) ∧
      ((∀ n, (slot, n) ∈ openings log → w.isConnected n = false) →
        (r.url.isEmpty = true ∧ (w.acquire r).1 = .error (.connectFailed r.url "empty url") ∧
          (w.acquire r).2.connections = w.connections) ∨
        (r.url.isEmpty = false ∧ (w.acquire r).1 = .ok (w.connections.length + 1, false) ∧
          (w.acquire r).2.connections = w.connections ++ [r.dialled] ∧
          (w.acquire r).2.isConnected (w.connections.length + 1) = true)) ∧
      ∀ ticket name owner opts, (Resolved.ofRequest w.settings w.runtimeSockets opts).1 = .ok r →
        (w.exec (.connect ticket name owner opts)).connections.length =
          (w.acquire r).2.connections.length := by
  have hkept := hrun.kept hfresh
  constructor
  · intro n n' hmem hmem'
    exact hkept.unique hmem hmem'
  · intro r hslot
    refine ⟨?_, ?_, ?_⟩
    · intro n
      exact hkept.acquire_live hslot
    · intro hdown
      rcases hkept.acquire_fresh hslot hdown with hrefused | ⟨hurl, hresult, hlist⟩
      · exact .inl hrefused
      · exact .inr ⟨hurl, hresult, hlist, isConnected_of_append hlist rfl⟩
    · intro ticket name owner opts
      exact hkept.connect_length hslot ticket name owner

/-! Two components that share a connection, until the peer closes it -/

def lobby : World := { settings := { sockets := [{ name := "home", url := some "http://home" }] } }

def shared : ConnectOptions := { persist := .key "main" }

/-- Both connect; the peer closes; the first connects again. -/
def lobbyPlayed : List Moment × World :=
  lobby.play [.command 0 (.connect "a" ⟨"first"⟩ shared), .steps 10,
    .command 1 (.connect "b" ⟨"second"⟩ shared), .steps 10, .command 2 (.kick "a"), .steps 10,
    .command 3 (.connect "c" ⟨"first"⟩ shared), .steps 10]

theorem lobby_fresh : lobby.Fresh := .of_unwatched rfl (List.forall_mem_nil _)

theorem one_live_connection_after_close :
    openings lobbyPlayed.1 =
        [(("home/", "main"), 1), (("home/", "main"), 2)] ∧
      lobbyPlayed.2.isConnected 2 = true ∧ lobbyPlayed.2.isConnected 1 = false := by
  have hopenings : openings lobbyPlayed.1 =
      [(("home/", "main"), 1), (("home/", "main"), 2)] := rfl
  have hlive : lobbyPlayed.2.isConnected 2 = true := rfl
  have hrun : Run lobby lobbyPlayed.1 lobbyPlayed.2 := .of_play lobby rfl
  have hunique := (one_live_connection_per_slot lobby_fresh hrun ("home/", "main")).1
  refine ⟨hopenings, hlive, ?_⟩
  rw [hopenings] at hunique
  cases hfirst : lobbyPlayed.2.isConnected 1 with
  | false => rfl
  | true => exact absurd (hunique 1 2 (.head _) (.tail _ (.head _)) hfirst hlive) (by decide)

end World

end Patchbay
