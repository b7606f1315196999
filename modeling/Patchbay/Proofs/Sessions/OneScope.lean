import Patchbay.Proofs.Sessions.Actions

/-!
One scope for each connection. Which session on a connection is found first depends on the order of
the tables; its scope does not, because every request that gets the connection has asked for the
scope under which it was opened.
-/

namespace Patchbay

namespace World

variable {w₀ w w' : World} {log : List Moment} {s s' : Session} {n : Nat}

/-- The sessions on the connection are of one scope. -/
def Agreed (w : World) (n : Nat) : Prop :=
  ∀ s ∈ w.sessions, ∀ s' ∈ w.sessions, s.channel.connection = n → s'.channel.connection = n →
    s.channel.scope = s'.channel.scope

/-- The same sessions in another order, or in other tables. -/
def Reordered (w w' : World) : Prop := w'.sessions.Perm w.sessions

/-- In whatever order the sessions are gone through, the scope of the connection is the same. -/
def ScopeSettled (w : World) (n : Nat) : Prop := ∀ w', Reordered w w' → w'.scopeOf n = w.scopeOf n

theorem Reordered.tracks_iff (h : Reordered w w') : w'.Tracks n ↔ w.Tracks n :=
  ⟨fun ⟨s, hs, hn⟩ => ⟨s, h.subset hs, hn⟩, fun ⟨s, hs, hn⟩ => ⟨s, h.symm.subset hs, hn⟩⟩

theorem Agreed.scopeOf_eq (h : w.Agreed n) (hs : s ∈ w.sessions) (hn : s.channel.connection = n) :
    w.scopeOf n = some s.channel.scope :=
  scopeOf_of_tracked ⟨s, hs, hn⟩ fun s' hs' hn' => h s' hs' s hs hn' hn

theorem Agreed.reordered (h : w.Agreed n) (hsame : Reordered w w') : w'.Agreed n :=
  fun s hs s' hs' => h s (hsame.subset hs) s' (hsame.subset hs')

theorem reordered_of_owned {owned : List (ComponentId × List Session)} (h : owned.Perm w.owned) :
    Reordered w { w with owned } :=
  (h.flatMap_right _).append_right _

/-- A session that is put first is the one that is found. -/
theorem exists_reordered_of_mem (hs : s ∈ w.sessions) (hn : s.channel.connection = n) :
    ∃ w', Reordered w w' ∧ w'.scopeOf n = some s.channel.scope := by
  obtain ⟨before, behind, hsessions⟩ := List.append_of_mem hs
  refine ⟨{ w with owned := [], detached := s :: (before ++ behind) }, ?_, ?_⟩
  · show (s :: (before ++ behind)).Perm w.sessions
    rw [hsessions]
    exact List.perm_middle.symm
  · simp [scopeOf, hn]

/-- The order does not matter if and only if the sessions agree. -/
theorem scopeSettled_iff : w.ScopeSettled n ↔ w.Agreed n := by
  constructor
  · intro h s hs s' hs' hn hn'
    obtain ⟨v, hv, hfound⟩ := exists_reordered_of_mem hs hn
    obtain ⟨v', hv', hfound'⟩ := exists_reordered_of_mem hs' hn'
    rw [h v hv] at hfound
    rw [h v' hv', hfound] at hfound'
    exact Option.some.inj hfound'
  · intro h w' hsame
    by_cases htracked : w.Tracks n
    · obtain ⟨s, hs, hn⟩ := htracked
      rw [h.scopeOf_eq hs hn, (h.reordered hsame).scopeOf_eq (hsame.symm.subset hs) hn]
    · rw [scopeOf_of_untracked htracked, scopeOf_of_untracked (mt hsame.tracks_iff.1 htracked)]

theorem Run.agreed (hblank : w₀.Blank) (hrun : Run w₀ log w) (n : Nat) : w.Agreed n := by
  have hrooted := hrun.rooted hblank
  have hgranted := hrun.granted hblank.toFresh
  intro s hs s' hs' hn hn'
  obtain ⟨g, hissued⟩ := hrooted.sessions s' hs'
  have hserial : s.channel.connection = g.serial := by
    rw [hn, ← hn', ← hissued.channel_eq]
    rfl
  rw [hrooted.scope_eq hgranted hissued.mem_grants hs hserial, ← hissued.channel_eq]
  rfl

/-- What the sessions say of the scope of a connection. -/
structure OneScope (log : List Moment) (w : World) (n : Nat) : Prop where
  agreed : w.Agreed n
  settled : w.ScopeSettled n
  /-- That of the components is one such order. -/
  owners : ∀ owned, owned.Perm w.owned → { w with owned }.scopeOf n = w.scopeOf n
  found : ∀ s ∈ w.sessions, s.channel.connection = n → w.scopeOf n = some s.channel.scope
  /-- Who opened the connection and who shares it asked for that scope. -/
  asked : ∀ s ∈ w.sessions, s.channel.connection = n → ∀ o ∈ grants log, o.serial = n →
    o.resolved.scope = s.channel.scope

/-- All sessions on one connection are of one scope, whatever came before: so its scope is that of
any of them, in whatever order the tables hold them. -/
theorem connection_has_one_scope (hblank : w₀.Blank) (hrun : Run w₀ log w) (n : Nat) :
    OneScope log w n where
  agreed := hrun.agreed hblank n
  settled := scopeSettled_iff.2 (hrun.agreed hblank n)
  owners _ hperm := scopeSettled_iff.2 (hrun.agreed hblank n) _ (reordered_of_owned hperm)
  found _ hs hn := (hrun.agreed hblank n).scopeOf_eq hs hn
  asked _ hs hn _ ho hserial :=
    ((hrun.rooted hblank).scope_eq (hrun.granted hblank.toFresh) ho hs (hn.trans hserial.symm)).symm

/-- Of two components on one connection one is gone; its session outlives it. -/
def lobbyOutlived : List Moment × World :=
  lobby.play [.command 0 (.connect "x" ⟨"b"⟩ staying), .steps 10,
    .command 1 (.connect "y" ⟨"a"⟩ leaving), .steps 10, .command 2 (.teardown ⟨"b"⟩)]

theorem lobby_outlived_one_scope :
    (lobbyOutlived.2.owned.map fun entry => (entry.1, entry.2.map (·.channel.connection))) =
      [(⟨"a"⟩, [1])] ∧
    lobbyOutlived.2.detached.map (·.channel.connection) = [1] ∧
    OneScope lobbyOutlived.1 lobbyOutlived.2 1 ∧ lobbyOutlived.2.scopeOf 1 = some "home/" :=
  ⟨rfl, rfl, connection_has_one_scope lobby_blank (.of_play lobby rfl) 1, rfl⟩

end World

end Patchbay
