import Patchbay.Proofs.Sessions.Causes

/-!
What ends a session, and what does not. When a component is torn down, a session whose connection
has none of the sessions that go with it stays as it was, with all that it has attached.
-/

namespace Patchbay

/-- A change that drops no session. -/
def Change.Retains : Change → Prop
  | .disown _ | .disownAll => False
  | _ => True

theorem Change.Among.retains {c : Change} (h : c.Among (Kind.but [.disown, .disownAll])) :
    c.Retains := by
  cases c <;> first | exact trivial | exact h.elim

theorem Change.Still.retains {c : Change} (h : c.Still) : c.Retains := by
  cases c <;> first | exact h.elim | exact trivial

theorem Job.May.retains {job : Job} {c : Change} (h : job.May c) : c.Retains := by
  cases job with
  | connect => exact Change.Among.retains (h.among.mono rfl)
  | _ => exact Change.Among.retains ((h.among_of_ne_connect (by simp)).mono rfl)

namespace World

variable {w₀ w w' : World} {log : List Moment} {s : Session} {owner : ComponentId}

/-! Sessions that stay -/

theorem mem_sessions_track (hs : s ∈ w.sessions) (s' : Session) : s ∈ (w.track s').sessions := by
  rcases List.mem_append.1 hs with howned | hdetached
  · obtain ⟨⟨o, sessions⟩, hentry, hmem⟩ := List.mem_flatMap.1 howned
    refine List.mem_append_left _ (List.mem_flatMap.2 ?_)
    unfold track
    split
    · exact ⟨(o, sessions), List.mem_append_left _ hentry, hmem⟩
    · refine ⟨_, List.mem_map_of_mem hentry, ?_⟩
      dsimp only
      split
      · exact List.mem_append_left _ hmem
      · exact hmem
  · obtain ⟨owned, heq⟩ := track_eq w s'
    rw [heq]
    exact List.mem_append_right _ hdetached

theorem mem_sessions_apply {ch : Change} (hs : s ∈ w.sessions) (hch : ch.Retains) :
    s ∈ (w.apply ch).sessions := by
  by_cases hstill : ch.Still
  · obtain ⟨howned, hdetached⟩ := apply_owned w hstill
    rwa [sessions, howned, hdetached]
  · cases ch with
    | track s' => exact mem_sessions_track hs s'
    | outlive s' => exact (outlive_sessions w s').symm.subset (List.mem_cons_of_mem _ hs)
    | spawn job => exact hs
    | disown => exact hch.elim
    | disownAll => exact hch.elim
    | _ => exact absurd trivial hstill

theorem Makes.retains {P : Change → Prop} (h : Makes P w w') (hP : ∀ ch, P ch → ch.Retains)
    (hs : s ∈ w.sessions) : s ∈ w'.sessions :=
  h.keeps (I := fun w => s ∈ w.sessions) (fun _ ch hch hw => mem_sessions_apply hw (hP ch hch)) hs

/-- A session that does not go with the component is known after it is torn down. -/
theorem mem_sessions_teardown (hroster : w.Rostered) (hs : s ∈ w.sessions)
    (hstays : s ∈ w.sessionsOf owner → s.teardown = false) : s ∈ (w.teardown owner).1.sessions := by
  obtain ⟨howned, hdetached⟩ := teardown_owned w owner
  rw [sessions, howned, hdetached]
  rcases List.mem_append.1 ((disown_sessions hroster.once owner).symm.subset hs) with hers | hother
  · refine List.mem_append_right _ (List.mem_append_right _ (List.mem_filter.2 ⟨hers, ?_⟩))
    rw [hstays hers]
    rfl
  · rcases List.mem_append.1 hother with howned | hdetached
    · exact List.mem_append_left _ howned
    · exact List.mem_append_right _ (List.mem_append_left _ hdetached)

/-- A turn that drops a session closes its connection. -/
theorem Turn.drops_session (hroster : w.Rostered) (h : w.Turn w') (hs : s ∈ w.sessions) :
    s ∈ w'.sessions ∨ Closes s.channel.connection w w' := by
  cases h with
  | @job task rest hready =>
    obtain ⟨mid, e, hmid, -, heq⟩ := exec_does (w.begin task rest) task.job
    have hsame : (mid.onward e).sessions = mid.sessions := by cases e <;> rfl
    have hbegun : s ∈ (w.begin task rest).sessions := hs
    refine .inl (heq ▸ ?_)
    rw [hsame]
    exact hmid.retains (fun _ hch => hch.retains) hbegun
  | @command ticket c hc =>
    rcases perform_cases w ticket hc with
      ⟨owner, rfl⟩ | rfl | ⟨-, serial, hshuts⟩ | ⟨-, hhushes⟩ | hasks
    · by_cases hgoes : s ∈ w.sessionsOf owner ∧ s.teardown = true
      · exact .inr (.teardown ticket hgoes.1 hgoes.2 rfl)
      · refine .inl (mem_sessions_teardown hroster hs fun hers => ?_)
        exact Bool.eq_false_iff.2 fun hteardown => hgoes ⟨hers, hteardown⟩
    · exact .inr (.shutdown ticket hs rfl)
    · exact .inl (hshuts.retains (fun _ hch => hch.works.adds.still.retains) hs)
    · exact .inl (hhushes.retains (fun _ hch => hch.still.retains) hs)
    · exact .inl (hasks.retains (fun _ hch => hch.works.adds.still.retains) hs)
  | pass ht => exact .inl hs
  | wake => exact .inl hs

/-! Sessions whose connection is open -/

/-- The session is known, and its connection is open. -/
structure Alive (s : Session) (w : World) : Prop where
  known : s ∈ w.sessions
  connected : w.isConnected s.channel.connection = true

/-- A turn that ends a session closes its connection for one who may, or the request fails in it for
which that was opened. -/
theorem Turn.ends_session {openers : List Charge} {muted : Bool} {past : Past}
    (horderly : Orderly muted past [] w) (hminded : Minded openers [] w) (h : w.Turn w')
    (halive : Alive s w) (hended : ¬ Alive s w') : Closes s.channel.connection w w' ∨
      ∃ c, c.reused = false ∧ c.pass.channel.connection = s.channel.connection ∧ Fails c w w' := by
  cases hlive : w'.isConnected s.channel.connection with
  | true =>
    refine .inl ((h.drops_session hminded.roster halive.known).resolve_left fun hknown => ?_)
    exact hended ⟨hknown, hlive⟩
  | false => exact h.closes horderly hminded halive.connected hlive

/-- A component that is torn down takes no more along than is on the connections of the sessions
that go with it. -/
theorem Alive.teardown {openers : List Charge} {muted : Bool} {past : Past}
    (horderly : Orderly muted past [] w) (hminded : Minded openers [] w) (halive : Alive s w)
    (hapart : ∀ s' ∈ w.sessionsOf owner, s'.teardown = true →
      s'.channel.connection ≠ s.channel.connection) :
    Alive s (w.teardown owner).1 ∧ Leaves s.channel.connection w (w.teardown owner).1 ∧
      ∀ item ∈ s.holder.items, w.Intact item → (w.teardown owner).1.Intact item := by
  have hknown {s' : Session} (hs' : s' ∈ w.sessionsOf owner) : s' ∈ w.sessions :=
    hminded.roster.sessionsOf_subset owner hs'
  have hown : ∀ s' ∈ w.sessionsOf owner, s'.holder.Own := fun s' hs' => horderly.own (hknown hs')
  have hleaves := teardown_leaves hown hapart
  refine ⟨⟨mem_sessions_teardown hminded.roster halive.known fun hers => ?_, ?_⟩, hleaves, ?_⟩
  · exact Bool.eq_false_iff.2 fun hteardown => hapart s hers hteardown rfl
  · exact hleaves.connected.trans halive.connected
  · intro item hitem hintact
    refine teardown_intact hown (fun s' hs' hteardown => ⟨?_, ?_⟩) hintact
    · refine horderly.held.disjoint (mem_holding_of_session halive.known)
        (mem_holding_of_session (hknown hs')) ?_ hitem
      exact fun heq => hapart s' hs' hteardown (congrArg Holder.connection heq).symm
    · rintro n id rfl
      rw [horderly.own halive.known n id hitem]
      exact (hapart s' hs' hteardown).symm

/-- A component that is torn down leaves a session alive, with its listeners, its tokens and all
that is registered through its connection, unless one of the sessions that go with the component
shares that connection. What ends a session closes its connection: for one who may, or since the
request fails for which it was opened and which waited all the time. -/
theorem session_lives_until_its_connection_is_closed (hblank : w₀.Blank) (hrun : Run w₀ log w)
    (halive : Alive s w) :
    (∀ owner, (∀ s' ∈ w.sessionsOf owner, s'.teardown = true →
        s'.channel.connection ≠ s.channel.connection) →
      Alive s (w.teardown owner).1 ∧ Leaves s.channel.connection w (w.teardown owner).1 ∧
        ∀ item ∈ s.holder.items, w.Intact item → (w.teardown owner).1.Intact item) ∧
      ∀ later w', Run w later w' → ¬ Alive s w' → ∃ log₁ v v' log₂, Run w log₁ v ∧ v.Turn v' ∧
        Run v' log₂ w' ∧ Alive s v ∧ ¬ Alive s v' ∧ (Closes s.channel.connection v v' ∨
          ∃ c ∈ w.waiting, c.reused = false ∧ c.pass.channel.connection = s.channel.connection ∧
            Fails c v v') := by
  constructor
  · exact fun owner hapart => halive.teardown (hrun.orderly hblank.orderly)
      (hrun.minded hblank.orderly hblank.minded) hapart
  · intro later w' hlater hended
    obtain ⟨log₁, v, v', log₂, hbefore, hv, hturn, hv', hafter⟩ :=
      hlater.exists_turn (I := Alive s) halive hended
    refine ⟨log₁, v, v', log₂, hbefore, hturn, hafter, hv, hv', ?_⟩
    have hmeanwhile := hrun.trans hbefore
    exact (hturn.ends_session (hmeanwhile.orderly hblank.orderly)
      (hmeanwhile.minded hblank.orderly hblank.minded) hv hv').imp_right
      (hbefore.opener_waited halive.connected)

def staying : ConnectOptions := { persist := .key "main", teardown := some false }

/-- One component is to keep its session; another shares the connection and is to lose its own, and
so is a third, which has a connection of its own. -/
def lobbyMixed : List Moment × World :=
  lobby.play [.command 0 (.connect "x" ⟨"b"⟩ staying), .steps 10,
    .command 1 (.connect "y" ⟨"a"⟩ leaving), .steps 10,
    .command 2 (.connect "z" ⟨"c"⟩ { teardown := some true }), .steps 10]

theorem staying_session_in_lobby : ∃ s ∈ lobbyMixed.2.sessions,
    s.teardown = false ∧ s.channel.connection = 1 := ⟨_, .head _, rfl, rfl⟩

theorem session_lost_with_that_of_another : ∃ s, s.teardown = false ∧
    Alive s (lobbyMixed.2.teardown ⟨"c"⟩).1 ∧ ¬ Alive s (lobbyMixed.2.teardown ⟨"a"⟩).1 ∧
      ∃ v v', v.Turn v' ∧ Alive s v ∧ ¬ Alive s v' ∧ (Closes 1 v v' ∨
        ∃ c ∈ lobbyMixed.2.waiting, c.reused = false ∧ c.pass.channel.connection = 1 ∧
          Fails c v v') := by
  have hrun : Run lobby lobbyMixed.1 lobbyMixed.2 := .of_play lobby rfl
  obtain ⟨s, hs, hstays, hconnection⟩ := staying_session_in_lobby
  have halive : Alive s lobbyMixed.2 := ⟨hs, hconnection ▸ rfl⟩
  obtain ⟨hspared, hends⟩ := session_lives_until_its_connection_is_closed lobby_blank hrun halive
  have hapart : ∀ s' ∈ lobbyMixed.2.sessionsOf ⟨"c"⟩, s'.teardown = true →
      s'.channel.connection ≠ s.channel.connection := by
    have hall : (lobbyMixed.2.sessionsOf ⟨"c"⟩).map (·.channel.connection) = [2] := rfl
    intro s' hs' _ heq
    have hmem : s'.channel.connection ∈ [2] := hall ▸ List.mem_map_of_mem hs'
    rw [heq, hconnection] at hmem
    exact absurd hmem (by decide)
  have hended : ¬ Alive s (lobbyMixed.2.teardown ⟨"a"⟩).1 := by
    intro hstill
    have hdown := hstill.connected
    rw [hconnection] at hdown
    cases hdown
  obtain ⟨log₁, v, v', log₂, -, hturn, -, hv, hv', hcause⟩ :=
    hends [] _ (.command .start 0 (c := .teardown ⟨"a"⟩) nofun) hended
  rw [hconnection] at hcause
  exact ⟨s, hstays, (hspared _ hapart).1, hended, v, v', hturn, hv, hv', hcause⟩

/-- So a session that is to outlive its component is lost with one of another component. -/
theorem shut_with_session_of_another :
    ¬ ∀ (w₀ w : World) (log : List Moment) (s : Session) (owner : ComponentId), w₀.Blank →
      Run w₀ log w → s ∈ w.sessions → s.teardown = false →
      w.isConnected s.channel.connection = true →
      (w.teardown owner).1.isConnected s.channel.connection = true := by
  intro h
  obtain ⟨s, hs, hstays, hconnection⟩ := staying_session_in_lobby
  have hlive := h lobby lobbyMixed.2 lobbyMixed.1 s ⟨"a"⟩ lobby_blank (.of_play lobby rfl) hs hstays
    (hconnection ▸ rfl)
  rw [hconnection] at hlive
  cases hlive

end World

end Patchbay
