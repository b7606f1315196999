import Patchbay.Proofs.Listeners.InHand

/-!
Listeners of a session that was torn down. None of them does anything any more, but for the payload
that a worker had in hand: it is not told that its session is over until it looks for the next one.
-/

namespace Patchbay

/-- The token under which a listener was attached, if it stops with it. -/
def Reaction.token? : Reaction → Option Token
  | .enqueue _ token => some token
  | .status _ _ token => some token
  | .apiEvent _ _ token => some token
  | .serve _ token => some token
  | _ => none

namespace World

variable {w₀ w₁ w : World} {log₁ log₂ : List Moment} {owner : ComponentId} {s : Session} {i : Nat}

/-- A listener whose session is over does nothing; who waits for its answer is told. -/
theorem react_of_cancelled (w : World) {action : Reaction} {token : Token}
    (htoken : action.token? = some token) (hcancelled : w.isCancelled token = true) (payload : Json)
    (ack : Option CellId) : w.react action payload ack = w.abandonIf ack := by
  cases action with
  | enqueue worker t =>
    obtain rfl : t = token := Option.some.inj htoken
    simp only [react, hcancelled, ↓reduceIte]
  | status owner path t =>
    obtain rfl : t = token := Option.some.inj htoken
    simp only [react, hcancelled, ↓reduceIte]
  | apiEvent owner paths t =>
    obtain rfl : t = token := Option.some.inj htoken
    simp only [react, hcancelled, ↓reduceIte]
  | serve hook t =>
    obtain rfl : t = token := Option.some.inj htoken
    simp only [react, hcancelled, ↓reduceIte]
  | _ => cases htoken

/-- How the listeners of a session run out that was torn down in `w₁`, in what was done since. -/
structure RunsOut (s : Session) (w₁ : World) (log : List Moment) (w : World) : Prop where
  closed : w.isConnected s.channel.connection = false
  /-- What is heard has no effect, now and later. -/
  deaf : ∀ u : World, w.cancelled ⊆ u.cancelled → ∀ action : Reaction,
    action.token? = some s.token → ∀ payload ack, u.react action payload ack = u.abandonIf ack
  /-- A worker of the session brings no payload to its target but the one it had in hand, or one
  that was queued then; and the store is at no other payload for it. -/
  workers : ∀ i x, w.workers[i]? = some x → x.token = s.token →
    (w₁.ahead i ++ w₁.applying i).length ≤ 1 ∧
      (brought i log).Sublist (w₁.ahead i ++ w₁.queued i) ∧
      ∀ m ∈ log, ∀ p, m.job.of i Job.applying? = some p → p ∈ w₁.applying i ++ brought i log

/-- When a component was torn down, the listeners of its sessions that went with it only finish what
their workers had in hand or in their queues: nothing that is heard later has an effect. -/
theorem torn_down_listeners_run_out (hblank : w₀.Blank) (hbefore : Run w₀ log₁ w₁)
    (hs : s ∈ w₁.sessionsOf owner) (hteardown : s.teardown = true)
    (hafter : Run (w₁.teardown owner).1 log₂ w) : RunsOut s w₁ log₂ w := by
  have horderly := hbefore.orderly hblank.orderly
  have hminded := hbefore.minded hblank.orderly hblank.minded
  have hsession : s ∈ w₁.sessions := hminded.roster.sessionsOf_subset owner hs
  have htorn : Over s (w₁.teardown owner).1 := teardown_over hminded.listed
    (fun s hs => horderly.own (hminded.roster.sessionsOf_subset owner hs)) s hs hteardown
  have hundone := teardown_makes w₁ owner
  refine ⟨?_, ?_, ?_⟩
  · have hopened : w₁.Opened s.channel.connection :=
      horderly.held.opened s.holder (mem_holding_of_session hsession)
    refine Bool.eq_false_iff.2 fun hlive => ?_
    have hearlier := hafter.isConnected_earlier (hopened.makes hundone) hlive
    rw [htorn.closed] at hearlier
    cases hearlier
  · intro u hu action htoken payload ack
    have hcancelled := hafter.isCancelled htorn.cancelled
    exact react_of_cancelled u htoken
      (List.contains_iff_mem.2 (hu (List.contains_iff_mem.1 hcancelled))) payload ack
  · intro i x hx htoken
    have hsingle := (hbefore.single hblank.toFresh i).in_hand
    obtain ⟨hgoes, hbrings⟩ := hafter.goes (i := i) fun y hy => by
      rw [hx] at hy
      rw [← Option.some.inj hy, htoken]
      exact htorn.cancelled
    have hahead : ((w₁.teardown owner).1.ahead i).Perm (w₁.ahead i) :=
      hundone.of (fun _ h => h.elim) fun _ => rfl
    have happlying : ((w₁.teardown owner).1.applying i).Perm (w₁.applying i) :=
      hundone.of (fun _ h => h.elim) fun _ => rfl
    refine ⟨hsingle, ?_, fun m hm p hp => ?_⟩
    · obtain ⟨dropped, hdropped⟩ := hgoes.ahead
      rw [List.append_assoc] at hdropped
      have hone : (w₁.ahead i).length ≤ 1 := by
        rw [List.length_append] at hsingle
        omega
      exact (sublist_of_perm_append (hahead.symm.trans hdropped) hone).trans
        (List.sublist_append_left _ _)
    · rcases List.mem_append.1 (hbrings m hm p hp) with hold | hnew
      · exact List.mem_append_left _ (happlying.subset hold)
      · exact List.mem_append_right _ hnew

/-! A component that is torn down while its handler looks at the news -/

/-- Its handler takes its time and lets everything pass. -/
def watchman : World :=
  { settings := { sockets := [{ name := "home", url := some "http://home" }] }
    components := [("a", { handlers :=
      [("gate", { reply := fun _ _ => { delay := some 50, verdict := .ok .null } })] })] }

/-- The news have come in. -/
def watchmanBusy : List Moment × World :=
  watchman.play [.command 0 (.connect "x" ⟨"a"⟩
      { namespaceConfig := some { listeners := [.str "gate] news"] } }), .steps 10,
    .command 1 (.push "x" "news" (.int 1)), .steps 10]

/-- The component goes, and then the handler returns. -/
def watchmanGone : List Moment × World :=
  (watchmanBusy.2.teardown ⟨"a"⟩).1.play [.pass 60, .steps 10]

theorem watchman_blank : watchman.Blank := .of_unwatched rfl fun entry hentry => by
  rw [List.mem_singleton.1 hentry]

theorem watchman_runs : Run watchman watchmanBusy.1 watchmanBusy.2 ∧
    Run (watchmanBusy.2.teardown ⟨"a"⟩).1 watchmanGone.1 watchmanGone.2 :=
  ⟨.of_play _ rfl, .of_play _ rfl⟩

/-- The news are written when the component is gone. -/
theorem news_written_after_teardown : ∃ s ∈ watchmanBusy.2.sessionsOf ⟨"a"⟩,
    s.teardown = true ∧ RunsOut s watchmanBusy.2 watchmanGone.1 watchmanGone.2 ∧
      brought 0 watchmanGone.1 = [.int 1] ∧
      ((watchmanBusy.2.teardown ⟨"a"⟩).1.tree (.component ⟨"a"⟩)).get? "news" = none ∧
      (watchmanGone.2.tree (.component ⟨"a"⟩)).get? "news" = some (.int 1) := by
  obtain ⟨s, hs, hteardown⟩ : ∃ s ∈ watchmanBusy.2.sessionsOf ⟨"a"⟩, s.teardown = true :=
    ⟨_, .head _, rfl⟩
  exact ⟨s, hs, hteardown,
    torn_down_listeners_run_out watchman_blank watchman_runs.1 hs hteardown watchman_runs.2,
    rfl, rfl, rfl⟩

/-- So a listener has an effect when its session was torn down. -/
theorem brought_after_teardown :
    ¬ ∀ (w₀ w₁ w : World) (log₁ log₂ : List Moment) (owner : ComponentId) (s : Session) (i : Nat)
      (x : Worker), w₀.Blank → Run w₀ log₁ w₁ → s ∈ w₁.sessionsOf owner → s.teardown = true →
      Run (w₁.teardown owner).1 log₂ w → w.workers[i]? = some x → x.token = s.token →
      brought i log₂ = [] := by
  intro h
  obtain ⟨s, hs, hteardown, htoken⟩ : ∃ s ∈ watchmanBusy.2.sessionsOf ⟨"a"⟩, s.teardown = true ∧
      s.token = 0 := ⟨_, .head _, rfl, rfl⟩
  obtain ⟨x, hx, hworker⟩ : ∃ x, watchmanGone.2.workers[0]? = some x ∧ x.token = 0 := ⟨_, rfl, rfl⟩
  have hnone := h _ _ _ _ _ _ s 0 x watchman_blank watchman_runs.1 hs hteardown watchman_runs.2 hx
    (hworker.trans htoken.symm)
  cases hnone

end World

end Patchbay
