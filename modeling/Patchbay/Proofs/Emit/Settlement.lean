import Patchbay.Proofs.Emit.Result

/-!
How an emit settles. An emit that the pre-hook vetoes leaves nothing behind; one without an
acknowledgment is never recorded; any other ends with a good answer or with one record, and the
post-hook can tell which.
-/

namespace Patchbay

namespace EmitRun

/-- The law of settlement, of an emit that may still be under way. -/
structure Lawful (run : EmitRun) (seen : Seen) : Prop where
  once : seen.outcomes.length ≤ 1
  /-- The pre-hook is asked first, once and about the payload. -/
  gate : seen.attempts ≠ [] ∨ seen.outcomes ≠ [] →
    seen.gates.map (fun call => (call.1, call.2.1)) = run.hooks.pre.toList.map (·, run.payload)
  wire : seen.attempts.length ≤ 1 ∧
    seen.emissions = (seen.attempts.filter id).map fun _ => run.emission
  veto : seen.vetoed = true → seen.attempts = [] ∧ (∀ scope event, seen.recorded scope event = []) ∧
    seen.posts = [] ∧ ∀ result ∈ seen.outcomes, result = .ok .vetoed
  unacked : seen.vetoed = false → run.noAck = true →
    (∀ scope event, seen.recorded scope event = []) ∧
      (seen.posts = [] ∨ seen.attempts = [true] ∧
        seen.posts = run.hooks.post.toList.map (·, .null)) ∧
        ∀ result ∈ seen.outcomes,
          (seen.attempts = [true] ∧ result = .ok .sent ∧
            seen.posts = run.hooks.post.toList.map (·, .null)) ∨
          (seen.attempts = [false] ∧ (∃ error, result = .error (.transport error)) ∧
            seen.posts = [])
  acked : seen.vetoed = false → run.noAck = false → ∀ result ∈ seen.outcomes,
    seen.attempts.length = 1 ∧
      ((∃ v, result = .ok (.acked v) ∧ (∀ scope event, seen.recorded scope event = []) ∧
          seen.posts = run.hooks.post.toList.map (·, v)) ∨
        ∃ e stamp, result = .error e ∧
          (∀ scope event, seen.recorded scope event =
            if scope = run.channel.scope ∧ event = run.event then
              [e.toRecord run.event run.msg stamp] else []) ∧
          seen.posts =
            run.hooks.post.toList.map (·, Ack.errorValue (e.toRecord run.event run.msg stamp)))
  argument : ∀ call ∈ seen.posts, ∀ result ∈ seen.outcomes,
    Ack.isError call.2 = true ↔ ∃ e, result = .error e

variable {run : EmitRun} {after : AfterEmit} {seen : Seen} {e : Onward}
  {gates : List (Hook × Json × Verdict)} {result : Except EmitError EmitOutcome} {argument : Json}

theorem Passes.vetoed (h : run.Passes gates) (hseen : seen.gates = gates) :
    seen.vetoed = false := by
  rw [Seen.vetoed, hseen]
  cases h with
  | free hpre => rfl
  | passed hpre hverdict => simp [hverdict]

theorem Passes.not_vetoed (h : run.Passes gates) (hseen : seen.gates = gates) :
    ¬ seen.vetoed = true := by
  rw [h.vetoed hseen]
  exact Bool.false_ne_true

theorem Passes.asked (h : run.Passes gates) :
    gates.map (fun call => (call.1, call.2.1)) = run.hooks.pre.toList.map (·, run.payload) := by
  cases h with
  | free hpre => rw [hpre]; rfl
  | passed hpre hverdict => rw [hpre]; rfl

/-- An emit that has not reached the transport is lawful. -/
theorem lawful_of_unsent (hattempts : seen.attempts = []) (hemissions : seen.emissions = [])
    (hrecorded : ∀ scope event, seen.recorded scope event = []) (hposts : seen.posts = [])
    (houtcomes : seen.outcomes = []) : run.Lawful seen where
  once := by simp [houtcomes]
  gate := by simp [hattempts, houtcomes]
  wire := by simp [hattempts, hemissions]
  veto _ := ⟨hattempts, hrecorded, hposts, by simp [houtcomes]⟩
  unacked _ _ := ⟨hrecorded, .inl hposts, by simp [houtcomes]⟩
  acked _ _ := by simp [houtcomes]
  argument := by simp [hposts]

theorem lawful_of_vetoed {hook : Hook} {verdict : Verdict} (hpre : run.hooks.pre = some hook)
    (hverdict : verdict.isVeto = true) :
    run.Lawful { gates := [(hook, run.payload, verdict)], outcomes := [.ok .vetoed] } where
  once := Nat.le_refl 1
  gate _ := by rw [hpre]; rfl
  wire := ⟨Nat.zero_le 1, rfl⟩
  veto _ := ⟨rfl, fun _ _ => rfl, rfl, by simp⟩
  unacked hpasses := by simp [Seen.vetoed, hverdict] at hpasses
  acked hpasses := by simp [Seen.vetoed, hverdict] at hpasses
  argument := by simp

/-- So is one that waits for its answer, or to be settled. -/
theorem lawful_of_attempted (hgates : run.Passes gates) (accepted : Bool) :
    run.Lawful (run.attempted gates accepted) where
  once := Nat.zero_le 1
  gate _ := hgates.asked
  wire := by cases accepted <;> exact ⟨Nat.le_refl 1, rfl⟩
  veto hveto := absurd hveto (hgates.not_vetoed rfl)
  unacked _ _ := ⟨fun _ _ => rfl, .inl rfl, by simp [attempted]⟩
  acked _ _ := by simp [attempted]
  argument := by simp [attempted]

theorem lawful_of_refused (hgates : run.Passes gates) (hack : run.noAck = true)
    (error : TransportError) :
    run.Lawful { run.attempted gates false with outcomes := [.error (.transport error)] } where
  once := Nat.le_refl 1
  gate _ := hgates.asked
  wire := ⟨Nat.le_refl 1, rfl⟩
  veto hveto := absurd hveto (hgates.not_vetoed rfl)
  unacked _ _ := ⟨fun _ _ => rfl, .inl rfl, by simp [attempted]⟩
  acked _ hacked := by
    rw [hack] at hacked
    cases hacked
  argument := by simp [attempted]

/-- From the post-hook's call on, or from the end if there is none, an emit is lawful. -/
theorem Settles.lawful (h : run.Settles seen result argument) {posts : List (Hook × Json)}
    {outcomes : List (Except EmitError EmitOutcome)}
    (hposts : posts = [] ∨ posts = run.hooks.post.toList.map (·, argument))
    (houtcomes : outcomes = [] ∨
      outcomes = [result] ∧ posts = run.hooks.post.toList.map (·, argument)) :
    run.Lawful { seen with posts, outcomes } := by
  have honce : outcomes.length ≤ 1 := by
    rcases houtcomes with rfl | ⟨rfl, -⟩
    · exact Nat.zero_le 1
    · exact Nat.le_refl 1
  have hresult : ∀ r ∈ outcomes, r = result ∧ posts = run.hooks.post.toList.map (·, argument) := by
    intro r hr
    rcases houtcomes with rfl | ⟨rfl, hall⟩
    · cases hr
    · exact ⟨List.mem_singleton.1 hr, hall⟩
  have hargument : ∀ call ∈ posts, call.2 = argument := by
    intro call hcall
    rcases hposts with rfl | rfl
    · cases hcall
    · obtain ⟨hook, -, rfl⟩ := List.mem_map.1 hcall
      rfl
  cases h with
  | sent hgates hack =>
    refine ⟨honce, fun _ => hgates.asked, ⟨Nat.le_refl 1, rfl⟩, ?_, ?_, ?_, ?_⟩
    · intro hveto
      exact absurd hveto (hgates.not_vetoed rfl)
    · intro _ _
      refine ⟨fun _ _ => rfl, hposts.imp_right fun hall => ⟨rfl, hall⟩, fun r hr => .inl ?_⟩
      exact ⟨rfl, hresult r hr⟩
    · intro _ hacked
      rw [hack] at hacked
      cases hacked
    · intro call hcall r hr
      rw [hargument call hcall, (hresult r hr).1]
      simp [Ack.isError]
  | acked hgates hack hv =>
    refine ⟨honce, fun _ => hgates.asked, ⟨Nat.le_refl 1, rfl⟩, ?_, ?_, ?_, ?_⟩
    · intro hveto
      exact absurd hveto (hgates.not_vetoed rfl)
    · intro _ hunacked
      rw [hack] at hunacked
      cases hunacked
    · intro _ _ r hr
      exact ⟨rfl, .inl ⟨_, (hresult r hr).1, fun _ _ => rfl, (hresult r hr).2⟩⟩
    · intro call hcall r hr
      rw [hargument call hcall, (hresult r hr).1, hv]
      simp
  | failed accepted e stamp hgates hack =>
    have hwire := (lawful_of_attempted hgates accepted).wire
    refine ⟨honce, fun _ => hgates.asked, hwire, ?_, ?_, ?_, ?_⟩
    · intro hveto
      exact absurd hveto (hgates.not_vetoed rfl)
    · intro _ hunacked
      rw [hack] at hunacked
      cases hunacked
    · intro _ _ r hr
      exact ⟨rfl, .inr ⟨e, stamp, (hresult r hr).1, fun _ _ => rfl, (hresult r hr).2⟩⟩
    · intro call hcall r hr
      rw [hargument call hcall, (hresult r hr).1, Ack.isError_errorValue]
      simp

theorem Stage.lawful (h : run.Stage after seen e) : run.Lawful seen := by
  cases h with
  | due => exact lawful_of_unsent rfl rfl (fun _ _ => rfl) rfl rfl
  | gate hpre => exact lawful_of_unsent rfl rfl (fun _ _ => rfl) rfl rfl
  | gated hpre he => exact lawful_of_unsent rfl rfl (fun _ _ => rfl) rfl rfl
  | vetoed hpre hverdict => exact lawful_of_unsent rfl rfl (fun _ _ => rfl) rfl rfl
  | passed hgates => exact lawful_of_unsent rfl rfl (fun _ _ => rfl) rfl rfl
  | refused error hgates hack => exact lawful_of_attempted hgates false
  | awaiting hgates hack hdue he => exact lawful_of_attempted hgates true
  | answered hgates hack hv => exact lawful_of_attempted hgates true
  | rejected hgates hack hevent => exact lawful_of_attempted hgates _
  | post hpost h =>
    have hlawful := h.lawful (.inl rfl) (.inl rfl)
    rwa [← h.posts, ← h.outcomes] at hlawful
  | posted hpost h he =>
    have hlawful := h.lawful (.inr rfl) (.inl rfl)
    rwa [hpost, ← h.outcomes] at hlawful
  | settled h =>
    have hlawful := h.lawful (.inr rfl) (.inl rfl)
    rwa [← h.outcomes] at hlawful
  | ended h =>
    cases h with
    | vetoed hpre hverdict => exact lawful_of_vetoed hpre hverdict
    | refused error hgates hack => exact lawful_of_refused hgates hack error
    | settled h => exact h.lawful (.inr rfl) (.inr ⟨rfl, rfl⟩)
    | gated hpre he => cases he
    | awaiting hgates hack hdue he => rcases he with he | he <;> cases he
    | posted hpost h he => cases he

/-- An emit waits for a date or, without a timeout, for its answer. -/
theorem Stage.waits {job : Job} {signals : List Signal} {due : Option Nat}
    (h : run.Stage after seen (.parks job signals due)) :
    due.isSome = true ∨ run.noAck = false ∧ run.bound = none ∧ seen.vetoed = false ∧
      ∃ cell, signals = [.cell cell] := by
  cases h with
  | gated hpre he =>
    cases he
    exact .inl rfl
  | posted hpost h he =>
    cases he
    exact .inl rfl
  | @awaiting gates cell due' _ hgates hack hdue he =>
    rcases he with he | he
    · cases he
    · cases he
      cases due with
      | some t => exact .inl rfl
      | none => exact .inr ⟨hack, hdue rfl, hgates.vetoed rfl, cell, rfl⟩

theorem Stage.goes_on (h : run.Stage after seen e) (hopen : seen.outcomes = []) :
    ∃ job, e.job? = some job := by
  cases e with
  | ended =>
    cases h with
    | gated hpre he => cases he
    | awaiting hgates hack hdue he => rcases he with he | he <;> cases he
    | posted hpost h he => cases he
    | ended h => cases hopen
  | resumes job => exact ⟨job, rfl⟩
  | parks job signals due => exact ⟨job, rfl⟩

/-- Every emit keeps the law of settlement, whatever else goes on. What its steps append to the
error lists is all they do to them, and the calls of its hooks are real. What it ends with it has
found in one of its steps; an answer is what its cell was given. It is under way until it has
settled: ready, or waiting for a date or for an answer that is to come without a timeout. -/
theorem settles_lawfully {w₀ w₁ w : World} {log₁ log₂ : List Moment} {t : Nat}
    (hfresh : w₀.Fresh) (hreached : World.Run w₀ log₁ w₁) (hdue : ⟨t, .emit run after⟩ ∈ w₁.ready)
    (hrun : World.Run w₁ log₂ w) :
    let own := log₂.filter (·.task.id == t)
    let seen := Seen.of own
    run.Lawful seen ∧
    (∀ m ∈ own, m.world.trace <+: m.after.trace ∧
      (∀ scope event, m.after.sockets.errorsOf scope event =
        m.world.sockets.errorsOf scope event ++ m.recorded scope event) ∧
      (∀ call ∈ m.gate?, m.Calls call.1 call.2.1) ∧ ∀ call ∈ m.post?, m.Calls call.1 call.2) ∧
    (∀ result ∈ seen.outcomes, ∃ m ∈ own, run.Finds after m result) ∧
    (seen.outcomes = [] → (∃ job, ⟨t, job⟩ ∈ w.ready) ∨ ∃ p ∈ w.parked, p.task.id = t ∧
      (p.due.isSome = true ∨ run.noAck = false ∧ run.bound = none ∧ seen.vetoed = false ∧
        ∃ cell, p.signals = [.cell cell])) := by
  intro own seen
  have hcounted := hreached.counted hfresh.counted
  have hgiven : t ≤ w₁.started := hcounted.2 _ (List.mem_append_left _ hdue)
  have hstep (own : List Moment) (e : Onward) (m : Moment)
      (hstage : run.Stage after (Seen.of own) e) (hjob : e.job? = some m.job) :
      ∃ mid e', (∃ Q, World.Makes Q m.world mid) ∧ mid.onward e' = m.after ∧
        run.Stage after (Seen.of (own ++ [m])) e' := by
    rw [Seen.of_append]
    exact hstage.leads hjob
  obtain ⟨e, hstage, hstands⟩ :=
    World.Run.follow (P := fun own e => run.Stage after (Seen.of own) e) hcounted hgiven
      (.of_ready hcounted hdue) .due hstep hrun
  obtain ⟨_, _, hran, -⟩ := hrun.ran hcounted hdue
  refine ⟨hstage.lawful, fun m _ => ⟨m.trace_after, m.errorsOf_after, m.gate?_calls, m.post?_calls⟩,
    fun result hresult => hran.finds hresult, ?_⟩
  intro hopen
  obtain ⟨job, hjob⟩ := hstage.goes_on hopen
  rcases hstands.ready_or_parked hjob with hready | ⟨signals, due, rfl, hparked⟩
  · exact .inl ⟨job, hready⟩
  · exact .inr ⟨_, hparked, rfl, hstage.waits⟩

/-! A desk whose order is checked first and then turned down by the shop -/

def desk : World :=
  { settings := {}
    servers := [{
      namespaceName := "/"
      event := "order"
      reply := fun _ _ =>
        { delay := some 5, answer := .value (.obj [(Ack.errorKey, .str "sold out")]) } }]
    components := [("desk", { handlers := [
      ("check", { reply := fun _ _ => { delay := some 3, verdict := .ok (.bool true) } }),
      ("note", { reply := fun _ _ => { verdict := .ok .null } })] })] }

def order : EmitRun :=
  { channel := ⟨1, "shop/", none⟩, event := "order", msg := some (.int 2), timeout := some 20
    hooks := ⟨some ⟨⟨"desk"⟩, "check"⟩, some ⟨⟨"desk"⟩, "note"⟩⟩ }

def soldOut : ErrorRecord :=
  { message := "sold out", event := "order", msg := some (.int 2), details := [], timestamp := "" }

/-- The order is about to be made. -/
def deskReady : List Moment × World :=
  desk.play [.command 0 (.openBare "h" "http://shop" "/" []),
    .command 1 (.emitHooks "h" ⟨⟨"desk"⟩, "order", some (.int 2), some "check", some "note",
      some 20, none, false, "shop/"⟩)]

def deskDone : List Moment × World :=
  deskReady.2.play [.steps 10, .pass 3, .steps 10, .pass 5, .steps 20]

theorem desk_fresh : desk.Fresh :=
  .of_unwatched rfl (List.forall_mem_singleton.2 rfl)

theorem settles_when_sold_out :
    (Seen.of (deskDone.1.filter (·.task.id == 1))).outcomes = [.error (.remote soldOut)] ∧
      order.Lawful (Seen.of (deskDone.1.filter (·.task.id == 1))) := by
  have hreached : World.Run desk deskReady.1 deskReady.2 := .of_play desk rfl
  have hrun : World.Run deskReady.2 deskDone.1 deskDone.2 := .of_play deskReady.2 rfl
  have hdue : ⟨1, .emit order (.outcome 1)⟩ ∈ deskReady.2.ready := .head _
  exact ⟨rfl, (settles_lawfully desk_fresh hreached hdue hrun).1⟩

end EmitRun

end Patchbay
