import Patchbay.Proofs.Emit.Ack
import Patchbay.Proofs.Engine.Follow

/-!
What can be seen of one emit from outside: the calls of its hooks, what it puts on the wire and
into the error lists, and how it ends. Only two of its steps leave anything on the wire or in the
lists; all others are silent.
-/

namespace Patchbay

/-- Something was put on the wire. -/
def Event.isEmission : Event → Bool
  | .emitted .. => true
  | _ => false

/-- A change that puts nothing on the wire and records no error. -/
def Change.Silent : Change → Prop
  | .recordError .. => False
  | .record event => event.isEmission = false
  | _ => True

theorem Change.Among.silent {c : Change} (h : c.Among (Kind.but [.recordError, .emission])) :
    c.Silent := by
  cases c with
  | record event => cases event <;> first | exact rfl | exact h.elim
  | _ => first | exact trivial | exact h.elim

theorem Change.Basic.silent {c : Change} (h : c.Basic) : c.Silent := Among.silent (h.mono rfl)

theorem Change.Finishes.silent {c : Change} (h : c.Finishes) : c.Silent := Among.silent (h.mono rfl)

theorem Change.Routes.silent {c : Change} (h : c.Routes) : c.Silent := by
  cases c with
  | record event => exact Change.Basic.silent h
  | _ => first | exact h.elim | exact trivial

namespace Moment

variable (m : Moment)

/-- A call of a pre-hook: its argument, and what it returns. -/
def gate? : Option (Hook × Json × Verdict) :=
  match m.job with
  | .hook hook argument (.gate _ _) => some (hook, argument, m.world.verdict hook argument)
  | _ => none

/-- A pre-hook that is called is seen in the trace, if it is there. -/
theorem gate?_calls : ∀ call ∈ m.gate?, m.Calls call.1 call.2.1 := by
  intro call hcall
  unfold gate? at hcall
  split at hcall
  · rename_i hjob
    obtain rfl := Option.some.inj hcall
    exact calls_of_hook hjob
  · cases hcall

/-- An attempt at the transport, and whether the connection is open for it. -/
def attempt? : Option Bool :=
  match m.job with
  | .transmit run _ => some (m.world.isConnected run.channel.connection)
  | _ => none

/-- What the step puts on the wire. -/
def emissions : List Event := (m.after.trace.drop m.world.trace.length).filter Event.isEmission

/-- What the step appends to an error list. -/
def recorded (scope event : String) : List ErrorRecord :=
  (m.after.sockets.errorsOf scope event).drop (m.world.sockets.errorsOf scope event).length

/-- A call of a post-hook, with its argument. -/
def post? : Option (Hook × Json) :=
  match m.job with
  | .hook hook argument (.settled _ _) => some (hook, argument)
  | _ => none

/-- So is a post-hook. -/
theorem post?_calls : ∀ call ∈ m.post?, m.Calls call.1 call.2 := by
  intro call hcall
  unfold post? at hcall
  split at hcall
  · rename_i hjob
    obtain rfl := Option.some.inj hcall
    exact calls_of_hook hjob
  · cases hcall

/-- The result of an emit. -/
def outcome? : Option (Except EmitError EmitOutcome) :=
  match m.job with
  | .emitDone result _ => some result
  | _ => none

end Moment

namespace EmitRun

/-- What was seen of an emit so far, each kind in order. -/
structure Seen where
  gates : List (Hook × Json × Verdict) := []
  attempts : List Bool := []
  emissions : List Event := []
  recorded : String → String → List ErrorRecord := fun _ _ => []
  posts : List (Hook × Json) := []
  outcomes : List (Except EmitError EmitOutcome) := []

namespace Seen

def add (seen : Seen) (m : Moment) : Seen where
  gates := seen.gates ++ m.gate?.toList
  attempts := seen.attempts ++ m.attempt?.toList
  emissions := seen.emissions ++ m.emissions
  recorded scope event := seen.recorded scope event ++ m.recorded scope event
  posts := seen.posts ++ m.post?.toList
  outcomes := seen.outcomes ++ m.outcome?.toList

/-- What is seen of the steps of an emit. -/
def of (own : List Moment) : Seen := own.foldl add {}

theorem of_append (own : List Moment) (m : Moment) : of (own ++ [m]) = (of own).add m := by
  simp [of]

/-- A kind to which each step adds what is seen of it there. -/
theorem of_collects {α : Type} (kind : Seen → List α) {seen? : Moment → Option α}
    (hadd : ∀ seen m, kind (add seen m) = kind seen ++ (seen? m).toList) (hnone : kind {} = [])
    (own : List Moment) : kind (of own) = own.filterMap seen? := by
  have hfold (seen : Seen) : kind (own.foldl add seen) = kind seen ++ own.filterMap seen? := by
    induction own generalizing seen with
    | nil => exact (List.append_nil _).symm
    | cons m rest ih =>
      rw [List.foldl_cons, ih, hadd, List.append_assoc]
      cases h : seen? m <;> simp [h]
  rw [of, hfold, hnone, List.nil_append]

theorem attempts_of (own : List Moment) : (of own).attempts = own.filterMap (·.attempt?) :=
  of_collects attempts (fun _ _ => rfl) rfl own

theorem outcomes_of (own : List Moment) : (of own).outcomes = own.filterMap Moment.outcome? :=
  of_collects outcomes (fun _ _ => rfl) rfl own

/-- A pre-hook has returned exactly `false`. -/
def vetoed (seen : Seen) : Bool := seen.gates.any fun gate => gate.2.2.isVeto

end Seen

end EmitRun

namespace World

variable {P : Change → Prop} {w mid : World}

theorem Makes.extends (h : Makes P w mid) : w.trace <+: mid.trace := by
  refine h.keeps (I := fun w' => w.trace <+: w'.trace) ?_ (List.prefix_refl _)
  intro w' c _ hw
  obtain ⟨more, htrace, -⟩ := apply_trace w' c
  rw [htrace]
  exact hw.trans (List.prefix_append _ _)

/-- Error lists only grow, at their ends. -/
theorem Makes.errorsOf_prefix (h : Makes P w mid) (scope event : String) :
    w.sockets.errorsOf scope event <+: mid.sockets.errorsOf scope event := by
  refine h.keeps (I := fun w' => w.sockets.errorsOf scope event <+: w'.sockets.errorsOf scope event)
    (fun w' c _ hw => hw.trans ?_) (List.prefix_refl _)
  by_cases hrecord : ∃ scope' record, c = .recordError scope' record
  · obtain ⟨scope', record, rfl⟩ := hrecord
    have happly : (w'.apply (.recordError scope' record)).sockets =
        w'.sockets.recordError scope' record := rfl
    rw [happly, SocketState.errorsOf_recordError]
    exact List.prefix_append _ _
  · have herrors := apply_errors w' fun scope' record heq => hrecord ⟨scope', record, heq⟩
    have hlist : (w'.apply c).sockets.errorsOf scope event = w'.sockets.errorsOf scope event := by
      rw [SocketState.errorsOf, herrors]
      rfl
    exact hlist ▸ List.prefix_refl _

theorem Makes.silent (h : Makes Change.Silent w mid) :
    mid.sockets.errors = w.sockets.errors ∧
      ∃ more, mid.trace = w.trace ++ more ∧ more.filter Event.isEmission = [] := by
  refine h.keeps (I := fun w' => w'.sockets.errors = w.sockets.errors ∧
      ∃ more, w'.trace = w.trace ++ more ∧ more.filter Event.isEmission = [])
    ?_ ⟨rfl, [], by simp, rfl⟩
  intro w' c hc hw
  obtain ⟨herrors, more, htrace, hmore⟩ := hw
  have hkept : ∀ scope record, c ≠ .recordError scope record := by
    rintro scope record rfl
    exact hc
  obtain ⟨last, hlast, hevents⟩ := apply_trace w' c
  refine ⟨(apply_errors w' hkept).trans herrors, more ++ last, ?_, ?_⟩
  · rw [hlast, htrace, List.append_assoc]
  · rw [List.filter_append, hmore, List.nil_append]
    refine List.filter_eq_nil_iff.2 ?_
    intro event hmem
    rcases hevents event hmem with rfl | ⟨_, _, rfl⟩ | ⟨_, _, _, _, rfl⟩
    · have hsilent : event.isEmission = false := hc
      simp [hsilent]
    · simp [Event.isEmission]
    · simp [Event.isEmission]

theorem onward_trace (w : World) (e : Onward) : (w.onward e).trace = w.trace := by
  cases e <;> rfl

theorem onward_sockets (w : World) (e : Onward) : (w.onward e).sockets = w.sockets := by
  cases e <;> rfl

end World

namespace Moment

variable {m : Moment} {mid : World} {e : Onward}

/-- What a step appends to an error list is all it does to it. -/
theorem errorsOf_after (m : Moment) (scope event : String) :
    m.after.sockets.errorsOf scope event =
      m.world.sockets.errorsOf scope event ++ m.recorded scope event := by
  obtain ⟨mid, e, hmid, -, heq⟩ := World.exec_does m.world m.task.job
  have hsockets : m.after.sockets = mid.sockets := by
    rw [after, ← heq, World.onward_sockets]
  obtain ⟨more, hmore⟩ := hmid.errorsOf_prefix scope event
  rw [recorded, hsockets, ← hmore, List.drop_left]

theorem trace_after (m : Moment) : m.world.trace <+: m.after.trace := by
  obtain ⟨mid, e, hmid, -, heq⟩ := World.exec_does m.world m.task.job
  rw [after, ← heq, World.onward_trace]
  exact hmid.extends

theorem emissions_of_silent (h : World.Makes Change.Silent m.world mid)
    (he : mid.onward e = m.after) :
    m.emissions = [] := by
  obtain ⟨-, more, htrace, hmore⟩ := h.silent
  rw [emissions, ← he, World.onward_trace, htrace, List.drop_left, hmore]

variable {sent : World} {event : Event}

/-- A step that puts one event on the wire and hands it over. -/
theorem emissions_of_sent (hevent : event.isEmission = true)
    (htrace : sent.trace = m.world.trace ++ [event]) (h : World.Makes Change.Silent sent mid)
    (he : mid.onward e = m.after) : m.emissions = [event] := by
  obtain ⟨-, more, hmid, hmore⟩ := h.silent
  rw [emissions, ← he, World.onward_trace, hmid, htrace, List.append_assoc, List.drop_left,
    List.filter_append, hmore]
  simp [hevent]

theorem recorded_of_silent (hsockets : sent.sockets = m.world.sockets)
    (h : World.Makes Change.Silent sent mid) (he : mid.onward e = m.after) (scope event : String) :
    m.recorded scope event = [] := by
  obtain ⟨herrors, -⟩ := h.silent
  have hlist : mid.sockets.errorsOf scope event = m.world.sockets.errorsOf scope event := by
    rw [SocketState.errorsOf, herrors, hsockets]
    rfl
  rw [recorded, ← he, World.onward_sockets, hlist]
  exact List.drop_length

/-- A step that records an error. -/
theorem recorded_of_recordError {scope : String} {record : ErrorRecord}
    (hsockets : mid.sockets = m.world.sockets.recordError scope record)
    (he : mid.onward e = m.after) (scope' event : String) :
    m.recorded scope' event = if scope' = scope ∧ event = record.event then [record] else [] := by
  rw [recorded, ← he, World.onward_sockets, hsockets, SocketState.errorsOf_recordError,
    List.drop_left]

end Moment

end Patchbay
