import Patchbay.Proofs.Emit.Settlement
import Patchbay.Proofs.Engine.Trees
import Patchbay.Proofs.State.Presence

/-!
What an emit writes and reports. On its way it writes nothing but what its hooks write, and reports
nothing; at its end an emitter reports, and puts a good answer at its target.
-/

namespace Patchbay

namespace World

/-- No data is written and nothing is reported. -/
structure Untouched (w w' : World) : Prop where
  tree : ∀ place, w'.tree place = w.tree place
  outcomes : w'.outcomes = w.outcomes

namespace Untouched

variable {w w' : World}

theorem of_same (hcomponents : w'.components = w.components) (hstore : w'.store = w.store)
    (houtcomes : w'.outcomes = w.outcomes) : Untouched w w' where
  tree place := by cases place <;> simp only [World.tree, component, hcomponents, hstore]
  outcomes := houtcomes

theorem trans {w'' : World} (h : Untouched w w') (h' : Untouched w' w'') : Untouched w w'' where
  tree place := (h'.tree place).trans (h.tree place)
  outcomes := h'.outcomes.trans h.outcomes

theorem resumeHook (h : Untouched w w') (hook : Option Hook) (argument : Json) (after : AfterHook)
    (otherwise : Job) : Untouched w (w'.resumeHook hook argument after otherwise) := by
  refine h.trans ?_
  cases hook <;> exact .of_same rfl rfl rfl

theorem record (h : Untouched w w') (event : Event) : Untouched w (w'.record event) :=
  h.trans (.of_same rfl rfl rfl)

/-- A component may change its handlers. -/
theorem setComponent {id : ComponentId} {c : Component} (h : c.data = (w.component id).data) :
    Untouched w (w.setComponent id c) := ⟨tree_setComponent h, rfl⟩

theorem resumeAfter (h : Untouched w w') (delay : Option Nat) (job : Job) :
    Untouched w (w'.resumeAfter delay job) := by
  refine h.trans ?_
  unfold World.resumeAfter
  split <;> exact .of_same rfl rfl rfl

theorem route (h : Untouched w w') (serial : Nat) (namespaceName event : String) (payload : Json)
    (key : Option Nat) : Untouched w (w'.route serial namespaceName event payload key) := by
  unfold World.route
  split
  · exact h
  · refine h.trans ?_
    cases key <;> exact .of_same rfl rfl rfl

theorem send {sent : World} {serial : Nat} {event : String} {payload : Json} {ack : Option CellId}
    (h : Untouched w w') (hsend : w'.send serial event payload ack = .ok sent) :
    Untouched w sent := by
  refine h.trans ?_
  unfold World.send at hsend
  split at hsend
  · cases hsend
  · split at hsend
    · cases hsend
    · cases ack with
      | none =>
        obtain rfl := Except.ok.inj hsend
        refine .route ?_ ..
        exact .of_same rfl rfl rfl
      | some cell =>
        obtain rfl := Except.ok.inj hsend
        refine .route ?_ ..
        exact .of_same rfl rfl rfl

theorem transmit (w : World) (run : EmitRun) (after : AfterEmit) :
    Untouched w (w.transmit run after) := by
  have hcell : Untouched w w.newCell.1 := .of_same rfl rfl rfl
  cases w.transmit_atTransport run after with
  | refused _ _ heq | rejected _ _ heq =>
    rw [heq]
    exact .of_same rfl rfl rfl
  | sent _ hsend heq =>
    rw [heq]
    exact (send (.of_same rfl rfl rfl) hsend).resumeHook ..
  | asked _ hsend heq =>
    rw [heq]
    exact (hcell.send hsend).trans (.of_same rfl rfl rfl)

theorem awaitAnswer (w : World) (cell : CellId) (due : Option Nat) (run : EmitRun)
    (after : AfterEmit) :
    Untouched w (w.awaitAnswer cell due run after) := by
  cases w.awaitAnswer_atCell cell due run after with
  | answered _ _ heq | abandoned _ heq | late _ _ _ heq | waits _ _ heq =>
    rw [heq]
    exact .of_same rfl rfl rfl

theorem settleEmit (w : World) (result : Except EmitError Json) (run : EmitRun)
    (after : AfterEmit) :
    Untouched w (w.settleEmit result run after) := by
  cases result with
  | ok v => exact .resumeHook (.of_same rfl rfl rfl) ..
  | error e =>
    unfold World.settleEmit
    refine .resumeHook ?_ ..
    exact .of_same rfl rfl rfl

theorem startHook (w : World) (hook : Hook) (argument : Json) (after : AfterHook) :
    Untouched w (w.startHook hook argument after) := by
  unfold World.startHook
  dsimp only
  split
  · exact .of_same rfl rfl rfl
  · refine .resumeAfter (.record (.setComponent ?_) _) ..
    rfl

theorem finishGate (w : World) (verdict : Verdict) (run : EmitRun) (after : AfterEmit) :
    Untouched w (w.finishHook verdict (.gate run after)) := by
  cases w.finishHook_atGate verdict run after with
  | vetoed _ heq | failed _ _ heq | passed _ heq =>
    rw [heq]
    exact .of_same rfl rfl rfl

end Untouched

end World

namespace EmitRun

variable {run : EmitRun} {after : AfterEmit} {known : Option (Except EmitError EmitOutcome)}
  {job : Job}

/-- Only a hook's end and the emit's own end touch anything. -/
theorem Course.untouched (h : run.Course after known job)
    (hhook : ∀ hook reply after, job ≠ .hookEnd hook reply after)
    (hdone : ∀ result after, job ≠ .emitDone result after) (w : World) :
    w.Untouched (w.exec job) := by
  cases h with
  | emit => exact .resumeHook (.of_same rfl rfl rfl) ..
  | gate => exact .startHook ..
  | gated => exact .finishGate ..
  | transmit => exact .transmit ..
  | await => exact .awaitAnswer ..
  | settle => exact .settleEmit ..
  | post => exact .startHook ..
  | posted => exact .of_same rfl rfl rfl
  | gateEnd => exact absurd rfl (hhook _ _ _)
  | postEnd => exact absurd rfl (hhook _ _ _)
  | done => exact absurd rfl (hdone _ _)

end EmitRun

namespace World

/-! Writes -/

theorem tree_set (w : World) (place other : Place) (path : String) (v : Json) :
    (w.set place path v).tree other =
      if other = place then (w.tree place).set path v else w.tree other :=
  ((writeTree_woken w place _).tree other).trans (tree_setTree w place other _)

theorem get?_set_self (w : World) (place : Place) (path : String) (v : Json) :
    ((w.set place path v).tree place).get? path = some v := by
  rw [tree_set, if_pos rfl]
  exact Json.at?_put_self v _ _

/-- A write changes only what its path is related to. -/
theorem get?_set_or (w : World) (place other : Place) (path name : String) (v : Json) :
    ((w.set place path v).tree other).get? name = (w.tree other).get? name ∨
      other = place ∧ Path.related (.ofString name) (.ofString path) = true := by
  rw [tree_set]
  by_cases hplace : other = place
  · subst hplace
    rw [if_pos rfl]
    cases hrelated : Path.related (.ofString name) (.ofString path) with
    | true => exact .inr ⟨rfl, rfl⟩
    | false => exact .inl (Json.at?_put_of_not_related v hrelated _)
  · rw [if_neg hplace]
    exact .inl rfl

theorem set_outcomes (w : World) (place : Place) (path : String) (v : Json) :
    (w.set place path v).outcomes = w.outcomes := by
  rw [set, (writeTree_woken w place _).eq]
  cases place <;> rfl

/-- What a hook writes at its end. -/
def written (w : World) (hook : Hook) (reply : Reply) : World :=
  match reply.write with
  | none => w
  | some (path, v) => w.set (.component hook.owner) path v

theorem untouched_endHook (w : World) (hook : Hook) (reply : Reply) (after : AfterHook) :
    Untouched (w.written hook reply) (w.endHook hook reply after) := by
  have hends : w.endHook hook reply after = (if reply.delay.isSome then
      (w.written hook reply).record (.returned hook.owner.text hook.handler)
        else w.written hook reply).resume (.hookDone reply.verdict after) := rfl
  rw [hends]
  split <;> exact .of_same rfl rfl rfl

theorem endHook_outcomes (w : World) (hook : Hook) (reply : Reply) (after : AfterHook) :
    (w.endHook hook reply after).outcomes = w.outcomes := by
  rw [(untouched_endHook w hook reply after).outcomes, written]
  split
  · rfl
  · exact set_outcomes ..

/-- The end of a hook changes only what the path of its write is related to. -/
theorem get?_endHook_or (w : World) (hook : Hook) (reply : Reply) (after : AfterHook)
    (place : Place) (name : String) :
    ((w.endHook hook reply after).tree place).get? name = (w.tree place).get? name ∨
      place = .component hook.owner ∧ ∃ path v, reply.write = some (path, v) ∧
        Path.related (.ofString name) (.ofString path) = true := by
  rw [(untouched_endHook w hook reply after).tree, written]
  split
  · exact .inl rfl
  · rename_i path v hwrite
    refine (get?_set_or w (.component hook.owner) place path name v).imp_right ?_
    exact fun ⟨hplace, hrelated⟩ => ⟨hplace, path, v, hwrite, hrelated⟩

/-! The end of an emitter -/

/-- What the caller of an emitter is told. -/
def returned : Except EmitError EmitOutcome → Outcome
  | .error e => .failed (.emit e)
  | .ok (.acked v) => .value v
  | .ok _ => .value .null

/-- The emitter reports, and a good answer is put at its target. -/
structure Returns (owner : ComponentId) (target : Option String) (ticket : Nat)
    (result : Except EmitError EmitOutcome) (w w' : World) : Prop where
  reported : w'.outcomes = w.outcomes ++ [(ticket, returned result)]
  held : ∀ v path, result = .ok (.acked v) → target = some path →
    (w'.tree (.component owner)).get? path = some v
  others : ∀ place name, (w'.tree place).get? name = (w.tree place).get? name ∨
    place = .component owner ∧ ∃ v path, result = .ok (.acked v) ∧ target = some path ∧
      Path.related (.ofString name) (.ofString path) = true

variable {w w' : World} {owner : ComponentId} {target : Option String} {ticket : Nat}
  {result : Except EmitError EmitOutcome}

theorem Returns.of_report (hnone : ∀ v path, result = .ok (.acked v) → target ≠ some path)
    (h : w' = w.report ticket (returned result)) : Returns owner target ticket result w w' := by
  subst h
  refine ⟨rfl, fun v path hresult htarget => absurd htarget (hnone v path hresult),
    fun place name => ?_⟩
  exact .inl (by cases place <;> rfl)

theorem Returns.of_set {v : Json} {path : String} (hresult : result = .ok (.acked v))
    (htarget : target = some path)
    (h : w' = (w.set (.component owner) path v).report ticket (returned result)) :
    Returns owner target ticket result w w' := by
  subst h
  have htree (place : Place) :
      ((w.set (.component owner) path v).report ticket (returned result)).tree place =
      (w.set (.component owner) path v).tree place := by
    cases place <;> rfl
  refine ⟨?_, ?_, fun place name => ?_⟩
  · rw [report, set_outcomes]
  · intro v' path' hresult' htarget'
    obtain rfl := EmitOutcome.acked.inj (Except.ok.inj (hresult.symm.trans hresult'))
    obtain rfl := Option.some.inj (htarget.symm.trans htarget')
    rw [htree]
    exact get?_set_self ..
  · rw [htree]
    refine (get?_set_or w (.component owner) place path name v).imp_right ?_
    exact fun ⟨hplace, hrelated⟩ => ⟨hplace, v, path, hresult, htarget, hrelated⟩

theorem finishEmit_returns (w : World) (result : Except EmitError EmitOutcome) (owner : ComponentId)
    (target : Option String) (ticket : Nat) :
    Returns owner target ticket result w (w.finishEmit result (.emitter owner target ticket)) := by
  cases result with
  | error e => exact .of_report nofun rfl
  | ok outcome =>
    cases outcome with
    | acked v =>
      cases target with
      | none => exact .of_report nofun rfl
      | some path => exact .of_set rfl rfl rfl
    | sent => exact .of_report nofun rfl
    | vetoed => exact .of_report nofun rfl

end World

end Patchbay
