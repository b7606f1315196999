import Mathlib.Data.List.Induction
import Patchbay.Proofs.Engine.Connections
import Patchbay.Proofs.Engine.Run
import Patchbay.Proofs.Holdings

/-!
The registry against the history of its calls. A registration stands if it was granted and
its connection has not been released since. After any calls the map holds what stands, however it
has moved its entries about, and every answer it gives can be read off what stands, in the order of
the calls.
-/

namespace Patchbay

namespace Registry

/-- What a registry can be asked to do. -/
inductive Call where
  | register (r : Registration)
  | release (via : ConnectionId)
deriving DecidableEq, Repr

def grants (reg : Registry) (r : Registration) : Bool :=
  (reg.register r.scope r.binding r.via).2.isOk

def call (reg : Registry) : Call → Registry
  | .register r => (reg.register r.scope r.binding r.via).1
  | .release via => reg.release via

def after (calls : List Call) : Registry := calls.foldl call {}

/-- A registration that is granted is given, and a release takes what came through its
connection. -/
def holdings : Holdings Call Registration where
  gives before
    | .register r => if (after before).grants r then some r else none
    | .release _ => none
  takes c r := c == .release r.via

/-- What was registered and not released yet, in the order of the calls. -/
def standing (calls : List Call) : List Registration := holdings.standing calls

variable {reg : Registry} {r : Registration}

theorem after_concat (calls : List Call) (c : Call) :
    after (calls ++ [c]) = (after calls).call c := by
  simp [after]

theorem grants_eq (reg : Registry) (r : Registration) :
    reg.grants r = !reg.contains r.scope r.binding.role r.binding.action := by
  cases h : reg.contains r.scope r.binding.role r.binding.action with
  | true =>
    rw [grants, register_of_contains h]
    rfl
  | false =>
    obtain ⟨reg', hmade, -⟩ := register_of_free h r.via
    rw [grants, hmade]
    rfl

theorem register_of_refuses (h : reg.grants r = false) : reg.register r.scope r.binding r.via
    = (reg, .error (.duplicate r.scope.text r.binding.role r.binding.action)) :=
  register_of_contains (by simpa [grants_eq] using h)

theorem register_of_grants (h : reg.grants r = true) :
    (reg.register r.scope r.binding r.via).2 = .ok () ∧
      (reg.register r.scope r.binding r.via).1.log = reg.log ++ [r] := by
  obtain ⟨reg', hmade, hlog⟩ := register_of_free (by simpa [grants_eq] using h) r.via
  rw [hmade]
  exact ⟨rfl, hlog⟩

theorem given_eq_some {calls : List Call} {n : Nat} : holdings.given calls n = some r
    ↔ calls[n]? = some (.register r) ∧ (after (calls.take n)).grants r = true := by
  rw [Holdings.given]
  cases hcall : calls[n]? with
  | none => simp
  | some c =>
    cases c with
    | release via => simp [holdings]
    | register r' =>
      simp only [Option.bind_some, holdings, Option.ite_none_right_eq_some, Option.some.injEq,
        Call.register.injEq]
      constructor
      · rintro ⟨hgranted, rfl⟩
        exact ⟨rfl, hgranted⟩
      · rintro ⟨rfl, hgranted⟩
        exact ⟨hgranted, rfl⟩

/-- What stands was granted at some place, and its connection is not released at a later one. -/
theorem mem_standing {calls : List Call} : r ∈ standing calls ↔
    ∃ n : Nat, calls[n]? = some (.register r) ∧ (after (calls.take n)).grants r = true
      ∧ ∀ k, n < k → calls[k]? ≠ some (.release r.via) := by
  simp only [standing, Holdings.mem_standing, given_eq_some, and_assoc]
  refine exists_congr fun n => and_congr_right fun _ => and_congr_right fun _ => ?_
  constructor
  · intro h k hk hrelease
    simpa [holdings] using h k _ hk hrelease
  · intro h k c hk hc
    simp only [holdings, beq_eq_false_iff_ne]
    rintro rfl
    exact h k hk hc

theorem standing_release (calls : List Call) (via : ConnectionId) :
    standing (calls ++ [.release via]) = (standing calls).filter fun r => decide (r.via ≠ via) := by
  have htakes (r : Registration) : (!holdings.takes (.release via) r) = decide (r.via ≠ via) := by
    by_cases hvia : via = r.via
    · simp [holdings, hvia]
    · simp [holdings, hvia, Ne.symm hvia]
  have hgives : holdings.gives calls (.release via) = none := rfl
  simp only [standing, Holdings.standing_concat, htakes, hgives, Option.toList_none,
    List.append_nil]

theorem standing_register (calls : List Call) (r : Registration) : standing (calls ++ [.register r])
    = standing calls ++ if (after calls).grants r then [r] else [] := by
  have htakes (e : Registration) : (!holdings.takes (.register r) e) = true := rfl
  have hgives : holdings.gives calls (.register r) =
      if (after calls).grants r then some r else none :=
    rfl
  simp only [standing, Holdings.standing_concat, htakes, hgives, List.filter_true]
  split <;> rfl

/-- The registry holds what stands: a call takes both from one moment to the next alike. -/
theorem log_after (calls : List Call) : (after calls).log = standing calls := by
  induction calls using List.reverseRecOn with
  | nil => rfl
  | append_singleton calls c ih =>
    rw [after_concat]
    cases c with
    | release via => rw [standing_release, ← ih, call, log_release]
    | register r =>
      rw [standing_register, ← ih, call]
      cases h : (after calls).grants r with
      | true => exact (register_of_grants h).2
      | false => simp [register_of_refuses h]

end Registry

namespace World

open Registry

/-- A change of the engine is at most one call of its registry. -/
theorem registry_apply_calls (w : World) (ch : Change) :
    (w.apply ch).registry = w.registry ∨ ∃ c, (w.apply ch).registry = w.registry.call c := by
  cases ch with
  | register scope b via => exact .inr ⟨.register ⟨scope, b, via⟩, rfl⟩
  | releaseBindings serial =>
    cases hlive : w.isConnected serial with
    | true => exact .inl (by simp [apply, hlive])
    | false => exact .inr ⟨.release (.opened serial), by simp [apply, hlive, call]⟩
  | _ => exact .inl (apply_registry w (by simp) (by simp))

/-- In any run the registry of an engine is what the calls made so far have left. -/
theorem Run.registry_after {w₀ w : World} {log : List Moment} (hempty : w₀.registry = {})
    (h : Run w₀ log w) : ∃ calls, w.registry = after calls := by
  refine h.keeps (I := fun w => ∃ calls, w.registry = after calls) ?_ (fun _ _ _ _ _ hw => hw)
    ⟨[], hempty⟩
  rintro w ch ⟨calls, hw⟩
  rcases registry_apply_calls w ch with hsame | ⟨c, hcall⟩
  · exact ⟨calls, hsame.trans hw⟩
  · exact ⟨calls ++ [c], by rw [hcall, hw, after_concat]⟩

end World

namespace Registry

/-- A map that has served these calls, one after the other. Between any two of them, and at the end,
it may have moved its entries about. -/
inductive Served : List Call → Registry → Prop where
  | start : Served [] {}
  | call {calls : List Call} {reg : Registry} (h : Served calls reg) (c : Call) :
      Served (calls ++ [c]) (reg.call c)
  | move {calls : List Call} {reg reg' : Registry} (h : Served calls reg) (hsame : Same reg reg') :
      Served calls reg'

theorem Same.call {reg' : Registry} (h : Same reg reg') (c : Call) :
    Same (reg.call c) (reg'.call c) := by
  cases c with
  | register r => exact h.register.2
  | release via => exact h.release via

theorem Served.same {calls : List Call} (h : Served calls reg) : Same (after calls) reg := by
  induction h with
  | start => exact ⟨List.Perm.refl _, rfl⟩
  | call _ c ih =>
    rw [after_concat]
    exact ih.call c
  | move _ hsame ih => exact ⟨ih.entries.trans hsame.entries, ih.next.trans hsame.next⟩

theorem served_after (calls : List Call) : Served calls (after calls) := by
  induction calls using List.reverseRecOn with
  | nil => exact .start
  | append_singleton calls c ih =>
    rw [after_concat]
    exact ih.call c

/-- What a map answers, by what stands of the calls it has served. -/
structure Reads (calls : List Call) (reg : Registry) : Prop where
  stands : ∀ r, r ∈ standing calls ↔ ∃ n : Nat, calls[n]? = some (.register r)
    ∧ (after (calls.take n)).grants r = true ∧ ∀ k, n < k → calls[k]? ≠ some (.release r.via)
  grants : ∀ r : Registration, (reg.register r.scope r.binding r.via).2 = .ok ()
    ↔ ∀ earlier ∈ standing calls, ¬ Holds r.scope r.binding.role r.binding.action earlier
  adds : ∀ r : Registration, (reg.register r.scope r.binding r.via).2 = .ok () →
    (reg.register r.scope r.binding r.via).1.log = standing calls ++ [r]
      ∧ standing (calls ++ [.register r]) = standing calls ++ [r]
  refuses : ∀ (r : Registration) (error : BindingError),
    (reg.register r.scope r.binding r.via).2 = .error error →
    error = .duplicate r.scope.text r.binding.role r.binding.action
      ∧ (reg.register r.scope r.binding r.via).1 = reg
      ∧ standing (calls ++ [.register r]) = standing calls
  bindings : ∀ scope, reg.bindingsFor scope
    = ((standing calls).filter fun r => decide (r.scope = scope)).map (·.binding)
  contains : ∀ scope role action, reg.contains scope role action = true
    ↔ ∃ r ∈ standing calls, Holds scope role action r
  size : reg.size = (standing calls).length
  releases : ∀ via, (reg.release via).log = (standing calls).filter (fun r => decide (r.via ≠ via))
    ∧ standing (calls ++ [.release via]) = (standing calls).filter fun r => decide (r.via ≠ via)
  counts : ∀ via, reg.countVia via = ((standing calls).filter fun r => decide (r.via = via)).length
    ∧ reg.countVia via + (reg.release via).size = reg.size

variable {calls : List Call}

theorem Served.log (h : Served calls reg) : reg.log = standing calls :=
  h.same.log.symm.trans (log_after calls)

theorem Served.grants (h : Served calls reg) (r : Registration) :
    (after calls).grants r = reg.grants r := by
  rw [Registry.grants, Registry.grants, h.same.register.1]

/-- After any calls the registry answers by what stands of them. -/
theorem reads_history (h : Served calls reg) : Reads calls reg where
  stands _ := mem_standing
  grants r := by
    rw [← h.log, register_ok_iff, ← Bool.not_eq_true, contains_iff]
    simp only [not_exists, not_and]
  adds r hok := by
    have hgrants : reg.grants r = true := by rw [Registry.grants, hok]; rfl
    rw [← h.log, standing_register, h.grants, hgrants, ← h.log]
    exact ⟨(register_of_grants hgrants).2, rfl⟩
  refuses r error herror := by
    have hrefuses : reg.grants r = false := by rw [Registry.grants, herror]; rfl
    rw [standing_register, h.grants, hrefuses]
    rw [register_of_refuses hrefuses] at herror ⊢
    exact ⟨(Except.error.inj herror).symm, rfl, List.append_nil _⟩
  bindings scope := by rw [bindingsFor_eq, h.log]
  contains scope role action := by rw [contains_iff, h.log]
  size := by rw [size_eq, h.log]
  releases via := ⟨by rw [log_release, h.log], standing_release calls via⟩
  counts via := ⟨by rw [countVia_eq, h.log], countVia_add_size reg via⟩

/-- A desk is asked through one connection and then through another; the first is released, and the
second asks again. -/
def deskCalls : List Call :=
  let ask (via : ConnectionId) : Registration := ⟨.store "desk" .actions, .bareListener "ask", via⟩
  [.register (ask (.opened 0)), .register (ask (.opened 1)),
    .register ⟨.store "desk" .actions, .bareListener "call", .opened 1⟩, .release (.opened 0),
    .register (ask (.opened 1))]

/-- The map of the desk, read from its other end. -/
def desk : Registry where
  entries := (after deskCalls).entries.reverse
  next := (after deskCalls).next
  wellFormed := (after deskCalls).wellFormed.perm (List.reverse_perm _).symm

/-- The name that was taken is given again once its connection is released, and then comes last. -/
theorem desk_reads : Served deskCalls desk ∧
    desk.bindingsFor (.store "desk" .actions) = [.bareListener "call", .bareListener "ask"] ∧
      desk.contains (.store "desk" .mutations) .listener "ask" = false ∧
        desk.countVia (.opened 1) = 2 := by
  have hserved : Served deskCalls desk :=
    .move (served_after deskCalls) ⟨(List.reverse_perm _).symm, rfl⟩
  have hreads := reads_history hserved
  refine ⟨hserved, ?_, ?_, ?_⟩
  · rw [hreads.bindings]
    decide
  · rw [← Bool.not_eq_true, hreads.contains]
    decide
  · rw [(hreads.counts _).1]
    decide

end Registry

end Patchbay
