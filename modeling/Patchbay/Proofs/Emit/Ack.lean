import Patchbay.Emit
import Patchbay.SocketState

/-!
Answers and error records. A good answer never looks like an error, the post-hook's account of an
error always does, and a record goes to the list of the event that was emitted.
-/

namespace Patchbay

namespace Fields

variable {α : Type}

theorem contains_insert {key other : String} {value : α} {fields : Fields α}
    (h : fields.contains key = true) : (fields.insert other value).contains key = true := by
  unfold contains at h ⊢
  by_cases hkey : key = other
  · rw [hkey, get?_insert_self]
    rfl
  · rwa [get?_insert_of_ne hkey]

/-- What is named below is named after an overlay. -/
theorem contains_overlay {key : String} {lower : Fields α} (h : lower.contains key = true)
    (upper : Fields α) : (lower.overlay upper).contains key = true := by
  unfold overlay
  induction upper generalizing lower with
  | nil => exact h
  | cons entry rest ih => exact ih (contains_insert h)

end Fields

namespace Dict

variable {α : Type}

theorem get?_insert (key other : String) (value : α) (dict : Dict α) :
    (dict.insert key value).get? other = if other = key then some value else dict.get? other := by
  unfold get? insert
  split
  · rename_i heq
    rw [heq, Fields.get?_insert_self]
  · rename_i hne
    rw [Fields.get?_insert_of_ne hne]

end Dict

namespace SocketState

/-- A record is appended to the list of its scope and event; every other list stays. -/
theorem errorsOf_recordError (s : SocketState) (scope : String) (record : ErrorRecord)
    (scope' event : String) :
    (s.recordError scope record).errorsOf scope' event = s.errorsOf scope' event ++
      if scope' = scope ∧ event = record.event then [record] else [] := by
  have hempty (event : String) : Dict.get? event (Dict.empty (α := List ErrorRecord)) = none := rfl
  simp only [errorsOf, recordError, Dict.get?_insert]
  by_cases hscope : scope' = scope
  · subst hscope
    by_cases hevent : event = record.event
    · subst hevent
      cases s.errors.get? scope' <;> simp [Dict.get?_insert, hempty]
    · cases s.errors.get? scope' <;> simp [Dict.get?_insert, hevent, hempty]
  · simp [hscope]

end SocketState

namespace EmitError

/-- The record of the error names the event that was emitted. -/
def Concerns (event : String) (e : EmitError) : Prop :=
  ∀ msg now, (e.toRecord event msg now).event = event

end EmitError

namespace Ack

/-- An object with a member `emitError`. -/
def isError : Json → Bool
  | .obj fields => Fields.contains errorKey fields
  | _ => false

theorem settle_ok {event now : String} {msg answer v : Json}
    (h : settle event msg answer now = .ok v) : v = answer ∧ isError v = false := by
  unfold settle at h
  split at h
  · rename_i fields
    split at h
    · rename_i hget
      cases h
      refine ⟨rfl, ?_⟩
      rw [isError, Fields.contains, hget]
      rfl
    · cases h
  · rename_i hother
    cases h
    refine ⟨rfl, ?_⟩
    cases answer with
    | obj fields => exact absurd rfl (hother fields)
    | _ => rfl

theorem settle_of_not_isError {answer : Json} (h : isError answer = false) (event : String)
    (msg : Json) (now : String) : settle event msg answer now = .ok answer := by
  unfold settle
  split
  · rename_i fields
    have hnone : Fields.get? errorKey fields = none := Option.not_isSome_iff_eq_none.1 (by
      rw [← Fields.contains, ← isError, h]
      exact Bool.false_ne_true)
    rw [hnone]
  · rfl

theorem settle_error {event now : String} {msg answer : Json} {e : EmitError}
    (h : settle event msg answer now = .error e) : e.Concerns event := by
  unfold settle at h
  split at h
  · split at h
    · cases h
    · cases h
      intro msg' now'
      split <;> rfl
  · cases h

theorem isError_errorValue (r : ErrorRecord) : isError (errorValue r) = true := by
  have hlower : Fields.contains errorKey
      (Fields.ofList [(errorKey, Json.str r.message), ("evt", .str r.event)]) = true := by
    refine Fields.contains_insert ?_
    rw [Fields.contains, Fields.get?_insert_self]
    rfl
  exact Fields.contains_overlay hlower r.details

end Ack

end Patchbay
