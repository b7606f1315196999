import Patchbay.Proofs.Engine.Connections

/-!
What a change does to the worker of a listener. It keeps what it was started with for good; its
queue is filled and emptied, and once its listener is gone nothing feeds it again.
-/

namespace Patchbay

/-- What a change makes of the worker of that number. -/
def Change.reworks (w : World) (i : Nat) : Change → Worker → Worker
  | .hush serial out, x =>
    { x with fed :=
      x.fed && !(((w.listenersOn serial).filter out).map (·.action)).any (·.feeds i) }
  | .enqueue k payload, x => if k = i then { x with queue := x.queue ++ [payload] } else x
  | .dequeue k, x => if k = i then { x with queue := x.queue.tail } else x
  | _, x => x

/-- Only the listener's end ends the feeding. -/
theorem Change.reworks_of_ne_hush {ch : Change} (h : ∀ serial out, ch ≠ .hush serial out)
    (w : World)
    (i : Nat) (x : Worker) : ch.reworks w i x = { x with queue := (ch.reworks w i x).queue } := by
  cases ch with
  | hush serial out => exact absurd rfl (h serial out)
  | enqueue k payload => simp only [reworks]; split <;> rfl
  | dequeue k => simp only [reworks]; split <;> rfl
  | _ => rfl

namespace World

variable {w w' : World} {i : Nat} {x : Worker}

theorem Woken.workers (h : Woken w w') : w'.workers = w.workers := by
  rw [h.eq]

theorem effect_workers (w : World) {ch : Change} (hch : ch.Plants) :
    (w.effect ch).workers = w.workers := by
  obtain ⟨_, _, _, _, _, _, heq⟩ := effect_plants w hch
  rw [heq]

/-- A worker that is there stays there, as the change reworks it. -/
theorem worker_apply (hx : w.workers[i]? = some x) (ch : Change) :
    (w.apply ch).workers[i]? = some (ch.reworks w i x) := by
  have hsame {w' : World} (hfield : w'.workers = w.workers) : w'.workers[i]? = some x := by
    rw [hfield, hx]
  have hmodified (k : Nat) (f : Worker → Worker) :
      (w.workers.modify k f)[i]? = some (if k = i then f x else x) := by
    rw [List.getElem?_modify, hx]
    by_cases hk : k = i <;> simp [hk]
  rw [(apply_woken w ch).workers]
  cases ch with
  | attachWorker new serial =>
    have hlt := (List.getElem?_eq_some_iff.1 hx).1
    simpa [effect, apply, adjust, spawn, Change.reworks, List.getElem?_append_left hlt] using hx
  | hush serial out =>
    refine (getElem?_foldl_unfed w.workers _ i).trans ?_
    rw [hx]
    rfl
  | enqueue k payload => exact hmodified k _
  | dequeue k => exact hmodified k _
  | set | touch | attachBack | poll | unwatch => exact hsame (effect_workers w trivial)
  | track s => exact hsame (by simp only [effect, apply, track]; split <;> rfl)
  | _ => exact hsame rfl

/-- A new worker gets the next number. -/
theorem worker_attach (w : World) (worker : Worker) (serial : Nat) :
    (w.apply (.attachWorker worker serial)).workers[w.workers.length]? = some worker := by
  simp [apply, adjust, spawn]

/-- The worker of that number is this one, whatever is queued for it. -/
def Employs (w : World) (k : Nat) (worker : Worker) : Prop :=
  ∃ x, w.workers[k]? = some x ∧ x = { worker with queue := x.queue, fed := x.fed }

theorem Employs.apply {worker : Worker} (h : w.Employs i worker) (ch : Change) :
    (w.apply ch).Employs i worker := by
  obtain ⟨x, hx, heq⟩ := h
  refine ⟨_, worker_apply hx ch, ?_⟩
  cases ch with
  | hush serial out => simp only [Change.reworks]; rw [heq]
  | enqueue k payload => simp only [Change.reworks]; split <;> rw [heq]
  | dequeue k => simp only [Change.reworks]; split <;> rw [heq]
  | _ => exact heq

end World

end Patchbay
