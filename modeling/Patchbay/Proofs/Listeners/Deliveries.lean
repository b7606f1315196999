import Patchbay.Proofs.Listeners.Feeding

/-!
What peers deliver, and what a worker gets to hear of it: the payloads of its event on its
listener's connection, as long as the listener is there and the connection open.
-/

namespace Patchbay

/-- A peer sends an event on a connection. -/
structure Delivery where
  connection : Nat
  event : String
  payload : Json

/-- A server's reply may push events before it answers. -/
def Job.deliveries : Job → List Delivery
  | .serveEnd serial reply _ => reply.pushes.map fun push => ⟨serial, push.1, push.2⟩
  | _ => []

namespace World

/-- The connection behind a handle, if the hub lists it; only then it has a peer. -/
def peer? (w : World) (handle : String) : Option Nat :=
  ((w.handle? handle).filter fun h => w.hub.contains h.connection).map (·.connection)

/-- What a command has a peer deliver. -/
def deliveries (w : World) : Command → List Delivery
  | .push handle event payload | .request handle event payload =>
    (w.peer? handle).toList.map fun serial => ⟨serial, event, payload⟩
  | _ => []

/-- The delivery finds the connection open and the worker's listener there. -/
def reaches (w : World) (i : Nat) (d : Delivery) : Bool :=
  w.isConnected d.connection &&
    (w.listenersOn d.connection).any fun l => l.event == d.event && l.action.feeds i

/-- The payloads that a worker gets to hear of. -/
def heard (w : World) (i : Nat) (ds : List Delivery) : List Json :=
  (ds.filter (w.reaches i)).map (·.payload)

theorem heard_cons (w : World) (i : Nat) (d : Delivery) (rest : List Delivery) :
    w.heard i (d :: rest) = w.heard i [d] ++ w.heard i rest := by
  rw [← List.singleton_append, heard, List.filter_append, List.map_append]
  rfl

/-- A run with all that a worker has heard on the way. -/
inductive Hearing (i : Nat) (w₀ : World) : List Moment → List Json → World → Prop
  | start : Hearing i w₀ [] [] w₀
  | step {log : List Moment} {heard : List Json} {w : World} {task : Task} {rest : List Task}
      (h : Hearing i w₀ log heard w) (hready : w.ready = task :: rest) :
      Hearing i w₀ (log ++ [⟨task, w.begin task rest⟩]) (heard ++ w.heard i task.job.deliveries)
        ((w.begin task rest).exec task.job)
  | command {log : List Moment} {heard : List Json} {w : World} (h : Hearing i w₀ log heard w)
      (ticket : Nat) {c : Command} (hc : ∀ ms, c ≠ .wait ms) :
      Hearing i w₀ log (heard ++ w.heard i (w.deliveries c)) (w.perform ticket c).1
  | pass {log : List Moment} {heard : List Json} {w : World}
      (h : Hearing i w₀ log heard w) {t : Nat}
      (ht : w.now ≤ t) : Hearing i w₀ log heard { w with now := t }
  | wake {log : List Moment} {heard : List Json} {w : World} (h : Hearing i w₀ log heard w) :
      Hearing i w₀ log heard w.wakeDue

variable {w w' w₀ : World} {ch : Change} {i : Nat} {log : List Moment}

theorem Hearing.run {heard : List Json} (h : Hearing i w₀ log heard w) : Run w₀ log w := by
  induction h with
  | start => exact .start
  | step _ hready ih => exact ih.step hready
  | command _ ticket hc ih => exact ih.command ticket hc
  | pass _ ht ih => exact ih.pass ht
  | wake _ ih => exact ih.wake

/-- In every run a worker hears something, be it nothing. -/
theorem Run.hearing (h : Run w₀ log w) (i : Nat) : ∃ heard, Hearing i w₀ log heard w := by
  induction h with
  | start => exact ⟨_, .start⟩
  | step _ hready ih =>
    obtain ⟨heard, hheard⟩ := ih
    exact ⟨_, hheard.step hready⟩
  | command _ ticket hc ih =>
    obtain ⟨heard, hheard⟩ := ih
    exact ⟨_, hheard.command ticket hc⟩
  | pass _ ht ih =>
    obtain ⟨heard, hheard⟩ := ih
    exact ⟨_, hheard.pass ht⟩
  | wake _ ih =>
    obtain ⟨heard, hheard⟩ := ih
    exact ⟨_, hheard.wake⟩

/-- Without a peer nothing happens. -/
theorem withPeer_eq (w : World) (handle : String) (f : Nat → World × Response) :
    (w.withPeer handle f).1 = ((w.peer? handle).map fun serial => (f serial).1).getD w := by
  cases hhandle : w.handle? handle with
  | none => simp only [withPeer, withHandle, peer?, hhandle]; rfl
  | some h =>
    cases hlisted : w.hub.contains h.connection <;>
      simp only [withPeer, withHandle, peer?, hhandle, Option.filter, hlisted] <;> rfl

/-! Deliveries one by one -/

/-- A delivery does not keep the next one from reaching a worker. -/
theorem Fed.reaches_apply (h : Fed i w) (hch : ch.Replies) (d : Delivery) :
    (w.apply ch).reaches i d = w.reaches i d := by
  have hconnected : (w.apply ch).isConnected d.connection = w.isConnected d.connection :=
    isConnected_apply_of_ne (by rintro _ _ rfl; exact hch) (by rintro rfl; exact hch)
  unfold reaches
  rw [hconnected]
  refine congrArg (_ && ·) ?_
  cases ch with
  | listen serial event action once =>
    have hother : action.feeds i = false := by cases action <;> first | rfl | exact hch.elim
    rcases joined_listen w serial event action once d.connection with hsame | ⟨-, id, hnew⟩
    · rw [hsame]
    · rw [hnew, List.any_append]
      simp [hother]
  | spend serial event =>
    rw [listenersOn_spend]
    split
    · refine any_filter_of_imp fun l hl hfeeds => ?_
      have honce := (h.loyal _ l hl (Bool.and_eq_true_iff.1 hfeeds).2).1
      simp [honce]
    · rfl
  | hush => exact hch.elim
  | attachWorker => exact hch.elim
  | _ => rw [listenersOn_apply id]

theorem Fed.reaches_makes (h : Fed i w) (hmakes : Makes Change.Replies w w') (d : Delivery) :
    w'.reaches i d = w.reaches i d := by
  have hboth : Fed i w' ∧ w'.reaches i d = w.reaches i d :=
    hmakes.keeps (I := fun w' => Fed i w' ∧ w'.reaches i d = w.reaches i d)
      (fun w' ch hch hw => ⟨hw.1.apply hch.honest, (hw.1.reaches_apply hch d).trans hw.2⟩) ⟨h, rfl⟩
  exact hboth.2

theorem Fed.heard_makes (h : Fed i w) (hmakes : Makes Change.Replies w w') (ds : List Delivery) :
    w'.heard i ds = w.heard i ds := by
  have hreaches : w'.reaches i = w.reaches i := funext (h.reaches_makes hmakes)
  simp only [heard, hreaches]

/-- Of the listeners that a delivery finds, one feeds the worker if it reaches the worker, and none
if not. -/
theorem Fed.countP_actions (h : Fed i w) (d : Delivery)
    (hopen : w.isConnected d.connection = true) :
    (((w.listenersOn d.connection).filter (·.event == d.event)).map (·.action)).countP (·.feeds i) =
      if w.reaches i d = true then 1 else 0 := by
  have hcount : (((w.listenersOn d.connection).filter (·.event == d.event)).map (·.action)).countP
      (·.feeds i) = (w.listenersOn d.connection).countP
        fun l => l.event == d.event && l.action.feeds i := by
    rw [List.countP_map, List.countP_filter]
    refine List.countP_congr fun l _ => ?_
    simp [and_comm]
  have hone :
      (w.listenersOn d.connection).countP (fun l => l.event == d.event && l.action.feeds i) ≤
      1 := by
    refine Nat.le_trans (List.countP_mono_left fun l _ hl => ?_) (h.one d.connection)
    exact (Bool.and_eq_true_iff.1 hl).2
  rw [hcount]
  unfold reaches
  rw [hopen, Bool.true_and]
  split
  · rename_i hany
    obtain ⟨l, hl, hfeeds⟩ := List.any_eq_true.1 hany
    have hpos : 0 < (w.listenersOn d.connection).countP
        fun l => l.event == d.event && l.action.feeds i := List.countP_pos_iff.2 ⟨l, hl, hfeeds⟩
    exact Nat.le_antisymm hone hpos
  · rename_i hnone
    refine List.countP_eq_zero.2 fun l hl hfeeds => hnone ?_
    exact List.any_eq_true.2 ⟨l, hl, hfeeds⟩

/-- What the worker hears of a delivery is one payload for each of its listeners that is found. -/
theorem Fed.heard_replicate (h : Fed i w) (d : Delivery)
    (hopen : w.isConnected d.connection = true) :
    w.heard i [d] = List.replicate ((((w.listenersOn d.connection).filter
      (·.event == d.event)).map (·.action)).countP (·.feeds i)) d.payload := by
  rw [h.countP_actions d hopen]
  cases hreaches : w.reaches i d <;> simp [heard, hreaches]

end World

end Patchbay
