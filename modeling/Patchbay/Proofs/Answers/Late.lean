import Patchbay.Proofs.Answers.Deeds

/-!
What comes late to an emit, when nobody waits for it any more: the server's reply, a responder that
was kept and is used at last, and the answer that is handed on. None of it touches another emit.
-/

namespace Patchbay

namespace World

variable {a : Ask} {w w' x : World} {cell : CellId}

/-- No other emit is touched: its cells are as they were, it waits where it waited, no task that was
there is lost or is woken for nothing, and nobody is told anything. -/
structure Spares (a : Ask) (w w' : World) : Prop where
  cells : ∀ cell, cell ≠ a.cell → a.responder ≠ some cell → w'.cell cell = w.cell cell
  waiting : ∀ n key cell, cell ≠ a.cell →
    ((key, cell) ∈ w'.waitingOn n ↔ (key, cell) ∈ w.waitingOn n)
  tasks : w.tasks ⊆ w'.tasks
  parked : ∀ p ∈ w.parked, .cell a.cell ∉ p.signals →
    (∀ r, a.responder = some r → .cell r ∉ p.signals) → p ∈ w'.parked
  told : w'.outcomes = w.outcomes ∧ w'.trace = w.trace

theorem Spares.refl (a : Ask) (w : World) : Spares a w w where
  cells _ _ _ := rfl
  waiting _ _ _ _ := .rfl
  tasks := List.Subset.refl _
  parked _ hp _ _ := hp
  told := ⟨rfl, rfl⟩

theorem Spares.trans (h : Spares a w w') (h' : Spares a w' x) : Spares a w x where
  cells cell hcell hresponder :=
    (h'.cells cell hcell hresponder).trans (h.cells cell hcell hresponder)
  waiting n key cell hcell := (h'.waiting n key cell hcell).trans (h.waiting n key cell hcell)
  tasks := List.Subset.trans h.tasks h'.tasks
  parked p hp hcell hresponder := h'.parked p (h.parked p hp hcell hresponder) hcell hresponder
  told := ⟨h'.told.1.trans h.told.1, h'.told.2.trans h.told.2⟩

theorem waitingOn_congr (h : w'.connections = w.connections) (n : Nat) :
    w'.waitingOn n = w.waitingOn n := by
  rw [waitingOn, waitingOn, connection?_congr h]

theorem mem_parked_fill {p : Parked} (hp : p ∈ w.parked) {id : CellId} (h : .cell id ∉ p.signals)
    (content : Cell) : p ∈ (w.fill id content).parked := by
  cases hcell : w.cell id with
  | empty =>
    simp only [fill, hcell]
    exact List.mem_filter.2 ⟨hp, by simpa using h⟩
  | _ => simpa only [fill, hcell] using hp

/-- Filling one of its own cells spares all others. -/
theorem spares_fill (content : Cell) (hcell : cell = a.cell ∨ a.responder = some cell) :
    Spares a w (w.fill cell content) := by
  have hwoken := fill_woken w cell content
  refine ⟨fun other hother hresponder => ?_, fun n key other _ => ?_, hwoken.tasks.symm.subset,
    fun p hp hother hresponder => mem_parked_fill hp ?_ content, ?_⟩
  · rw [World.cell, hwoken.cells]
    refine getD_filled_of_ne ?_
    rintro rfl
    exact hcell.elim hother hresponder
  · rw [waitingOn_congr hwoken.connections]
    exact .rfl
  · rcases hcell with rfl | hr
    · exact hother
    · exact hresponder cell hr
  · rw [hwoken.eq]
    exact ⟨rfl, rfl⟩

/-- A responder that was kept, used at last, fills the emit's own cell. -/
theorem spares_answer (w : World) (ticket i : Nat) (v : Json) {r : CellId}
    (hr : a.responder = some r)
    (hheld : w.held[i]? = some (some r)) : Spares a w (w.perform ticket (.answer i v)).1 := by
  have hjoin : w.held[i]?.join = some r := Option.join_eq_some_iff.2 hheld
  simp only [perform, answerHeld, hjoin]
  have hunheld : Spares a w { w with held := w.held.set i none } :=
    ⟨fun _ _ _ => rfl, fun _ _ _ _ => .rfl, List.Subset.refl _, fun _ hp _ _ => hp, rfl, rfl⟩
  exact hunheld.trans (spares_fill _ (.inr hr))

theorem serveEnd_some (w : World) (n : Nat) (reply : PeerReply) (r : CellId) :
    w.serveEnd n reply (some r) = match reply.answer with
      | .hold => (w.serveEnd n reply none).apply (.hold r)
      | .drop => (w.serveEnd n reply none).abandon r
      | .value v => (w.serveEnd n reply none).answer r v :=
  rfl

/-- The answer of a server's reply touches nothing but the emit's own cell, whatever else the reply
does. -/
theorem spares_serveEnd (w : World) (n : Nat) (reply : PeerReply) {r : CellId}
    (hr : a.responder = some r) :
    Spares a (w.serveEnd n reply none) (w.serveEnd n reply (some r)) := by
  rw [serveEnd_some]
  cases reply.answer with
  | hold =>
    exact ⟨fun _ _ _ => rfl, fun _ _ _ _ => .rfl, List.Subset.refl _, fun _ hp _ _ => hp, rfl, rfl⟩
  | drop => exact spares_fill _ (.inr hr)
  | value v => exact spares_fill _ (.inr hr)

/-- An emit that is taken off the list of those that wait leaves the others there. -/
theorem spares_unlist (w : World)
    (hown : ∀ cell, (a.key, cell) ∈ w.waitingOn a.serial → cell = a.cell) :
    Spares a w (w.adjust a.serial fun c =>
      { c with waiting := c.waiting.filter (·.1 != a.key) }) := by
  refine ⟨fun _ _ _ => rfl, fun n key cell hcell => ?_, List.Subset.refl _,
    fun _ hp _ _ => hp, rfl, rfl⟩
  rw [waitingOn, waitingOn, connection?_adjust]
  by_cases hn : n = a.serial
  · subst hn
    cases hc : w.connection? a.serial with
    | none => simp
    | some c =>
      rw [waitingOn_of_connection? hc] at hown
      simp only [↓reduceIte, Option.map_some, Option.getD_some, List.mem_filter, bne_iff_ne]
      refine ⟨fun h => h.1, fun h => ⟨h, ?_⟩⟩
      rintro rfl
      exact hcell (hown cell h)
  · rw [if_neg hn]

/-- An answer that is handed on settles its own emit, if it still waits. -/
theorem spares_forward (w : World) (r : CellId)
    (hown : ∀ cell, (a.key, cell) ∈ w.waitingOn a.serial → cell = a.cell) :
    Spares a w (w.exec (.receive r (.forward a.serial a.key))) := by
  cases hcell : w.cell r with
  | empty =>
    simp only [exec, receive, hcell]
    refine ⟨fun _ _ _ => rfl, fun _ _ _ _ => .rfl, ?_, ?_, rfl, rfl⟩
    · exact fun task htask =>
        (onward_tasks w (.parks _ _ _)).symm.subset (List.mem_append_left _ htask)
    · exact fun p hp _ _ => List.mem_append_left _ hp
  | abandoned =>
    simp only [exec, receive, hcell]
    exact .refl a w
  | answered v =>
    simp only [exec, receive, hcell, resolve_eq, apply]
    cases hlookup : (w.waitingOn a.serial).lookup a.key with
    | none => exact .refl a w
    | some cell =>
      obtain rfl := hown cell (mem_of_lookup hlookup)
      exact (spares_unlist w hown).trans (spares_fill _ (.inl rfl))

end World

end Patchbay
