import Patchbay.Proofs.Engine.Command

/-!
A change and the waking it brings. Waking moves tasks and loses none, so what a change does to the
rest of the world is its effect before anyone is woken.
-/

namespace Patchbay

/-- A change to a tree or to its watches. -/
def Change.Plants : Change → Prop
  | .set .. | .touch _ | .attachBack .. | .poll .. | .unwatch .. => True
  | _ => False

namespace World

/-- All tasks but the running one. -/
def tasks (w : World) : List Task := w.ready ++ w.parked.map (·.task)

/-- What is left to do, task by task. -/
def jobs (w : World) : List Job := w.tasks.map (·.job)

/-- Some parked tasks have become ready; nothing else has happened. -/
def Woken (w w' : World) : Prop :=
  ∃ ready parked, w' = { w with ready, parked } ∧
    (ready ++ parked.map (·.task)).Perm w.tasks ∧ parked ⊆ w.parked

namespace Woken

variable {w w' w'' : World}

theorem refl (w : World) : Woken w w :=
  ⟨w.ready, w.parked, rfl, .refl _, List.Subset.refl _⟩

theorem trans (h : Woken w w') (h' : Woken w' w'') : Woken w w'' := by
  obtain ⟨ready, parked, rfl, hperm, hsub⟩ := h
  obtain ⟨ready', parked', rfl, hperm', hsub'⟩ := h'
  exact ⟨ready', parked', rfl, hperm'.trans hperm, List.Subset.trans hsub' hsub⟩

theorem foldl {α : Type} {f : World → α → World} (hf : ∀ w a, Woken w (f w a)) (items : List α)
    (w : World) : Woken w (items.foldl f w) := by
  induction items generalizing w with
  | nil => exact refl w
  | cons a rest ih => exact (hf w a).trans (ih (f w a))

theorem tasks (h : Woken w w') : w'.tasks.Perm w.tasks := by
  obtain ⟨ready, parked, rfl, hperm, -⟩ := h
  exact hperm

theorem parked_subset (h : Woken w w') : w'.parked ⊆ w.parked := by
  obtain ⟨ready, parked, rfl, -, hsub⟩ := h
  exact hsub

theorem eq (h : Woken w w') : w' = { w with ready := w'.ready, parked := w'.parked } := by
  obtain ⟨ready, parked, rfl, -, -⟩ := h
  rfl

theorem sockets (h : Woken w w') : w'.sockets = w.sockets := by
  rw [h.eq]

theorem trace (h : Woken w w') : w'.trace = w.trace := by
  rw [h.eq]

end Woken

theorem wakeIf_woken (w : World) (out : Parked → Bool) : Woken w (w.wakeIf out) := by
  refine ⟨_, _, rfl, ?_, fun p hp => (List.mem_filter.1 hp).1⟩
  have hsplit : (w.parked.filter out ++ w.parked.filter fun p => !out p).Perm w.parked :=
    List.filter_append_perm out w.parked
  have hmap := hsplit.map (·.task)
  rw [List.map_append] at hmap
  rw [List.append_assoc]
  exact hmap.append_left w.ready

theorem wakeDue_woken (w : World) : Woken w w.wakeDue := wakeIf_woken w _

theorem signal_woken (w : World) (s : Signal) : Woken w (w.signal s) := wakeIf_woken w _

theorem writeTree_woken (w : World) (place : Place) (t : Tree) :
    Woken ((w.setTree place t).record (.wrote place t.root)) (w.writeTree place t) := by
  refine Woken.foldl ?_ _ _
  intro w watch
  split
  · exact Woken.refl w
  · exact signal_woken w _

/-! Cells -/

/-- What filling one cell makes of all cells. -/
def filled (cells : List Cell) (id : CellId) (content : Cell) : List Cell :=
  match cells.getD id .abandoned with
  | .empty => cells.set id content
  | _ => cells

theorem fill_woken (w : World) (id : CellId) (content : Cell) :
    Woken { w with cells := filled w.cells id content } (w.fill id content) := by
  cases hcell : w.cell id with
  | empty =>
    have hfilled : filled w.cells id content = w.cells.set id content := by
      simp only [filled, show w.cells.getD id .abandoned = .empty from hcell]
    simp only [fill, hcell, hfilled]
    exact signal_woken _ _
  | answered v =>
    have hfilled : filled w.cells id content = w.cells := by
      simp only [filled, show w.cells.getD id .abandoned = .answered v from hcell]
    simp only [fill, hcell, hfilled]
    exact Woken.refl w
  | abandoned =>
    have hfilled : filled w.cells id content = w.cells := by
      simp only [filled, show w.cells.getD id .abandoned = .abandoned from hcell]
    simp only [fill, hcell, hfilled]
    exact Woken.refl w

/-- What the failing of emits that wait makes of all cells. -/
def allFailed (cells : List Cell) (waiting : List (Nat × CellId)) : List Cell :=
  waiting.foldl (fun cells entry => filled cells entry.2 .abandoned) cells

theorem Woken.update_cells {w w' : World} (h : Woken w w') (f : List Cell → List Cell) :
    Woken { w with cells := f w.cells } { w' with cells := f w'.cells } := by
  obtain ⟨ready, parked, rfl, hperm, hsub⟩ := h
  exact ⟨ready, parked, rfl, hperm, hsub⟩

theorem foldl_abandon_woken (w : World) (waiting : List (Nat × CellId)) :
    Woken { w with cells := allFailed w.cells waiting }
      (waiting.foldl (fun w (_, cell) => w.abandon cell) w) := by
  induction waiting generalizing w with
  | nil => exact Woken.refl w
  | cons entry rest ih =>
    exact ((fill_woken w entry.2 .abandoned).update_cells (allFailed · rest)).trans
      (ih (w.abandon entry.2))

theorem lookup_eq_none_filter {entries : List (Nat × CellId)} {key : Nat}
    (h : entries.lookup key = none) : entries.filter (·.1 != key) = entries := by
  refine List.filter_eq_self.2 fun entry hentry => ?_
  rw [bne_comm]
  exact List.lookup_eq_none_iff.1 h entry hentry

theorem adjust_eq_self_of_fixed {w : World} {serial : Nat} {f : Connection → Connection}
    (h : ∀ c, w.connection? serial = some c → f c = c) : w.adjust serial f = w := by
  cases hc : w.connection? serial with
  | none => exact adjust_eq_self hc f
  | some c =>
    unfold connection? at hc
    split at hc
    · cases hc
    · rename_i hserial
      have hid : w.connections.modify (serial - 1) f = w.connections :=
        (modify_eq_of_getElem? (g := id) hc (h c (by simp [connection?, hserial, hc]))).trans
          (List.modify_id _ _)
      rw [adjust, if_neg hserial, hid]

/-- A change before anyone is woken by it. -/
def effect (w : World) : Change → World
  | .signal _ => w
  | .answer id v => { w with cells := filled w.cells id (.answered v) }
  | .abandon id => { w with cells := filled w.cells id .abandoned }
  | .settle serial key v =>
    { w.adjust serial fun c => { c with waiting := c.waiting.filter (·.1 != key) } with
      cells := match (w.waitingOn serial).lookup key with
        | none => w.cells
        | some cell => filled w.cells cell (.answered v) }
  | .shut serial =>
    { w.adjust serial fun c => { c with connected := false, waiting := [] } with
      hub := w.hub.filter (· != serial)
      cells := allFailed w.cells (w.waitingOn serial) }
  | .cancel t =>
    { w with cancelled := if w.isCancelled t then w.cancelled else t :: w.cancelled }
  | .set place path v =>
    (w.setTree place ((w.tree place).set path v)).record
      (.wrote place ((w.tree place).set path v).root)
  | .touch place => (w.setTree place (w.tree place)).record (.wrote place (w.tree place).root)
  | c => w.apply c

theorem apply_woken (w : World) (c : Change) : Woken (w.effect c) (w.apply c) := by
  cases c with
  | signal s => exact signal_woken w s
  | answer id v => exact fill_woken w id _
  | abandon id => exact fill_woken w id _
  | settle serial key v =>
    cases hlookup : (w.waitingOn serial).lookup key with
    | none =>
      have hsame : (w.adjust serial fun c =>
          { c with waiting := c.waiting.filter (·.1 != key) }) = w := by
        refine adjust_eq_self_of_fixed fun c hc => ?_
        rw [waitingOn_of_connection? hc] at hlookup
        rw [lookup_eq_none_filter hlookup]
      simp only [effect, apply, hlookup, hsame]
      exact Woken.refl w
    | some cell =>
      simp only [effect, apply, hlookup]
      exact fill_woken (w.adjust serial _) cell _
  | shut serial => exact foldl_abandon_woken _ _
  | cancel t =>
    simp only [effect, apply, cancel]
    split
    · exact Woken.refl w
    · exact signal_woken _ _
  | set place path v => exact writeTree_woken w place _
  | touch place => exact writeTree_woken w place _
  | _ => exact Woken.refl _

/-! What a change leaves alone -/

/-- A change to a tree or to its watches leaves the rest of the world alone, but for the trace, and
for the task and the token of a new loop. -/
theorem effect_plants (w : World) {c : Change} (hc : c.Plants) :
    ∃ components store trace ready started tokens,
      w.effect c = { w with components, store, trace, ready, started, tokens } := by
  cases c with
  | set place path v => cases place <;> exact ⟨_, _, _, _, _, _, rfl⟩
  | touch place => cases place <;> exact ⟨_, _, _, _, _, _, rfl⟩
  | attachBack back path =>
    simp only [effect, apply]
    cases back.place <;> exact ⟨_, _, _, _, _, _, rfl⟩
  | poll place id => cases place <;> exact ⟨_, _, _, _, _, _, rfl⟩
  | unwatch place id => cases place <;> exact ⟨_, _, _, _, _, _, rfl⟩
  | _ => exact hc.elim

@[simp] theorem setTree_trace (w : World) (place : Place) (t : Tree) :
    (w.setTree place t).trace = w.trace := by
  cases place <;> rfl

@[simp] theorem setTree_tokens (w : World) (place : Place) (t : Tree) :
    (w.setTree place t).tokens = w.tokens := by
  cases place <;> rfl

@[simp] theorem setTree_cancelled (w : World) (place : Place) (t : Tree) :
    (w.setTree place t).cancelled = w.cancelled := by
  cases place <;> rfl

@[simp] theorem watch_tokens (w : World) (place : Place) (path : String) :
    (w.watch place path).1.tokens = w.tokens :=
  setTree_tokens w place _

/-- Tokens are given out and cancelled for good. -/
theorem apply_tokens (w : World) (c : Change) :
    w.tokens ≤ (w.apply c).tokens ∧ w.cancelled ⊆ (w.apply c).cancelled := by
  rw [(apply_woken w c).eq]
  have hsame {w' : World} (htokens : w'.tokens = w.tokens)
    (hcancelled : w'.cancelled = w.cancelled) :
      w.tokens ≤ w'.tokens ∧ w.cancelled ⊆ w'.cancelled :=
    ⟨Nat.le_of_eq htokens.symm, hcancelled ▸ List.Subset.refl _⟩
  cases c with
  | newToken => exact ⟨Nat.le_succ _, List.Subset.refl _⟩
  | cancel t =>
    refine ⟨Nat.le_refl _, ?_⟩
    simp only [effect]
    split
    · exact List.Subset.refl _
    · exact List.subset_cons_self _ _
  | set place path v => exact hsame (setTree_tokens ..) (setTree_cancelled ..)
  | touch place => exact hsame (setTree_tokens ..) (setTree_cancelled ..)
  | attachBack back path =>
    simp only [effect, apply, spawn, newToken, watch, record, setTree_tokens, setTree_cancelled]
    exact ⟨Nat.le_succ _, List.Subset.refl _⟩
  | poll place id => exact hsame (setTree_tokens ..) (setTree_cancelled ..)
  | unwatch place id => exact hsame (setTree_tokens ..) (setTree_cancelled ..)
  | track s =>
    simp only [effect, apply, track]
    split <;> exact hsame rfl rfl
  | _ => exact hsame rfl rfl

theorem Makes.tokens {P : Change → Prop} {w w' : World} (h : Makes P w w') : w.tokens ≤ w'.tokens :=
  h.keeps (I := fun w' => w.tokens ≤ w'.tokens)
    (fun w' c _ hw => Nat.le_trans hw (apply_tokens w' c).1) (Nat.le_refl _)

/-- Only cancelling cancels. -/
theorem apply_cancelled (w : World) {c : Change} (hc : ∀ t, c ≠ .cancel t) :
    (w.apply c).cancelled = w.cancelled := by
  rw [(apply_woken w c).eq]
  by_cases hplants : c.Plants
  · obtain ⟨_, _, _, _, _, _, heq⟩ := effect_plants w hplants
    rw [heq]
  · cases c with
    | cancel t => exact absurd rfl (hc t)
    | track s => simp only [effect, apply, track]; split <;> rfl
    | _ => first | rfl | exact absurd trivial hplants

/-- The trace grows by what is recorded, and tells of every write and every new watch. -/
theorem apply_trace (w : World) (c : Change) :
    ∃ more, (w.apply c).trace = w.trace ++ more ∧ ∀ event ∈ more, c = .record event ∨
      (∃ place root, event = .wrote place root) ∨
        ∃ place id path first, event = .watched place id path first := by
  rw [(apply_woken w c).trace]
  have hsame {w' : World} (htrace : w'.trace = w.trace) :
      ∃ more, w'.trace = w.trace ++ more ∧ ∀ event ∈ more, c = .record event ∨
        (∃ place root, event = .wrote place root) ∨
          ∃ place id path first, event = .watched place id path first :=
    ⟨[], by rw [htrace, List.append_nil], fun event hmem => absurd hmem List.not_mem_nil⟩
  cases c with
  | record event => exact ⟨[event], rfl, fun e he => .inl (by rw [List.mem_singleton.1 he])⟩
  | set place path v =>
    refine ⟨[.wrote place ((w.tree place).set path v).root], ?_, ?_⟩
    · simp only [effect, record, setTree_trace]
    · intro e he
      exact .inr (.inl ⟨_, _, List.mem_singleton.1 he⟩)
  | touch place =>
    refine ⟨[.wrote place (w.tree place).root], ?_, ?_⟩
    · simp only [effect, record, setTree_trace]
    · intro e he
      exact .inr (.inl ⟨_, _, List.mem_singleton.1 he⟩)
  | attachBack back path =>
    refine ⟨[.watched back.place ((w.tree back.place).watch path).2 path
      (((w.tree back.place).watch path).1.get? path)], ?_, ?_⟩
    · simp only [effect, apply, spawn, newToken, watch, record, setTree_trace]
    · intro e he
      exact .inr (.inr ⟨_, _, _, _, List.mem_singleton.1 he⟩)
  | poll place id => exact hsame (setTree_trace ..)
  | unwatch place id => exact hsame (setTree_trace ..)
  | track s =>
    simp only [effect, apply, track]
    split <;> exact hsame rfl
  | _ => exact hsame rfl

/-- Only the recording of an error changes the error lists. -/
theorem apply_errors (w : World) {c : Change} (hc : ∀ scope record, c ≠ .recordError scope record) :
    (w.apply c).sockets.errors = w.sockets.errors := by
  rw [(apply_woken w c).sockets]
  by_cases hplants : c.Plants
  · obtain ⟨_, _, _, _, _, _, heq⟩ := effect_plants w hplants
    rw [heq]
  · cases c with
    | recordError scope record => exact absurd rfl (hc scope record)
    | track s => simp only [effect, apply, track]; split <;> rfl
    | _ => first | rfl | exact absurd trivial hplants

end World

end Patchbay
