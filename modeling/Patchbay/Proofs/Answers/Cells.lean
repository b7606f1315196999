import Patchbay.Proofs.Engine.Connections

/-!
Cells, and the emits that wait for them at their connections. A cell is filled once. An emit waits
under a number of its own, and as long as its cell is empty it waits and its connection is open: who
answers it or closes the connection fills the cell.
-/

namespace Patchbay

/-- The change puts this value into the cell. -/
def Change.Puts (w : World) (cell : CellId) (v : Json) : Change → Prop
  | .answer id v' => id = cell ∧ v' = v
  | .settle n key v' => (w.waitingOn n).lookup key = some cell ∧ v' = v
  | _ => False

/-- A change of the cells. -/
def Change.Fills : Change → Prop
  | .newCell | .answer .. | .abandon _ | .settle .. | .shut _ => True
  | _ => False

namespace World

variable {w w' : World} {ch : Change} {n key : Nat} {cell : CellId}

/-! Filling -/

section Filling

variable {cells : List Cell} {id : CellId} {content : Cell}

theorem getD_filled_of_full (h : cells.getD cell .abandoned ≠ .empty) :
    (filled cells id content).getD cell .abandoned = cells.getD cell .abandoned := by
  unfold filled
  split
  · rename_i hid
    have hne : id ≠ cell := by
      rintro rfl
      exact h hid
    rw [List.getD_eq_getElem?_getD, List.getElem?_set_ne hne, ← List.getD_eq_getElem?_getD]
  · rfl

theorem getD_filled_of_ne (h : cell ≠ id) :
    (filled cells id content).getD cell .abandoned = cells.getD cell .abandoned := by
  unfold filled
  split
  · rw [List.getD_eq_getElem?_getD, List.getElem?_set_ne (Ne.symm h), ← List.getD_eq_getElem?_getD]
  · rfl

theorem lt_of_getD_empty (h : cells.getD cell .abandoned = .empty) : cell < cells.length := by
  refine Decidable.byContradiction fun hout => ?_
  rw [List.getD_eq_getElem?_getD, List.getElem?_eq_none (Nat.le_of_not_lt hout)] at h
  cases h

theorem getD_filled_self (h : cells.getD id .abandoned = .empty) :
    (filled cells id content).getD id .abandoned = content := by
  have hlt := lt_of_getD_empty h
  simp only [filled, h]
  rw [List.getD_eq_getElem?_getD, List.getElem?_set_self hlt, Option.getD_some]

theorem filled_cases (cells : List Cell) (id cell : CellId) (content : Cell) :
    (filled cells id content).getD cell .abandoned = cells.getD cell .abandoned ∨
      id = cell ∧ cells.getD cell .abandoned = .empty ∧
        (filled cells id content).getD cell .abandoned = content := by
  by_cases hid : cell = id
  · subst hid
    cases hcell : cells.getD cell .abandoned with
    | empty => exact .inr ⟨rfl, rfl, getD_filled_self hcell⟩
    | answered v => exact .inl ((getD_filled_of_full (by rw [hcell]; nofun)).trans hcell)
    | abandoned => exact .inl ((getD_filled_of_full (by rw [hcell]; nofun)).trans hcell)
  · exact .inl (getD_filled_of_ne hid)

theorem length_filled : (filled cells id content).length = cells.length := by
  unfold filled
  split
  · rw [List.length_set]
  · rfl

theorem length_allFailed (cells : List Cell) (waiting : List (Nat × CellId)) :
    (allFailed cells waiting).length = cells.length := by
  induction waiting generalizing cells with
  | nil => rfl
  | cons entry rest ih => exact (ih _).trans length_filled

theorem getD_allFailed_of_full {waiting : List (Nat × CellId)}
    (h : cells.getD cell .abandoned ≠ .empty) :
    (allFailed cells waiting).getD cell .abandoned = cells.getD cell .abandoned := by
  induction waiting generalizing cells with
  | nil => rfl
  | cons entry rest ih =>
    have hkept : (filled cells entry.2 .abandoned).getD cell .abandoned =
        cells.getD cell .abandoned :=
      getD_filled_of_full h
    exact (ih (by rwa [hkept])).trans hkept

theorem allFailed_cases (cells : List Cell) (waiting : List (Nat × CellId)) (cell : CellId) :
    (allFailed cells waiting).getD cell .abandoned = cells.getD cell .abandoned ∨
      cells.getD cell .abandoned = .empty ∧
        (allFailed cells waiting).getD cell .abandoned = .abandoned := by
  induction waiting generalizing cells with
  | nil => exact .inl rfl
  | cons entry rest ih =>
    have hrest := ih (filled cells entry.2 .abandoned)
    rcases filled_cases cells entry.2 cell .abandoned with hsame | ⟨-, hempty, hfailed⟩
    · rwa [hsame] at hrest
    · refine .inr ⟨hempty, ?_⟩
      rcases hrest with hkept | ⟨-, hdone⟩
      · exact hkept.trans hfailed
      · exact hdone

/-- An emit that waits is failed with the others. -/
theorem getD_allFailed_of_mem {waiting : List (Nat × CellId)} (h : (key, cell) ∈ waiting) :
    (allFailed cells waiting).getD cell .abandoned ≠ .empty := by
  induction waiting generalizing cells with
  | nil => cases h
  | cons entry rest ih =>
    rcases List.mem_cons.1 h with rfl | h
    · have hfull : (filled cells cell .abandoned).getD cell .abandoned ≠ .empty := by
        rcases filled_cases cells cell cell .abandoned with hsame | ⟨-, -, hfailed⟩
        · intro hempty
          rw [getD_filled_self (hsame ▸ hempty)] at hempty
          cases hempty
        · rw [hfailed]
          nofun
      intro hempty
      exact hfull ((getD_allFailed_of_full hfull).symm.trans hempty)
    · exact ih h

end Filling

/-! Cells -/

theorem Woken.cells (h : Woken w w') : w'.cells = w.cells := by
  rw [h.eq]

theorem apply_cells (w : World) (hch : ¬ ch.Fills) : (w.apply ch).cells = w.cells := by
  rw [(apply_woken w ch).cells]
  by_cases hplants : ch.Plants
  · obtain ⟨_, _, _, _, _, _, heq⟩ := effect_plants w hplants
    rw [heq]
  · cases ch with
    | track s => simp only [effect, apply, track]; split <;> rfl
    | _ => first | rfl | exact absurd trivial hplants | exact absurd trivial hch

/-- A change leaves a cell as it is, abandons it, or puts a value into it; and only an empty one
takes that. -/
theorem cell_apply (w : World) (ch : Change) (hcell : cell < w.cells.length) :
    (w.apply ch).cell cell = w.cell cell ∨ w.cell cell = .empty ∧
      ((w.apply ch).cell cell = .abandoned ∨
        ∃ v, (w.apply ch).cell cell = .answered v ∧ ch.Puts w cell v) := by
  have hcells := (apply_woken w ch).cells
  simp only [World.cell]
  cases ch with
  | newCell =>
    refine .inl ?_
    simp only [apply, newCell]
    rw [List.getD_eq_getElem?_getD, List.getElem?_append_left hcell, ← List.getD_eq_getElem?_getD]
  | answer id v =>
    rw [hcells]
    rcases filled_cases w.cells id cell (.answered v) with hsame | ⟨hid, hempty, hfilled⟩
    · exact .inl hsame
    · exact .inr ⟨hempty, .inr ⟨v, hfilled, hid, rfl⟩⟩
  | abandon id =>
    rw [hcells]
    rcases filled_cases w.cells id cell .abandoned with hsame | ⟨-, hempty, hfilled⟩
    · exact .inl hsame
    · exact .inr ⟨hempty, .inl hfilled⟩
  | settle serial number v =>
    simp only [hcells, effect, Change.Puts]
    cases hlookup : (w.waitingOn serial).lookup number with
    | none => exact .inl rfl
    | some id =>
      rcases filled_cases w.cells id cell (.answered v) with hsame | ⟨hid, hempty, hfilled⟩
      · exact .inl hsame
      · exact .inr ⟨hempty, .inr ⟨v, hfilled, congrArg some hid, rfl⟩⟩
  | shut serial =>
    rw [hcells]
    rcases allFailed_cases w.cells (w.waitingOn serial) cell with hsame | ⟨hempty, hfailed⟩
    · exact .inl hsame
    · exact .inr ⟨hempty, .inl hfailed⟩
  | _ => exact .inl (congrArg (·.getD cell .abandoned) (apply_cells w (by simp [Change.Fills])))

theorem cells_length_apply (w : World) (ch : Change) :
    w.cells.length ≤ (w.apply ch).cells.length := by
  have hcells := (apply_woken w ch).cells
  cases ch with
  | newCell => simp [apply, newCell]
  | answer id v => exact hcells ▸ Nat.le_of_eq length_filled.symm
  | abandon id => exact hcells ▸ Nat.le_of_eq length_filled.symm
  | settle serial number v =>
    simp only [hcells, effect]
    split
    · exact Nat.le_refl _
    · exact Nat.le_of_eq length_filled.symm
  | shut serial => exact hcells ▸ Nat.le_of_eq (length_allFailed _ _).symm
  | _ => exact Nat.le_of_eq (congrArg List.length (apply_cells w (by simp [Change.Fills]))).symm

/-- What a cell holds it holds for good. -/
def Settled (w : World) (cell : CellId) (content : Cell) : Prop :=
  cell < w.cells.length ∧ w.cell cell = content ∧ content ≠ .empty

theorem Settled.apply {content : Cell} (h : w.Settled cell content) (ch : Change) :
    (w.apply ch).Settled cell content := by
  obtain ⟨hlt, hcontent, hfull⟩ := h
  refine ⟨Nat.lt_of_lt_of_le hlt (cells_length_apply w ch), ?_, hfull⟩
  rcases cell_apply w ch hlt with hsame | ⟨hempty, -⟩
  · rw [hsame, hcontent]
  · exact absurd (hcontent.symm.trans hempty) hfull

theorem Run.settled {log : List Moment} {content : Cell} (h : Run w log w')
    (hcell : w.Settled cell content) : w'.Settled cell content :=
  h.keeps (I := fun w => w.Settled cell content) (fun _ ch hw => hw.apply ch)
    (fun _ _ _ _ _ hw => hw) hcell

/-- What is in a cell is in it whenever a job is done later. -/
theorem Settled.of_mem {log : List Moment} {m : Moment} {content : Cell}
    (h : w.Settled cell content)
    (hrun : Run w log w') (hm : m ∈ log) : m.world.cell cell = content := by
  obtain ⟨before, after, rfl⟩ := List.append_of_mem hm
  obtain ⟨v, rest, hbefore, -, hworld, -⟩ := hrun.split
  rw [hworld]
  exact (hbefore.settled h).2.1

/-! Emits that wait -/

/-- The number of the next emit that waits on a connection. -/
def nextKey (w : World) (n : Nat) : Nat := ((w.connection? n).map (·.nextKey)).getD 0

theorem nextKey_of_connection? {c : Connection} (h : w.connection? n = some c) :
    w.nextKey n = c.nextKey := by
  simp only [nextKey, h, Option.map_some, Option.getD_some]

theorem nextKey_apply (w : World) (ch : Change) (n : Nat) :
    w.nextKey n ≤ (w.apply ch).nextKey n := by
  cases hc : w.connection? n with
  | none => simp [nextKey, hc]
  | some c =>
    rw [nextKey_of_connection? hc, nextKey_of_connection? (connection?_apply hc ch)]
    cases ch <;> simp only [Change.reshape] <;> first | exact Nat.le_refl _ | (split <;> simp)

/-- Cells and numbers of emits are given out for good. -/
structure Grows (w w' : World) : Prop where
  cells : w.cells.length ≤ w'.cells.length
  nextKey : ∀ n, w.nextKey n ≤ w'.nextKey n

theorem Grows.apply (h : Grows w w') (ch : Change) : Grows w (w'.apply ch) where
  cells := Nat.le_trans h.cells (cells_length_apply w' ch)
  nextKey n := Nat.le_trans (h.nextKey n) (nextKey_apply w' ch n)

theorem Grows.refl (w : World) : Grows w w := ⟨Nat.le_refl _, fun _ => Nat.le_refl _⟩

theorem Makes.grows {P : Change → Prop} (h : Makes P w w') : Grows w w' :=
  h.keeps (I := Grows w) (fun _ ch _ hw => hw.apply ch) (.refl w)

theorem Run.grows {log : List Moment} (h : Run w log w') : Grows w w' :=
  h.keeps (I := Grows w) (fun _ ch hw => hw.apply ch) (fun _ _ _ _ _ hw => ⟨hw.cells, hw.nextKey⟩)
    (.refl w)

/-- What was in a cell when a job was done is in it from then on. -/
theorem Run.cell_of_mem {log : List Moment} {m : Moment} (h : Run w log w') (hm : m ∈ log)
    (hlt : cell < w.cells.length) (hfull : m.world.cell cell ≠ .empty) :
    w'.cell cell = m.world.cell cell := by
  obtain ⟨before, after, rfl⟩ := List.append_of_mem hm
  obtain ⟨v, rest, hbefore, hready, hworld, hafter⟩ := h.split
  have hstep := Run.start.step hready
  rw [← hworld] at hstep
  have hsettled : v.Settled cell (m.world.cell cell) :=
    ⟨Nat.lt_of_lt_of_le hlt hbefore.grows.cells, by rw [hworld]; rfl, hfull⟩
  exact ((hstep.trans hafter).settled hsettled).2.1

/-- The emits that wait on one connection have different numbers, which were all given out. -/
def Keyed (w : World) : Prop :=
  ∀ n c, w.connection? n = some c →
    (c.waiting.map (·.1)).Nodup ∧ ∀ entry ∈ c.waiting, entry.1 < c.nextKey

theorem Keyed.apply (h : w.Keyed) (ch : Change) : (w.apply ch).Keyed := by
  intro n c hc
  rcases connection?_of_apply hc with ⟨c', hc', rfl⟩ | ⟨-, -, hnone⟩
  · obtain ⟨hnodup, hgiven⟩ := h n c' hc'
    cases ch with
    | expect serial id =>
      simp only [Change.reshape]
      split
      · constructor
        · rw [List.map_append, List.nodup_append]
          refine ⟨hnodup, by simp, ?_⟩
          intro a ha b hb
          obtain ⟨entry, hentry, rfl⟩ := List.mem_map.1 ha
          rw [List.mem_singleton.1 hb]
          exact Nat.ne_of_lt (hgiven entry hentry)
        · intro entry hentry
          rcases List.mem_append.1 hentry with hentry | hentry
          · exact Nat.lt_succ_of_lt (hgiven entry hentry)
          · rw [List.mem_singleton.1 hentry]
            exact Nat.lt_succ_self _
      · exact ⟨hnodup, hgiven⟩
    | settle serial number v =>
      simp only [Change.reshape]
      split
      · exact ⟨(List.filter_sublist.map _).nodup hnodup,
          fun entry hentry => hgiven entry (List.mem_filter.1 hentry).1⟩
      · exact ⟨hnodup, hgiven⟩
    | shut serial =>
      simp only [Change.reshape]
      split
      · exact ⟨List.nodup_nil, fun entry hentry => absurd hentry List.not_mem_nil⟩
      · exact ⟨hnodup, hgiven⟩
    | _ =>
      simp only [Change.reshape]
      (try split) <;> exact ⟨hnodup, hgiven⟩
  · rw [hnone]
    exact ⟨List.nodup_nil, fun entry hentry => absurd hentry List.not_mem_nil⟩

/-- An emit waits on an open connection. -/
def Pending (w : World) (n key : Nat) (cell : CellId) : Prop :=
  w.isConnected n = true ∧ (key, cell) ∈ w.waitingOn n

theorem Keyed.lookup (h : w.Keyed) (hmem : (key, cell) ∈ w.waitingOn n) :
    (w.waitingOn n).lookup key = some cell := by
  cases hc : w.connection? n with
  | none => simp [waitingOn, hc] at hmem
  | some c =>
    rw [waitingOn_of_connection? hc] at hmem ⊢
    exact lookup_of_mem (h n c hc).1 hmem

/-- As long as nothing comes to its cell, an emit that waits goes on waiting. -/
theorem Pending.apply (h : w.Pending n key cell) (hkeyed : w.Keyed) (ch : Change)
    (hempty : (w.apply ch).cell cell = .empty) : (w.apply ch).Pending n key cell := by
  obtain ⟨hlive, hmem⟩ := h
  obtain ⟨c, hc⟩ := opened_of_isConnected hlive
  have hafter := connection?_apply hc ch
  have hwaiting : (key, cell) ∈ c.waiting := waitingOn_of_connection? hc ▸ hmem
  have hshut : ch ≠ .shut n := by
    rintro rfl
    simp only [World.cell, (apply_woken w _).cells] at hempty
    exact getD_allFailed_of_mem hmem hempty
  refine ⟨isConnected_apply hlive hshut, ?_⟩
  rw [waitingOn_of_connection? hafter]
  cases ch with
  | expect serial id =>
    simp only [Change.reshape]
    split
    · exact List.mem_append_left _ hwaiting
    · exact hwaiting
  | settle serial number v =>
    simp only [Change.reshape]
    split
    · rename_i hserial
      refine List.mem_filter.2 ⟨hwaiting, ?_⟩
      refine bne_iff_ne.2 fun hnumber => ?_
      subst hserial hnumber
      simp only [World.cell, (apply_woken w _).cells, effect, hkeyed.lookup hmem] at hempty
      rcases filled_cases w.cells cell cell (.answered v) with hsame | ⟨-, -, hanswered⟩
      · cases (getD_filled_self (hsame ▸ hempty)).symm.trans hempty
      · cases hanswered.symm.trans hempty
    · exact hwaiting
  | shut serial =>
    have hne : n ≠ serial := fun heq => hshut (heq ▸ rfl)
    simp only [Change.reshape, if_neg hne]
    exact hwaiting
  | _ =>
    simp only [Change.reshape]
    (try split) <;> exact hwaiting

end World

end Patchbay
