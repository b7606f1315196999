import Patchbay.Proofs.Answers.Deeds

/-!
The turn in which an emit goes out that wants an answer. Its cell, its responder and its number are
new: whatever was said before is said of other cells and other emits.
-/

namespace Patchbay

/-- A change with which an emit goes out. Nobody waits for its answer yet. -/
def Change.Poses : Change → Prop
  | .newCell | .record _ | .expect .. => True
  | .spawn job => ∀ cell, job.waitsFor cell = false
  | _ => False

/-- What a change adds to what is said, its permit has. -/
theorem Change.Within.mentions {g : Permit} {c : Change} {w : World} {m : Mention} (h : c.Within g)
    (hm : c.Mentions w m) : g.mentions m := by
  cases c with
  | spawn job => exact h m hm
  | hold id =>
    obtain rfl : m = .held id := hm
    exact h
  | listen serial event action once =>
    cases action with
    | await id =>
      obtain rfl : m = .awaited id := hm
      exact h
    | _ => exact hm.elim
  | expect => exact h.elim
  | _ => exact hm.elim

/-- The mention comes with the emit. -/
def Ask.Speaks (a : Ask) : Mention → Prop
  | .client cell => cell = a.cell
  | .expected cell n key => cell = a.cell ∧ n = a.serial ∧ key = a.key
  | .forward cell n key => a.responder = some cell ∧ n = a.serial ∧ key = a.key
  | .asked cell n event payload =>
    a.responder = some cell ∧ n = a.serial ∧ event = a.event ∧ payload = a.payload
  | _ => False

/-- The mention is of another cell and another emit. -/
structure Ask.Apart (a : Ask) (m : Mention) : Prop where
  cell : m.cell ≠ a.cell
  responder : a.responder ≠ some m.cell
  emit : ∀ n key, m.emit? = some (n, key) → ¬ (n = a.serial ∧ key = a.key)

namespace World

variable {g : Permit} {a : Ask} {w w' : World} {m : Mention} {n key : Nat} {cell : CellId}

/-! What a permit lets be said -/

theorem Makes.mentions (h : Makes (Change.Within g) w w') (hm : w'.Mentions m) :
    w.Mentions m ∨ g.mentions m := by
  induction h with
  | nothing => exact .inl hm
  | more c _ hc ih =>
    rcases mentions_apply hm with hold | hnew
    · exact ih hold
    · exact .inr (hc.mentions hnew)

theorem Does.mentions {job : Job} (h : Does (Change.Within g) (Continues g job) w w')
    (hm : w'.Mentions m) : w.Mentions m ∨ job.mention? = some m ∨ g.mentions m := by
  obtain ⟨mid, e, hmid, hnext, rfl⟩ := h
  rcases mentions_onward hm with hold | ⟨next, hin, hsaid⟩
  · rcases hmid.mentions hold with hold | hnew
    · exact .inl hold
    · exact .inr (.inr hnew)
  · exact .inr (hnext next hin m hsaid)

theorem Makes.waiters {P : Change → Prop} (h : Makes P w w')
    (hP : ∀ x c, P c → ¬ c.Mentions x (.client cell)) : w'.waiters cell = w.waiters cell := by
  induction h with
  | nothing => rfl
  | more c _ hc ih => exact (waiters_apply _ (hP _ c hc)).trans ih

theorem waiters_eq_zero (h : ¬ w.Mentions (.client cell)) : w.waiters cell = 0 := by
  refine List.countP_eq_zero.2 fun job hjob hwaits => h ?_
  exact .job hjob (Job.mention?_of_waitsFor hwaits)

/-! Going out -/

theorem ask_makes (w : World) (a : Ask) : Makes Change.Poses w (w.ask a) := by
  have hasked : Makes Change.Poses w (((w.apply .newCell).apply
      (.record (.emitted a.serial a.event a.payload true))).apply (.expect a.serial a.cell)) :=
    .more _ (.more _ (.one _ trivial) trivial) trivial
  unfold ask
  cases a.responder with
  | none => exact hasked
  | some r =>
    exact .more _ (.more _ (.more _ hasked trivial) fun cell => rfl) fun cell => rfl

/-- The connection has the emit wait under the next number. -/
theorem connection?_ask {c : Connection} (hc : w.connection? a.serial = some c) :
    (w.ask a).connection? a.serial = some { c with
      waiting := c.waiting ++ [(c.nextKey, a.cell)], nextKey := c.nextKey + 1 } := by
  have hasked := connection?_apply (connection?_apply (connection?_apply hc .newCell)
    (.record (.emitted a.serial a.event a.payload true))) (.expect a.serial a.cell)
  simp only [Change.reshape, ↓reduceIte] at hasked
  cases hr : a.responder with
  | none =>
    simp only [ask, hr]
    exact hasked
  | some r =>
    simp only [ask, hr]
    exact connection?_apply (connection?_apply (connection?_apply hasked .newCell) (.spawn _))
      (.spawn _)

theorem cells_ask (w : World) (a : Ask) :
    (w.ask a).cells = w.cells ++ (.empty :: a.responder.toList.map fun _ => .empty) := by
  cases hr : a.responder with
  | none =>
    simp only [ask, hr]
    rfl
  | some r =>
    simp only [ask, hr]
    exact List.append_assoc w.cells [.empty] [.empty]

theorem mentions_asked {e : Event} (hm : (((w.apply .newCell).apply (.record e)).apply
    (.expect n cell)).Mentions m) : w.Mentions m ∨ m = .expected cell n (w.nextKey n) := by
  rcases mentions_apply hm with hm | hm
  · rcases mentions_apply hm with hm | hm
    · exact .inl ((mentions_apply hm).resolve_right id)
    · exact hm.elim
  · exact .inr hm

/-- Before somebody waits for it, an emit that goes out is known to its connection and its
server. -/
theorem mentions_ask (hbegins : Begins a w) (hm : (w.ask a).Mentions m) :
    w.Mentions m ∨ a.Speaks m ∧ m ≠ .client a.cell := by
  have hasked (hm : (((w.apply .newCell).apply (.record (.emitted a.serial a.event a.payload
      true))).apply (.expect a.serial a.cell)).Mentions m) :
      w.Mentions m ∨ a.Speaks m ∧ m ≠ .client a.cell := by
    rcases mentions_asked hm with hold | rfl
    · exact .inl hold
    · exact .inr ⟨⟨rfl, rfl, hbegins.key.symm⟩, nofun⟩
  cases hr : a.responder with
  | none =>
    simp only [ask, hr] at hm
    exact hasked hm
  | some r =>
    simp only [ask, hr] at hm
    rcases mentions_apply hm with hm | hserve
    · rcases mentions_apply hm with hm | hforward
      · exact hasked ((mentions_apply hm).resolve_right id)
      · obtain rfl := Option.some.inj hforward
        exact .inr ⟨⟨hr, rfl, rfl⟩, nofun⟩
    · obtain rfl := Option.some.inj hserve
      exact .inr ⟨⟨hr, rfl, rfl, rfl⟩, nofun⟩

/-- Nobody speaks of a cell that there is not, or of an emit that did not go out. -/
structure Bounded (w : World) : Prop where
  cell : ∀ m, w.Mentions m → m.cell < w.cells.length
  emit : ∀ m n key, w.Mentions m → m.emit? = some (n, key) → key < w.nextKey n

/-- What was said before the emit is not about it. -/
theorem Begins.apart (hbegins : Begins a w) (hbounded : w.Bounded) (hm : w.Mentions m) :
    a.Apart m where
  cell := by
    rw [hbegins.cell]
    exact Nat.ne_of_lt (hbounded.cell m hm)
  responder := by
    intro hr
    have hlt := hbounded.cell m hm
    rw [hbegins.responder _ hr] at hlt
    exact Nat.lt_irrefl _ (Nat.lt_of_succ_lt hlt)
  emit := by
    rintro n key hemit ⟨rfl, rfl⟩
    have hlt := hbounded.emit m _ _ hm hemit
    rw [hbegins.key] at hlt
    exact Nat.lt_irrefl _ hlt

theorem Begins.cell_ne_responder (hbegins : Begins a w) : a.responder ≠ some a.cell := by
  intro hr
  exact Nat.succ_ne_self _ ((hbegins.responder _ hr).symm.trans hbegins.cell)

namespace Asks

variable (hbegins : Begins a w) (h : Asks a w w')
include h

theorem connections : w'.connections = (w.ask a).connections := by
  cases h <;> rfl

theorem cells : w'.cells = (w.ask a).cells := by
  cases h <;> rfl

theorem trace : w'.trace = w.trace ++ [.emitted a.serial a.event a.payload true] := by
  have hask : (w.ask a).trace = w.trace ++ [.emitted a.serial a.event a.payload true] := by
    cases hr : a.responder with
    | none => simp only [ask, hr]; rfl
    | some r => simp only [ask, hr]; rfl
  cases h <;> exact hask

theorem length_cells : w'.cells.length = w.cells.length + 1 + a.responder.toList.length := by
  rw [h.cells, cells_ask]
  simp only [List.length_append, List.length_cons, List.length_map]
  omega

/-- What was in the cells stays there. -/
theorem kept (hlt : cell < w.cells.length) : w'.cell cell = w.cell cell := by
  rw [World.cell, h.cells, cells_ask, List.getD_eq_getElem?_getD, List.getElem?_append_left hlt,
    ← List.getD_eq_getElem?_getD]
  rfl

/-- Nobody comes to wait for another cell. -/
theorem waiters (hne : a.cell ≠ cell) : w'.waiters cell = w.waiters cell := by
  have hask : (w.ask a).waiters cell = w.waiters cell := by
    refine (ask_makes w a).waiters fun x c hc hsaid => ?_
    cases c with
    | spawn job => exact nomatch (hc cell).symm.trans (Job.waitsFor_of_mention? hsaid)
    | expect => cases hsaid
    | _ => first | exact hsaid.elim | exact hc.elim
  have hother {job : Job} (hjob : job.mention? = some (.client a.cell)) :
      job.waitsFor cell = false := by
    simp [Job.waitsFor, hjob, hne]
  cases h with
  | @resumes job hjob =>
    refine (waiters_onward (w.ask a) (.resumes job) cell).trans ?_
    simp [Onward.job?, hother hjob, hask]
  | @starts job hjob =>
    have hjobs := (spawn_schedules (w.ask a) job).jobs
    rw [World.waiters, hjobs.countP_eq, List.countP_append, ← World.waiters, hask]
    simp [hother hjob]

include hbegins

theorem mentions (hm : w'.Mentions m) : w.Mentions m ∨ a.Speaks m := by
  cases h with
  | @resumes job hjob =>
    rcases mentions_onward (e := .resumes job) hm with hask | ⟨next, hin, hsaid⟩
    · exact (mentions_ask hbegins hask).imp_right (·.1)
    · obtain rfl := Option.some.inj hin
      obtain rfl := Option.some.inj (hjob.symm.trans hsaid)
      exact .inr rfl
  | @starts job hjob =>
    rcases @mentions_apply (w.ask a) (.spawn job) _ hm with hask | hsaid
    · exact (mentions_ask hbegins hask).imp_right (·.1)
    · obtain rfl := Option.some.inj (hjob.symm.trans hsaid)
      exact .inr rfl

/-- One task waits for the answer. -/
theorem waiters_eq_one (hbounded : w.Bounded) : w'.waiters a.cell = 1 := by
  have hnone : (w.ask a).waiters a.cell = 0 := by
    refine waiters_eq_zero fun hm => ?_
    rcases mentions_ask hbegins hm with hold | ⟨-, hne⟩
    · exact (hbegins.apart hbounded hold).cell rfl
    · exact hne rfl
  cases h with
  | @resumes job hjob =>
    refine (waiters_onward (w.ask a) (.resumes job) a.cell).trans ?_
    simp [Onward.job?, Job.waitsFor_of_mention? hjob, hnone]
  | @starts job hjob =>
    have hjobs := (spawn_schedules (w.ask a) job).jobs
    rw [World.waiters, hjobs.countP_eq, List.countP_append, ← World.waiters, hnone]
    simp [Job.waitsFor_of_mention? hjob]

theorem pending : w'.Pending a.serial a.key a.cell := by
  obtain ⟨c, hc⟩ := opened_of_isConnected hbegins.live
  have hafter : w'.connection? a.serial = _ :=
    (connection?_congr h.connections _).trans (connection?_ask hc)
  have hlive : c.connected = true := by
    have hlive := hbegins.live
    simpa only [isConnected, hc] using hlive
  refine ⟨?_, ?_⟩
  · simp only [isConnected, hafter, hlive]
  · rw [waitingOn_of_connection? hafter, hbegins.key, nextKey_of_connection? hc]
    exact List.mem_append_right _ List.mem_cons_self

theorem key_lt : a.key < w'.nextKey a.serial := by
  obtain ⟨c, hc⟩ := opened_of_isConnected hbegins.live
  have hafter : w'.connection? a.serial = _ :=
    (connection?_congr h.connections _).trans (connection?_ask hc)
  rw [nextKey_of_connection? hafter, hbegins.key, nextKey_of_connection? hc]
  exact Nat.lt_succ_self _

theorem cell_lt : a.cell < w'.cells.length ∧
    ∀ r, a.responder = some r → r < w'.cells.length := by
  rw [hbegins.cell, h.length_cells]
  refine ⟨Nat.lt_of_lt_of_le (Nat.lt_succ_self _) (Nat.le_add_right _ _), ?_⟩
  intro r hr
  rw [hbegins.responder r hr, hr]
  exact Nat.lt_succ_self _

/-- Nothing is in its cells yet. -/
theorem empty (hcell : cell = a.cell ∨ a.responder = some cell) : w'.cell cell = .empty := by
  rw [World.cell, h.cells, cells_ask, List.getD_eq_getElem?_getD]
  rcases hcell with rfl | hr
  · rw [hbegins.cell, List.getElem?_append_right (Nat.le_refl _), Nat.sub_self]
    rfl
  · rw [hbegins.responder cell hr, hr, List.getElem?_append_right (Nat.le_add_right _ 1),
      Nat.add_sub_cancel_left]
    rfl

end Asks

end World

end Patchbay
