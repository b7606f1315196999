import Patchbay.Proofs.Engine.Tasks
import Patchbay.Proofs.State.Watch

/-!
What a change does to the tree of a place, and what the trace tells of it: every write and every
new watch leaves one event, so the trace alone says which changes a watch had to see.
-/

namespace Patchbay

/-- The place whose tree an event tells of. -/
def Event.place? : Event → Option Place
  | .wrote place _ => some place
  | .watched place .. => some place
  | _ => none

/-- The value an event shows at a path of a place. -/
def Event.reading? (place : Place) (path : String) : Event → Option (Option Json)
  | .wrote p root => if p = place then some (root.at? (.ofString path)) else none
  | _ => none

/-- The changes that a watch had to see, by what the trace tells of its place. -/
def Event.seen (place : Place) (id : Nat) : List Event → List Json
  | [] => []
  | .watched p n path first :: later =>
    if p = place ∧ n = id then changes first (later.filterMap (Event.reading? place path))
    else Event.seen place id later
  | _ :: later => Event.seen place id later

/-- A change that is made outside the loops of emitBacks. -/
def Change.Foreign : Change → Prop
  | .spawn job => job.back? = none
  | .poll .. | .unwatch .. => False
  | .record (.wrote ..) | .record (.watched ..) => False
  | _ => True

theorem Change.Among.foreign {c : Change}
    (h : c.Among (Kind.but [.spawn, .poll, .unwatch, .writing, .watching])) : c.Foreign := by
  cases c with
  | record event => cases event <;> first | exact trivial | exact h.elim
  | _ => first | exact trivial | exact h.elim

theorem Change.Basic.foreign {c : Change} (h : c.Basic) : c.Foreign := Among.foreign (h.mono rfl)

theorem Change.Asks.foreign {c : Change} (h : c.Asks) : c.Foreign := by
  rcases h.spawns_or with ⟨job, hjob, rfl⟩ | h
  · exact hjob.1
  · exact Among.foreign (h.mono rfl)

theorem Change.Replies.foreign {c : Change} (h : c.Replies) : c.Foreign := by
  rcases h.eq_hold_or with ⟨cell, rfl⟩ | hasks
  · trivial
  · exact hasks.foreign

theorem Change.Undoes.foreign {c : Change} (h : c.Undoes) : c.Foreign := Among.foreign (h.mono rfl)

theorem Change.Commands.foreign {c : Change} (h : c.Commands) : c.Foreign :=
  h.elim (·.foreign) (·.foreign)

theorem Change.Acquires.foreign {c : Change} (h : c.Acquires) : c.Foreign :=
  Among.foreign (h.mono rfl)

theorem Change.Wires.foreign {c : Change} (h : c.Wires) : c.Foreign :=
  Among.foreign (h.among.mono rfl)

theorem Change.Enters.foreign {c : Change} (h : c.Enters) : c.Foreign := Among.foreign (h.mono rfl)

/-- Only the loop of an emitBack makes other changes. -/
theorem Job.May.foreign {job : Job} {c : Change} (h : job.May c)
    (hjob : ∀ back, job ≠ .watch back) : c.Foreign := by
  cases job with
  | watch back => exact absurd rfl (hjob back)
  | emitDone result after => cases after <;> exact Change.Among.foreign (h.among.mono rfl)
  | transmit => exact (Change.Sends.utters h).asks.foreign
  | serveEnd =>
    rcases Change.Serves.eq_shut_or h with rfl | hreplies
    · trivial
    · exact hreplies.foreign
  | hookDone verdict after => cases after <;> exact Change.Among.foreign (h.among.mono rfl)
  | _ => exact Change.Among.foreign (h.among.mono rfl)

namespace World

/-! Trees -/

theorem component_setComponent (w : World) (id other : ComponentId) (c : Component) :
    (w.setComponent id c).component other = if other = id then c else w.component other := by
  unfold component setComponent
  by_cases h : other = id
  · simp [h]
  · have htext : other.text ≠ id.text := fun heq => h (by cases other; cases id; simpa using heq)
    simp [h, Fields.get?_insert_of_ne htext]

theorem tree_setTree (w : World) (place other : Place) (t : Tree) :
    (w.setTree place t).tree other = if other = place then t else w.tree other := by
  cases place with
  | component id =>
    cases other with
    | component id' =>
      simp only [tree, setTree, component_setComponent, Place.component.injEq]
      by_cases h : id' = id <;> simp [h]
    | store => simp [tree, setTree, setComponent]
  | store =>
    cases other with
    | component id' => simp [tree, setTree, component]
    | store => simp [tree, setTree]

/-- A component keeps its data when only its handlers or callables change. -/
theorem tree_setComponent {w : World} {id : ComponentId} {c : Component}
    (h : c.data = (w.component id).data) (place : Place) :
    (w.setComponent id c).tree place = w.tree place := by
  cases place with
  | store => rfl
  | component other =>
    simp only [tree, component_setComponent]
    by_cases hid : other = id
    · simp [hid, h]
    · simp [hid]

theorem Woken.tree {w w' : World} (h : Woken w w') (place : Place) :
    w'.tree place = w.tree place := by
  obtain ⟨ready, parked, rfl, -, -⟩ := h
  cases place <;> rfl

/-- What became of a tree between `w` and `w'`, with what the trace tells of it. -/
inductive Tends (place : Place) (w w' : World) : Prop
  | idle (more : List Event) (htree : w'.tree place = w.tree place)
    (htrace : w'.trace = w.trace ++ more) (hmore : ∀ e ∈ more, e.place? ≠ some place)
  | write (t : Tree) (ht : t = w.tree place ∨ ∃ path v, t = (w.tree place).set path v)
    (htree : w'.tree place = t) (htrace : w'.trace = w.trace ++ [.wrote place t.root])
    (hwoken : ∀ p ∈ w'.parked, ∀ watch ∈ t.watches, watch.pending ≠ [] →
      Signal.watch place watch.id ∉ p.signals)
  | watch (path : String) (htree : w'.tree place = ((w.tree place).watch path).1)
    (htrace : w'.trace = w.trace ++
      [.watched place ((w.tree place).watch path).2 path ((w.tree place).get? path)])

theorem Tends.same {w w' : World} {place : Place} (htree : w'.tree place = w.tree place)
    (htrace : w'.trace = w.trace) : Tends place w w' :=
  .idle [] htree (by rw [htrace, List.append_nil]) fun e he => absurd he List.not_mem_nil

theorem Woken.tends {w w₁ w' : World} {place : Place} (h : Woken w₁ w') (hw : Tends place w w₁) :
    Tends place w w' := by
  cases hw with
  | idle more htree htrace hmore =>
    exact .idle more ((h.tree place).trans htree) (h.trace.trans htrace) hmore
  | write t ht htree htrace hwoken =>
    exact .write t ht ((h.tree place).trans htree) (h.trace.trans htrace) fun p hp =>
      hwoken p (h.parked_subset hp)
  | watch path htree htrace =>
    exact .watch path ((h.tree place).trans htree) (h.trace.trans htrace)

/-- A write wakes who waits for a watch that has something queued. -/
theorem signals_of_writeTree {w : World} {place : Place} {t : Tree} {p : Parked}
    (hp : p ∈ (w.writeTree place t).parked) {watch : Watch} (hwatch : watch ∈ t.watches)
    (hpending : watch.pending ≠ []) : Signal.watch place watch.id ∉ p.signals := by
  unfold writeTree at hp
  generalize (w.setTree place t).record (.wrote place t.root) = start at hp
  generalize t.watches = watches at hp hwatch
  induction watches generalizing start with
  | nil => cases hwatch
  | cons first rest ih =>
    rcases List.mem_cons.1 hwatch with rfl | hwatch
    · have hempty : watch.pending.isEmpty = false := by simpa using hpending
      rw [List.foldl_cons, hempty] at hp
      have hsub : (List.foldl (fun w (watch : Watch) => if watch.pending.isEmpty = true then w
          else w.signal (.watch place watch.id))
            (start.signal (.watch place watch.id)) rest).parked ⊆
            (start.signal (.watch place watch.id)).parked := by
        refine (Woken.foldl ?_ _ _).parked_subset
        intro w watch
        split
        · exact Woken.refl w
        · exact signal_woken w _
      have hkept := (List.mem_filter.1 (hsub hp)).2
      simpa using hkept
    · exact ih _ hp hwatch

theorem writeTree_tends (w : World) {at_ : Place} {t : Tree}
    (ht : t = w.tree at_ ∨ ∃ path v, t = (w.tree at_).set path v) (place : Place) :
    Tends place w (w.writeTree at_ t) := by
  have hwoken := writeTree_woken w at_ t
  have htrace : (w.writeTree at_ t).trace = w.trace ++ [.wrote at_ t.root] := by
    rw [hwoken.trace, record, setTree_trace]
  have htree := (hwoken.tree place).trans (tree_setTree w at_ place t)
  by_cases hplace : place = at_
  · subst hplace
    rw [if_pos rfl] at htree
    exact .write t ht htree htrace fun p hp watch hwatch hpending =>
      signals_of_writeTree hp hwatch hpending
  · rw [if_neg hplace] at htree
    refine .idle _ htree htrace ?_
    intro e he
    rw [List.mem_singleton.1 he]
    simpa [Event.place?] using Ne.symm hplace

theorem watch_trace (w : World) (place : Place) (path : String) :
    (w.watch place path).1.trace = w.trace ++
      [.watched place ((w.tree place).watch path).2 path ((w.tree place).get? path)] := by
  simp only [watch, record, setTree_trace]
  rfl

theorem watch_tends (w : World) (at_ : Place) (path : String) (place : Place) :
    Tends place w (w.watch at_ path).1 := by
  have htrace := watch_trace w at_ path
  have htree := tree_setTree w at_ place ((w.tree at_).watch path).1
  by_cases hplace : place = at_
  · subst hplace
    rw [if_pos rfl] at htree
    exact .watch path htree htrace
  · rw [if_neg hplace] at htree
    refine .idle _ htree htrace ?_
    intro e he
    rw [List.mem_singleton.1 he]
    simpa [Event.place?] using Ne.symm hplace

/-! The start of an emitBack is its watch, as far as trees and the trace go -/

theorem attachBack_tree (w : World) (back : EmitBack) (path : String) (place : Place) :
    (w.apply (.attachBack back path)).tree place = (w.watch back.place path).1.tree place := by
  cases place <;> simp only [apply, spawn, newToken, tree, component]

theorem attachBack_trace (w : World) (back : EmitBack) (path : String) :
    (w.apply (.attachBack back path)).trace = (w.watch back.place path).1.trace := by
  simp only [apply, spawn, newToken]

theorem attachBack_parked (w : World) (back : EmitBack) (path : String) :
    (w.apply (.attachBack back path)).parked = (w.watch back.place path).1.parked := by
  simp only [apply, spawn, newToken]

/-- Outside the loops of emitBacks a tree is left alone, written or watched. -/
theorem apply_tends (w : World) {c : Change} (hc : c.Foreign) (place : Place) :
    Tends place w (w.apply c) := by
  have hsame {w' : World} (hcomponents : w'.components = w.components) (hstore : w'.store = w.store)
      (htrace : w'.trace = w.trace) : Tends place w w' :=
    .same (by cases place <;> simp [tree, component, hcomponents, hstore]) htrace
  cases c with
  | record event =>
    refine .idle [event] (by cases place <;> rfl) rfl fun e he => ?_
    rw [List.mem_singleton.1 he]
    cases event <;> first | exact hc.elim | simp [Event.place?]
  | signal s => exact (signal_woken w s).tends (hsame rfl rfl rfl)
  | answer id v => exact (apply_woken w (.answer id v)).tends (hsame rfl rfl rfl)
  | abandon id => exact (apply_woken w (.abandon id)).tends (hsame rfl rfl rfl)
  | cancel t => exact (apply_woken w (.cancel t)).tends (hsame rfl rfl rfl)
  | settle serial key v => exact (apply_woken w (.settle serial key v)).tends (hsame rfl rfl rfl)
  | shut serial => exact (apply_woken w (.shut serial)).tends (hsame rfl rfl rfl)
  | set at_ path v => exact writeTree_tends w (.inr ⟨path, v, rfl⟩) place
  | touch at_ => exact writeTree_tends w (.inl rfl) place
  | attachBack back path =>
    have htree := attachBack_tree w back path place
    have htrace := attachBack_trace w back path
    have hparked := attachBack_parked w back path
    cases watch_tends w back.place path place with
    | idle more htree' htrace' hmore =>
      exact .idle more (htree.trans htree') (htrace.trans htrace') hmore
    | write t ht htree' htrace' hwoken =>
      exact .write t ht (htree.trans htree') (htrace.trans htrace') (hparked ▸ hwoken)
    | watch path htree' htrace' => exact .watch path (htree.trans htree') (htrace.trans htrace')
  | poll => exact hc.elim
  | unwatch => exact hc.elim
  | countCall hook =>
    refine .same (tree_setComponent ?_ place) rfl
    rfl
  | insertCallable owner name c =>
    refine .same (tree_setComponent ?_ place) rfl
    rfl
  | track s =>
    simp only [apply, track]
    split <;> exact hsame rfl rfl rfl
  | _ => exact hsame rfl rfl rfl

end World

end Patchbay
