import Patchbay.Proofs.Engine.Trees

/-!
A watch on a tree of a running engine. What its holder has taken and what it has queued are the
changes that the trace tells of, whatever else happens to the tree.
-/

namespace Patchbay

namespace World

/-- The watch of that number at a place is there and current, and its holder has taken these of the
changes that the trace tells of; the others are queued. -/
def Sees (w : World) (place : Place) (id : Nat) (taken : List Json) : Prop :=
  ∃ path first earlier later, w.trace = earlier ++ .watched place id path first :: later ∧
    (∀ p v, Event.watched place id p v ∉ earlier) ∧
    (later.filterMap (Event.reading? place path)).getLast?.getD first = (w.tree place).get? path ∧
    (w.tree place).Follows id path ∧
    taken ++ (w.tree place).pending id =
      changes first (later.filterMap (Event.reading? place path))

theorem seen_of_trace {place : Place} {id : Nat} {earlier later : List Event} {path : String}
    {first : Option Json} (h : ∀ p v, Event.watched place id p v ∉ earlier) :
    Event.seen place id (earlier ++ .watched place id path first :: later) =
      changes first (later.filterMap (Event.reading? place path)) := by
  induction earlier with
  | nil => simp [Event.seen]
  | cons e rest ih =>
    have hrest := ih fun p v hmem => h p v (List.mem_cons_of_mem _ hmem)
    cases e with
    | watched p n path' first' =>
      have hother : ¬(p = place ∧ n = id) := by
        rintro ⟨rfl, rfl⟩
        exact h path' first' List.mem_cons_self
      simpa only [List.cons_append, Event.seen, if_neg hother] using hrest
    | _ => exact hrest

theorem Sees.seen {w : World} {place : Place} {id : Nat} {taken : List Json}
    (h : w.Sees place id taken) :
    taken ++ (w.tree place).pending id = Event.seen place id w.trace := by
  obtain ⟨path, first, earlier, later, htrace, hearlier, -, -, hqueue⟩ := h
  rw [hqueue, htrace, seen_of_trace hearlier]

/-- A new watch has seen nothing yet. -/
theorem sees_of_watch {w w' : World} {place : Place} {path : String}
    (hnumbered : (w.tree place).Numbered)
    (hnew : ∀ n p v, Event.watched place n p v ∈ w.trace → n ≤ (w.tree place).created)
    (htree : w'.tree place = ((w.tree place).watch path).1)
    (htrace : w'.trace = w.trace ++
      [.watched place ((w.tree place).watch path).2 path ((w.tree place).get? path)]) :
    w'.Sees place ((w.tree place).watch path).2 [] := by
  obtain ⟨hfollows, hpending⟩ := Tree.follows_watch hnumbered path
  refine ⟨path, _, w.trace, [], htrace, ?_, ?_, ?_, ?_⟩
  · intro p v hmem
    exact Nat.not_succ_le_self _ (hnew _ p v hmem)
  · rw [htree]
    rfl
  · rwa [htree]
  · rw [htree, hpending]
    rfl

/-- What a step hands to the holder, and what it leaves queued, are the changes it made. -/
theorem Sees.extend {w w' : World} {place : Place} {id : Nat} {taken given : List Json}
    (h : w.Sees place id taken) {more : List Event} (htrace : w'.trace = w.trace ++ more)
    (hstep : ∀ path, (w.tree place).Follows id path → (w'.tree place).Follows id path ∧
      given ++ (w'.tree place).pending id = (w.tree place).pending id ++
        changes ((w.tree place).get? path) (more.filterMap (Event.reading? place path)) ∧
      (more.filterMap (Event.reading? place path)).getLast?.getD ((w.tree place).get? path) =
        (w'.tree place).get? path) :
    w'.Sees place id (taken ++ given) := by
  obtain ⟨path, first, earlier, later, hbefore, hearlier, hlast, hfollows, hqueue⟩ := h
  obtain ⟨hfollows', hgiven, hlast'⟩ := hstep path hfollows
  refine ⟨path, first, earlier, later ++ more, ?_, hearlier, ?_, hfollows', ?_⟩
  · rw [htrace, hbefore, List.append_assoc, List.cons_append]
  · rw [List.filterMap_append, List.getLast?_append, Option.getD_or, hlast, hlast']
  · rw [List.append_assoc, hgiven, ← List.append_assoc, hqueue, List.filterMap_append,
      changes_append, hlast]

/-- An action on the tree that is no write and leaves the watch alive. -/
theorem Sees.act {w w' : World} {place : Place} {id : Nat} {taken : List Json}
    (h : w.Sees place id taken) {a : Tree.Action} (ha : a ≠ .unwatch id)
    (htree : w'.tree place = (w.tree place).act a)
    {more : List Event} (htrace : w'.trace = w.trace ++ more)
    (hmore : ∀ path, more.filterMap (Event.reading? place path) = (w.tree place).reading path a) :
    w'.Sees place id (taken ++ (w.tree place).given id a) := by
  refine h.extend htrace ?_
  intro path hfollows
  obtain ⟨hfollows', hgiven⟩ := Tree.follows_act hfollows ha
  rw [htree, hmore path]
  exact ⟨hfollows', hgiven, Tree.get?_act_of_reading⟩

theorem reading?_eq_none {place : Place} {e : Event} (h : e.place? ≠ some place) (path : String) :
    e.reading? place path = none := by
  cases e with
  | wrote p root =>
    have hne : p ≠ place := fun heq => h (by rw [heq]; rfl)
    simp [Event.reading?, hne]
  | _ => rfl

/-- What happens outside its loop does not stop a watch from seeing. -/
theorem Sees.tends {w w' : World} {place : Place} {id : Nat} {taken : List Json}
    (h : w.Sees place id taken) (htends : Tends place w w') : w'.Sees place id taken := by
  rw [← List.append_nil taken]
  cases htends with
  | idle more htree htrace hmore =>
    have hnone (path : String) : more.filterMap (Event.reading? place path) = [] :=
      List.filterMap_eq_nil_iff.2 fun e he => reading?_eq_none (hmore e he) path
    refine h.extend htrace ?_
    intro path hfollows
    rw [htree, hnone path]
    exact ⟨hfollows, by simp [changes], rfl⟩
  | write t ht htree htrace =>
    have hreading (path : String) :
        [Event.wrote place t.root].filterMap (Event.reading? place path) = [t.get? path] := by
      simp [Event.reading?, Tree.get?]
    rcases ht with rfl | ⟨p, v, rfl⟩
    · refine h.extend htrace ?_
      intro path hfollows
      rw [htree, hreading path]
      exact ⟨hfollows, by simp [changes, Json.sameOption_refl], rfl⟩
    · exact h.act (a := .set p v) (fun h => by cases h) htree htrace hreading
  | watch path htree htrace =>
    exact h.act (a := .watch path) (fun h => by cases h) htree htrace fun _ => rfl

/-! The numbers of watches -/

theorem created_le_of_tends {w w' : World} {place : Place} (h : Tends place w w') :
    (w.tree place).created ≤ (w'.tree place).created := by
  cases h with
  | idle more htree => exact Nat.le_of_eq (by rw [htree])
  | write t ht htree =>
    rcases ht with rfl | ⟨p, v, rfl⟩
    · exact Nat.le_of_eq (by rw [htree])
    · exact Nat.le_of_eq (congrArg Tree.created htree).symm
  | watch path htree =>
    rw [htree]
    exact Nat.le_succ _

/-- Every watch at a place, alive or only told of by the trace, has a number that was given out. -/
def Known (w : World) (place : Place) : Prop :=
  (w.tree place).Numbered ∧
    ∀ n p v, Event.watched place n p v ∈ w.trace → n ≤ (w.tree place).created

theorem Known.tends {w w' : World} {place : Place} (h : w.Known place)
    (htends : Tends place w w') : w'.Known place := by
  have hcreated := created_le_of_tends htends
  cases htends with
  | idle more htree htrace hmore =>
    refine ⟨by rw [htree]; exact h.1, ?_⟩
    intro n p v hmem
    rw [htrace] at hmem
    rcases List.mem_append.1 hmem with hmem | hmem
    · exact Nat.le_trans (h.2 n p v hmem) hcreated
    · exact absurd rfl (hmore _ hmem)
  | write t ht htree htrace =>
    constructor
    · rw [htree]
      rcases ht with rfl | ⟨p, v, rfl⟩
      · exact h.1
      · exact Tree.numbered_set h.1 p v
    · intro n p v hmem
      rw [htrace] at hmem
      rcases List.mem_append.1 hmem with hmem | hmem
      · exact Nat.le_trans (h.2 n p v hmem) hcreated
      · cases List.mem_singleton.1 hmem
  | watch path htree htrace =>
    refine ⟨by rw [htree]; exact Tree.numbered_watch h.1 path, ?_⟩
    intro n p v hmem
    rw [htrace] at hmem
    rcases List.mem_append.1 hmem with hmem | hmem
    · exact Nat.le_trans (h.2 n p v hmem) hcreated
    · cases List.mem_singleton.1 hmem
      rw [htree]
      exact Nat.le_refl _

theorem Sees.le_created {w : World} {place : Place} {id : Nat} {taken : List Json}
    (h : w.Sees place id taken) (hknown : w.Known place) : id ≤ (w.tree place).created := by
  obtain ⟨path, first, earlier, later, htrace, -⟩ := h
  exact hknown.2 id path first (by simp [htrace])

/-! What the loops of emitBacks do -/

/-- The loop of that watch takes its next change or gives it up. -/
def LoopAction (id : Nat) (a : Tree.Action) : Prop := a = .pollOne id ∨ a = .unwatch id

theorem Known.loop {w : World} {place other : Place} {id : Nat} {a : Tree.Action}
    (h : w.Known other) (ha : LoopAction id a) :
    (w.setTree place ((w.tree place).act a)).Known other := by
  have htree := tree_setTree w place other ((w.tree place).act a)
  by_cases hplace : other = place
  · subst hplace
    rw [if_pos rfl] at htree
    have hcreated : ((w.tree other).act a).created = (w.tree other).created := by
      rcases ha with rfl | rfl
      · simp only [Tree.act, Tree.pollOne]
        split <;> rfl
      · rfl
    refine ⟨by rw [htree]; exact Tree.numbered_act h.1 a, ?_⟩
    intro n p v hmem
    rw [setTree_trace] at hmem
    rw [htree, hcreated]
    exact h.2 n p v hmem
  · rw [if_neg hplace] at htree
    unfold Known
    rw [htree, setTree_trace]
    exact h

/-- What the loop of one watch does is nothing to the other watches. -/
theorem Sees.beside_loop {w : World} {place other : Place} {n id : Nat} {taken : List Json}
    {a : Tree.Action} (h : w.Sees other id taken) (ha : LoopAction n a)
    (hne : ¬(other = place ∧ id = n)) :
    (w.setTree place ((w.tree place).act a)).Sees other id taken := by
  have htrace : (w.setTree place ((w.tree place).act a)).trace = w.trace ++ [] := by
    rw [setTree_trace, List.append_nil]
  have htree := tree_setTree w place other ((w.tree place).act a)
  by_cases hplace : other = place
  · subst hplace
    have hid : n ≠ id := fun heq => hne ⟨rfl, heq.symm⟩
    rw [if_pos rfl] at htree
    have hgiven : (w.tree other).given id a = [] := by
      rcases ha with rfl | rfl
      · exact if_neg hid
      · rfl
    have hkept : a ≠ .unwatch id := by
      rcases ha with rfl | rfl
      · exact fun heq => by cases heq
      · simpa using hid
    have hacted := h.act hkept htree htrace fun path => by rcases ha with rfl | rfl <;> rfl
    rwa [hgiven, List.append_nil] at hacted
  · rw [if_neg hplace] at htree
    exact h.tends (.same htree (htrace.trans (List.append_nil _)))

/-- A loop that takes a change has it from its watch. -/
theorem Sees.take {w : World} {place : Place} {id : Nat} {taken : List Json} {v : Json} {t : Tree}
    (h : w.Sees place id taken) (hpoll : (w.tree place).pollOne id = some (v, t)) :
    t = (w.tree place).act (.pollOne id) ∧ (w.setTree place t).Sees place id (taken ++ [v]) := by
  have ht : t = (w.tree place).act (.pollOne id) := by simp [Tree.act, hpoll]
  have htree := (tree_setTree w place place t).trans (if_pos rfl)
  have htrace : (w.setTree place t).trace = w.trace ++ [] := by
    rw [setTree_trace, List.append_nil]
  have hacted :=
    h.act (a := .pollOne id) (fun h => by cases h) (htree.trans ht) htrace fun path => rfl
  have hgiven : (w.tree place).given id (.pollOne id) = [v] := by simp [Tree.given, hpoll]
  rw [hgiven] at hacted
  exact ⟨ht, hacted⟩

end World

end Patchbay
