import Patchbay.Proofs.Json.Equality
import Patchbay.Proofs.State.Path
import Patchbay.State.Tree

/-!
What a watch delivers. Between two writes every watch remembers a value that equals the
one at its path, because a write on an unrelated path cannot touch it. So the values
queued for a watch are the present values at its path that differ from the ones before.
-/

namespace Patchbay

/-- Of a value and its later readings, the present ones that differ from the one before. -/
def changes : Option Json → List (Option Json) → List Json
  | _, [] => []
  | before, now :: later =>
    (if Json.sameOption now before then [] else now.toList) ++ changes now later

theorem changes_append (before : Option Json) (first later : List (Option Json)) :
    changes before (first ++ later) =
      changes before first ++ changes (first.getLast?.getD before) later := by
  induction first generalizing before with
  | nil => simp [changes]
  | cons now first ih =>
    have hlast : (now :: first).getLast?.getD before = first.getLast?.getD now := by
      cases first <;> simp [List.getLast?_cons]
    rw [List.cons_append, changes, ih, changes, hlast, List.append_assoc]

namespace Watch

/-- The watch remembers a value that equals the one at its path. -/
def Current (w : Watch) (root : Json) : Prop := Json.sameOption w.last (root.at? w.path) = true

@[simp] theorem observe_id (w : Watch) (place : Path) (root : Json) :
    (w.observe place root).id = w.id := by
  simp only [observe]
  split
  · rfl
  · split <;> rfl

@[simp] theorem observe_path (w : Watch) (place : Path) (root : Json) :
    (w.observe place root).path = w.path := by
  simp only [observe]
  split
  · rfl
  · split <;> rfl

/-- After a write, a watch that was current is so again and has queued the change. -/
theorem observe_put {w : Watch} {root : Json} (hcurrent : w.Current root) (place : Path)
    (v : Json) :
    (w.observe place (Json.put v place root)).Current (Json.put v place root) ∧
      (w.observe place (Json.put v place root)).pending =
        w.pending ++ changes (root.at? w.path) [(Json.put v place root).at? w.path] := by
  have hsame := Json.sameOption_congr hcurrent ((Json.put v place root).at? w.path)
  by_cases hrelated : Path.related w.path place = true
  · by_cases hequal : Json.sameOption ((Json.put v place root).at? w.path) w.last = true
    · simpa [observe, hrelated, hequal, changes, ← hsame, Current] using Json.sameOption_symm hequal
    · simpa [observe, hrelated, hequal, changes, ← hsame, Current] using Json.sameOption_refl _
  · rw [Bool.not_eq_true] at hrelated
    have hplace := Json.at?_put_of_not_related v hrelated root
    have hobserve : w.observe place (Json.put v place root) = w := by simp [observe, hrelated]
    rw [hobserve, Current, hplace]
    exact ⟨hcurrent, by simp [changes, Json.sameOption_refl]⟩

end Watch

namespace Tree

/-- What is done to a tree: writes, and watches made, given up and polled. -/
inductive Action where
  | set (path : String) (v : Json)
  | merge (path : String) (fields : Fields Json)
  | watch (path : String)
  | unwatch (id : Nat)
  | poll (id : Nat)
  | pollOne (id : Nat)

def act (t : Tree) : Action → Tree
  | .set path v => t.set path v
  | .merge path fields => t.merge path fields
  | .watch path => (t.watch path).1
  | .unwatch id => t.unwatch id
  | .poll id => (t.poll id).2
  | .pollOne id => ((t.pollOne id).map (·.2)).getD t

def run (t : Tree) (actions : List Action) : Tree := actions.foldl act t

/-- What an action hands to the holder of a watch. -/
def given (t : Tree) (id : Nat) : Action → List Json
  | .poll n => if n = id then (t.poll n).1 else []
  | .pollOne n => if n = id then ((t.pollOne n).map (·.1)).toList else []
  | _ => []

/-- What a watch delivers in a run. -/
def delivered (t : Tree) (id : Nat) : List Action → List Json
  | [] => []
  | a :: rest => t.given id a ++ (t.act a).delivered id rest

/-- The value at a path after an action, if the action was a write. -/
def reading (t : Tree) (path : String) : Action → List (Option Json)
  | .set p v => [(t.set p v).get? path]
  | .merge p fields => [(t.merge p fields).get? path]
  | _ => []

/-- The values at a path after each write of a run. -/
def readings (t : Tree) (path : String) : List Action → List (Option Json)
  | [] => []
  | a :: rest => t.reading path a ++ (t.act a).readings path rest

/-- Every watch has a number that was given out. -/
def Numbered (t : Tree) : Prop := ∀ w ∈ t.watches, w.id ≤ t.created

/-- The watch of that number, while it lives. -/
def watch? (t : Tree) (id : Nat) : Option Watch := t.watches.find? (·.id == id)

/-- The watch of that number is there, on that path, and remembers the value at it. -/
def Follows (t : Tree) (id : Nat) (path : String) : Prop :=
  ∃ w, t.watch? id = some w ∧ w.path = Path.ofString path ∧ w.Current t.root

theorem pending_of_watch? {t : Tree} {id : Nat} {w : Watch} (h : t.watch? id = some w) :
    t.pending id = w.pending := by
  unfold watch? at h
  simp [pending, h]

theorem watch?_map (t : Tree) {f : Watch → Watch} (hf : ∀ w, (f w).id = w.id) (root : Json)
    (id : Nat) :
    watch? { t with root, watches := t.watches.map f } id = (t.watch? id).map f := by
  unfold watch?
  rw [List.find?_map]
  congr 2
  funext w
  simp [hf w]

theorem watch?_set (t : Tree) (path : String) (v : Json) (id : Nat) :
    (t.set path v).watch? id =
      (t.watch? id).map fun w => w.observe (.ofString path) (t.set path v).root :=
  watch?_map t (fun _ => Watch.observe_id ..) _ id

theorem watch?_watch (t : Tree) (path : String) (id : Nat) :
    (t.watch path).1.watch? id = ((t.watch? id).or
      (if t.created + 1 = id then
        some ⟨t.created + 1, .ofString path, t.root.at? (.ofString path), []⟩ else none)) := by
  unfold watch? watch
  rw [List.find?_append]
  congr 1
  by_cases h : t.created + 1 = id <;> simp [h]

theorem watch?_unwatch (t : Tree) {n id : Nat} (h : n ≠ id) :
    (t.unwatch n).watch? id = t.watch? id := by
  unfold watch? unwatch
  rw [List.find?_filter]
  congr 1
  funext w
  by_cases hw : w.id = id
  · simp [hw, Ne.symm h]
  · simp [hw]

/-- Replacing watches one by one, under their numbers, keeps the numbering. -/
theorem numbered_map {t : Tree} (h : t.Numbered) {f : Watch → Watch} (hf : ∀ w, (f w).id = w.id)
    (root : Json) : Numbered { t with root, watches := t.watches.map f } := by
  intro w hw
  obtain ⟨old, hold, rfl⟩ := List.mem_map.1 hw
  exact (hf old).symm ▸ h old hold

theorem numbered_set {t : Tree} (h : t.Numbered) (path : String) (v : Json) :
    (t.set path v).Numbered :=
  numbered_map h (fun _ => Watch.observe_id ..) _

theorem numbered_watch {t : Tree} (h : t.Numbered) (path : String) :
    (t.watch path).1.Numbered := by
  intro w hw
  rcases List.mem_append.1 hw with hw | hw
  · exact Nat.le_succ_of_le (h w hw)
  · rw [List.mem_singleton.1 hw]
    exact Nat.le_refl _

private theorem id_ite (c : Prop) [Decidable c] (w : Watch) (pending : List Json) :
    (if c then { w with pending } else w).id = w.id := by
  split <;> rfl

theorem numbered_act {t : Tree} (h : t.Numbered) (a : Action) : (t.act a).Numbered := by
  cases a with
  | set path v => exact numbered_set h path v
  | merge path fields => exact numbered_set h path _
  | watch path => exact numbered_watch h path
  | unwatch id => exact fun w hw => h w (List.mem_filter.1 hw).1
  | poll id => exact numbered_map h (fun w => id_ite _ w _) t.root
  | pollOne id =>
    simp only [act, pollOne]
    cases t.pending id with
    | nil => exact h
    | cons v rest => exact numbered_map h (fun w => id_ite _ w _) t.root

theorem numbered_run {t : Tree} (h : t.Numbered) (actions : List Action) :
    (t.run actions).Numbered := by
  induction actions generalizing t with
  | nil => exact h
  | cons a rest ih => exact ih (numbered_act h a)

/-! One action -/

/-- A new watch is current and has nothing queued. -/
theorem follows_watch {t : Tree} (h : t.Numbered) (path : String) :
    (t.watch path).1.Follows (t.watch path).2 path ∧
      (t.watch path).1.pending (t.watch path).2 = [] := by
  have hnew : t.watch? (t.created + 1) = none := by
    refine List.find?_eq_none.2 fun w hw => ?_
    have := h w hw
    simp only [beq_iff_eq]
    omega
  have hfound : (t.watch path).1.watch? (t.watch path).2 =
      some ⟨t.created + 1, .ofString path, t.root.at? (.ofString path), []⟩ := by
    rw [watch?_watch]
    simp [watch, hnew]
  exact ⟨⟨_, hfound, rfl, Json.sameOption_refl _⟩, pending_of_watch? hfound⟩

theorem follows_set {t : Tree} {id : Nat} {path : String} (h : t.Follows id path) (p : String)
    (v : Json) :
    (t.set p v).Follows id path ∧
      (t.set p v).pending id = t.pending id ++ changes (t.get? path) [(t.set p v).get? path] := by
  obtain ⟨w, hfound, hpath, hcurrent⟩ := h
  have hfound' := watch?_set t p v id
  rw [hfound, Option.map_some] at hfound'
  obtain ⟨hcurrent', hpending⟩ := Watch.observe_put hcurrent (Path.ofString p) v
  refine ⟨⟨_, hfound', by simpa using hpath, hcurrent'⟩, ?_⟩
  rw [pending_of_watch? hfound, pending_of_watch? hfound', get?, get?, ← hpath]
  exact hpending

/-- Taking queued changes keeps every watch current. -/
theorem follows_take {t : Tree} {id : Nat} {path : String} (h : t.Follows id path) (n : Nat)
    (rest : List Json) :
    let taken := { t with
      watches := t.watches.map fun w : Watch => if w.id = n then { w with pending := rest } else w }
    taken.Follows id path ∧ taken.pending id = if n = id then rest else t.pending id := by
  intro taken
  obtain ⟨w, hfound, hpath, hcurrent⟩ := h
  have hid : w.id = id := by simpa using List.find?_some hfound
  have hfound' : taken.watch? id = some (if w.id = n then { w with pending := rest } else w) := by
    rw [watch?_map t (fun w => id_ite _ w _), hfound, Option.map_some]
  refine ⟨⟨_, hfound', ?_, ?_⟩, ?_⟩
  · split <;> exact hpath
  · split <;> exact hcurrent
  · rw [pending_of_watch? hfound', pending_of_watch? hfound, hid]
    by_cases hn : n = id
    · simp [hn]
    · simp [hn, Ne.symm hn]

/-- An action other than giving up the watch keeps it current, and what it hands out or
queues is the change of its value. -/
theorem follows_act {t : Tree} {id : Nat} {path : String} (h : t.Follows id path) {a : Action}
    (ha : a ≠ .unwatch id) :
    (t.act a).Follows id path ∧
      t.given id a ++ (t.act a).pending id =
        t.pending id ++ changes (t.get? path) (t.reading path a) := by
  have ⟨w, hfound, hpath, hcurrent⟩ := h
  cases a with
  | set p v => exact follows_set h p v
  | merge p fields => exact follows_set h p _
  | watch p =>
    have hfound' : (t.act (.watch p)).watch? id = some w := by
      rw [act, watch?_watch, hfound, Option.some_or]
    refine ⟨⟨w, hfound', hpath, hcurrent⟩, ?_⟩
    rw [pending_of_watch? hfound', pending_of_watch? hfound]
    simp [given, reading, changes]
  | unwatch n =>
    have hne : n ≠ id := fun heq => ha (by rw [heq])
    have hfound' : (t.act (.unwatch n)).watch? id = some w := by
      rw [act, watch?_unwatch t hne, hfound]
    refine ⟨⟨w, hfound', hpath, hcurrent⟩, ?_⟩
    rw [pending_of_watch? hfound', pending_of_watch? hfound]
    simp [given, reading, changes]
  | poll n =>
    obtain ⟨hfollows, hpending⟩ := follows_take h n []
    refine ⟨hfollows, ?_⟩
    change (if n = id then t.pending n else []) ++ _ = _
    rw [act, poll, hpending]
    by_cases hn : n = id <;> simp [hn, reading, changes]
  | pollOne n =>
    cases hqueue : t.pending n with
    | nil =>
      have hact : t.act (.pollOne n) = t := by simp [act, pollOne, hqueue]
      rw [hact]
      exact ⟨h, by simp [given, pollOne, hqueue, reading, changes]⟩
    | cons v rest =>
      obtain ⟨hfollows, hpending⟩ := follows_take h n rest
      have hact : t.act (.pollOne n) = { t with watches := t.watches.map fun w =>
          if w.id = n then { w with pending := rest } else w } := by
        simp [act, pollOne, hqueue]
      rw [hact]
      refine ⟨hfollows, ?_⟩
      rw [hpending]
      by_cases hn : n = id
      · subst hn
        simp [given, pollOne, hqueue, reading, changes]
      · simp [given, hn, reading, changes]

/-! A run -/

theorem get?_act_of_reading {t : Tree} {path : String} {a : Action} :
    (t.reading path a).getLast?.getD (t.get? path) = (t.act a).get? path := by
  cases a with
  | pollOne n =>
    cases hqueue : t.pending n <;> simp [reading, act, pollOne, hqueue, get?]
  | _ => rfl

/-- What a run delivers and leaves queued are the changes since the queue was last looked at. -/
theorem follows_run {t : Tree} {id : Nat} {path : String} (h : t.Follows id path)
    {actions : List Action} (hkept : .unwatch id ∉ actions) :
    t.delivered id actions ++ (t.run actions).pending id =
      t.pending id ++ changes (t.get? path) (t.readings path actions) := by
  induction actions generalizing t with
  | nil => simp [delivered, run, readings, changes]
  | cons a rest ih =>
    obtain ⟨hfollows, hact⟩ := follows_act h (a := a) fun heq => hkept (heq ▸ List.mem_cons_self)
    have hrest := ih hfollows fun hmem => hkept (List.mem_cons_of_mem _ hmem)
    calc t.given id a ++ (t.act a).delivered id rest ++ ((t.act a).run rest).pending id
        = t.given id a ++ ((t.act a).pending id ++
            changes ((t.act a).get? path) ((t.act a).readings path rest)) := by
          rw [List.append_assoc, hrest]
      _ = t.pending id ++ (changes (t.get? path) (t.reading path a) ++
            changes ((t.act a).get? path) ((t.act a).readings path rest)) := by
          rw [← List.append_assoc, hact, List.append_assoc]
      _ = t.pending id ++ changes (t.get? path) (t.readings path (a :: rest)) := by
          rw [readings, changes_append, get?_act_of_reading]

theorem delivered_append (t : Tree) (id : Nat) (first later : List Action) :
    t.delivered id (first ++ later) = t.delivered id first ++ (t.run first).delivered id later := by
  induction first generalizing t with
  | nil => rfl
  | cons a rest ih => simp [delivered, ih, run]

/-- A watch delivers exactly the changes of the value at its path: at any moment what it has
delivered and what is queued are the present values that differed from the one before, and
polling then hands out the rest. -/
theorem watch_delivers_changes (root : Json) (earlier later : List Action) (path : String)
    {t : Tree} {id : Nat} (hwatch : ((ofJson root).run earlier).watch path = (t, id))
    (hkept : .unwatch id ∉ later) :
    t.delivered id later ++ (t.run later).pending id =
        changes (t.get? path) (t.readings path later) ∧
      t.delivered id (later ++ [.poll id]) = changes (t.get? path) (t.readings path later) := by
  have hnumbered : (ofJson root).Numbered := fun w hw => absurd hw List.not_mem_nil
  obtain ⟨hfollows, hpending⟩ := follows_watch (numbered_run hnumbered earlier) path
  rw [hwatch] at hfollows hpending
  have hrun := follows_run hfollows hkept
  rw [hpending, List.nil_append] at hrun
  refine ⟨hrun, ?_⟩
  rw [delivered_append, ← hrun]
  simp [delivered, given, poll]

/-- A watch below a scalar: the scalar becomes an object, the value is written again, goes with
the root and comes back, while another watch is polled and given up. -/
theorem watch_delivers_changes_below_scalar :
    let t := (((ofJson (.obj [("a", .int 1)])).run [.watch "a"]).watch "a.b").1
    let later : List Action := [.set "a/b" (.int 2), .poll 1, .merge "a" [("b", .int 2)],
      .unwatch 1, .set "" .null, .set "a.b" (.int 2)]
    t.delivered 2 (later ++ [.poll 2]) = [.int 2, .int 2] :=
  (watch_delivers_changes (.obj [("a", .int 1)]) [.watch "a"] _ "a.b" rfl
    (by simp [run, act, watch, ofJson])).2.trans rfl

end Tree

end Patchbay
