import Patchbay.Proofs.Settings.Resolve

/-!
Which entry a request stands for. Of the merged lists an entry is left out if an earlier one has its
name, and selection from what is left is selection from the whole lists, but for the default flags
of what was left out.
-/

namespace Patchbay

namespace Resolved

variable {entry : SocketEntry} {seen : List String} {before entries : List SocketEntry}
  {name : String}

/-! ### What is kept -/

/-- One of the entries before it has its name. -/
def repeats (before : List SocketEntry) (entry : SocketEntry) : Bool :=
  !entry.name.isEmpty && before.any (·.name == entry.name)

/-- The entries that pass, each judged by those before it. -/
def filterFrom (keep : List SocketEntry → SocketEntry → Bool) (before entries : List SocketEntry) :
    List SocketEntry :=
  (entries.zipIdx.filter fun (entry, i) => keep (before ++ entries.take i) entry).map (·.1)

theorem filterFrom_cons (keep : List SocketEntry → SocketEntry → Bool) (before : List SocketEntry)
    (entry : SocketEntry) (rest : List SocketEntry) :
    filterFrom keep before (entry :: rest) =
      (if keep before entry then [entry] else []) ++ filterFrom keep (before ++ [entry]) rest := by
  have hlater : (rest.zipIdx 1).filter (fun (e, i) => keep (before ++ (entry :: rest).take i) e) =
      (rest.zipIdx.filter fun (e, i) => keep (before ++ [entry] ++ rest.take i) e).map
        fun (e, i) => (e, i + 1) := by
    rw [List.zipIdx_succ, List.filter_map]
    simp [Function.comp_def]
  unfold filterFrom
  rw [List.zipIdx_cons, List.filter_cons, hlater]
  cases hkeep : keep before entry <;> simp [hkeep, Function.comp_def]

/-- The names that the loop has seen are those of the entries before. -/
def Recalls (seen : List String) (before : List SocketEntry) : Prop :=
  ∀ name : String, name.isEmpty = false → (name ∈ seen ↔ ∃ e ∈ before, e.name = name)

theorem Recalls.repeats_iff (h : Recalls seen before) (hnamed : entry.name.isEmpty = false) :
    repeats before entry = true ↔ entry.name ∈ seen := by
  simp [repeats, hnamed, h entry.name hnamed]

theorem Recalls.unnamed (h : Recalls seen before) (hempty : entry.name.isEmpty = true) :
    Recalls seen (before ++ [entry]) := by
  intro name hname
  have hne : entry.name ≠ name := by
    rintro rfl
    simp [hempty] at hname
  simp only [List.mem_append, List.mem_singleton, or_and_right, exists_or, exists_eq_left,
    hne, or_false]
  exact h name hname

theorem Recalls.again (h : Recalls seen before) (hseen : entry.name ∈ seen) :
    Recalls seen (before ++ [entry]) := by
  intro name hname
  simp only [List.mem_append, List.mem_singleton, or_and_right, exists_or, exists_eq_left]
  rw [← h name hname, or_iff_left_of_imp]
  rintro rfl
  exact hseen

theorem Recalls.named (h : Recalls seen before) :
    Recalls (entry.name :: seen) (before ++ [entry]) := by
  intro name hname
  simp only [List.mem_append, List.mem_singleton, or_and_right, exists_or, exists_eq_left]
  rw [← h name hname, List.mem_cons, or_comm, eq_comm]

/-- The loop keeps what repeats nothing, and names what it drops. -/
theorem mergeFrom_eq (h : Recalls seen before) (entries : List SocketEntry) :
    mergeFrom seen entries = (filterFrom (fun before entry => !repeats before entry) before entries,
      (filterFrom repeats before entries).map (·.name)) := by
  induction entries generalizing seen before with
  | nil => rfl
  | cons entry rest ih =>
    rw [filterFrom_cons, filterFrom_cons]
    unfold mergeFrom
    split
    · rename_i hempty
      have hfresh : repeats before entry = false := by simp [repeats, hempty]
      simp [hfresh, ih (h.unnamed hempty)]
    · rename_i hnamed
      have hrepeats := h.repeats_iff (eq_false_of_ne_true hnamed)
      split
      · rename_i hseen
        have hold : entry.name ∈ seen := List.contains_iff_mem.1 hseen
        simp [hrepeats.2 hold, ih (h.again hold)]
      · rename_i hnew
        have hfresh : repeats before entry = false :=
          eq_false_of_ne_true fun hold => hnew (List.contains_iff_mem.2 (hrepeats.1 hold))
        simp [hfresh, ih h.named]

/-- What was kept is kept again. -/
theorem mergeFrom_mergeFrom (seen : List String) (entries : List SocketEntry) :
    mergeFrom seen (mergeFrom seen entries).1 = ((mergeFrom seen entries).1, []) := by
  induction entries generalizing seen with
  | nil => rfl
  | cons entry rest ih =>
    rw [mergeFrom]
    split
    · rename_i hempty
      simp [mergeFrom, hempty, ih]
    · rename_i hnamed
      split
      · exact ih seen
      · rename_i hnew
        have hfresh : entry.name ∉ seen := fun hmem => hnew (List.contains_iff_mem.2 hmem)
        simp [mergeFrom, hnamed, hfresh, ih]

/-! ### Selection -/

theorem head?_mergeFrom (entries : List SocketEntry) :
    (mergeFrom [] entries).1.head? = entries.head? := by
  cases entries with
  | nil => rfl
  | cons entry rest =>
    unfold mergeFrom
    split <;> rfl

/-- The first entry of a name that was not seen is kept, and so is the first that has none. -/
theorem find?_mergeFrom (hname : name.isEmpty = true ∨ name ∉ seen) (entries : List SocketEntry) :
    (mergeFrom seen entries).1.find? (·.name == name) = entries.find? (·.name == name) := by
  induction entries generalizing seen with
  | nil => rfl
  | cons entry rest ih =>
    unfold mergeFrom
    split
    · rw [List.find?_cons, List.find?_cons, ih hname]
    · rename_i hnamed
      split
      · rename_i hseen
        have hne : entry.name ≠ name := by
          rintro rfl
          exact hname.elim hnamed (· (List.contains_iff_mem.1 hseen))
        rw [List.find?_cons_of_neg (by simpa using hne)]
        exact ih hname
      · rw [List.find?_cons, List.find?_cons]
        by_cases heq : entry.name = name
        · simp [heq]
        · have hstill : name.isEmpty = true ∨ name ∉ entry.name :: seen :=
            hname.imp_right fun hnew hmem => hnew (List.mem_of_ne_of_mem (Ne.symm heq) hmem)
          rw [ih hstill]

theorem select_some (sockets : List SocketEntry) (name : String) : select sockets (some name) =
    match sockets.find? (·.name == name) with
    | some entry => .ok entry
    | none => .error (if sockets.head? = none then .noSockets else .socketNotFound name) := by
  cases sockets with
  | nil => rfl
  | cons first rest =>
    unfold select
    dsimp only
    cases (first :: rest).find? (·.name == name) <;> rfl

theorem select_none (sockets : List SocketEntry) : select sockets none =
    match sockets.head? with
    | some first => .ok ((sockets.find? (·.isDefault)).getD first)
    | none => .error .noSockets := by
  cases sockets <;> rfl

variable (s : Settings) (runtime : List SocketEntry) (opts : ConnectOptions)

/-- The configured entries and those given at run time, without what is left out. -/
def retained : List SocketEntry := (mergeFrom [] (s.sockets ++ runtime)).1

/-- A name is looked up among all entries. -/
theorem ofRequest_of_named {name : String} (hname : opts.name = some name) :
    (ofRequest s runtime opts).1 = match (s.sockets ++ runtime).find? (·.name == name) with
      | some entry => .ok (ofEntry s opts entry)
      | none =>
        .error (if s.sockets ++ runtime = [] then .noSockets else .socketNotFound name) := by
  have hchosen : chosen s runtime opts = select (retained s runtime) (some name) := by
    rw [← hname]
    rfl
  rw [ofRequest_eq, hchosen, select_some, retained, head?_mergeFrom,
    find?_mergeFrom (.inr List.not_mem_nil)]
  simp only [List.head?_eq_none_iff]
  cases (s.sockets ++ runtime).find? (·.name == name) <;> rfl

theorem ofRequest_of_unnamed (hname : opts.name = none) :
    (ofRequest s runtime opts).1 = match (s.sockets ++ runtime).head? with
      | some first => .ok (ofEntry s opts (((retained s runtime).find? (·.isDefault)).getD first))
      | none => .error .noSockets := by
  have hchosen : chosen s runtime opts = select (retained s runtime) none := by
    rw [← hname]
    rfl
  have hhead : (retained s runtime).head? = (s.sockets ++ runtime).head? := head?_mergeFrom _
  rw [ofRequest_eq, hchosen, select_none, hhead]
  cases (s.sockets ++ runtime).head? <;> rfl

/-- What a request makes of the configured entries and those given at run time. -/
structure Selects (s : Settings) (runtime : List SocketEntry) (opts : ConnectOptions) : Prop where
  /-- Of all entries those are kept that repeat no name of an earlier one. -/
  kept (warnings : Bool) : (mergeSockets s.sockets runtime warnings).1 =
    filterFrom (fun before entry => !repeats before entry) [] (s.sockets ++ runtime)
  warned (warnings : Bool) : (mergeSockets s.sockets runtime warnings).2 =
    if warnings then
      (filterFrom repeats [] (s.sockets ++ runtime)).map (.duplicateSocket ·.name)
    else []
  settled (warnings warnings' : Bool) :
    mergeSockets (mergeSockets s.sockets runtime warnings).1 [] warnings' =
      ((mergeSockets s.sockets runtime warnings).1, [])
  noSockets : (ofRequest s runtime opts).1 = .error .noSockets ↔ s.sockets = [] ∧ runtime = []
  notFound (name : String) : (ofRequest s runtime opts).1 = .error (.socketNotFound name) ↔
    ¬(s.sockets = [] ∧ runtime = []) ∧ opts.name = some name ∧
      ∀ entry ∈ s.sockets ++ runtime, entry.name ≠ name
  named (name : String) (entry : SocketEntry) (hname : opts.name = some name)
    (hfirst : (s.sockets ++ runtime).find? (·.name == name) = some entry) :
    (ofRequest s runtime opts).1 = .ok (ofEntry s opts entry)
  unnamed (first : SocketEntry) (hname : opts.name = none)
    (hfirst : (s.sockets ++ runtime).head? = some first) : (ofRequest s runtime opts).1 =
      .ok (ofEntry s opts (((retained s runtime).find? (·.isDefault)).getD first))

theorem recalls_nil : Recalls [] [] := fun name _ => by simp

/-- What a request is resolved from. The first entry of its name, among all that are given; without
a name the first of those kept that is flagged as the default, or else the first of all. -/
theorem selects : Selects s runtime opts where
  kept warnings := by rw [mergeSockets, mergeFrom_eq recalls_nil]
  warned warnings := by
    rw [mergeSockets, mergeFrom_eq recalls_nil]
    simp only [List.map_map]
    rfl
  settled warnings warnings' := by
    have hagain := mergeFrom_mergeFrom [] (s.sockets ++ runtime)
    simp [mergeSockets, hagain]
  noSockets := by
    rw [← List.append_eq_nil_iff]
    cases hname : opts.name with
    | none =>
      rw [ofRequest_of_unnamed s runtime opts hname, ← List.head?_eq_none_iff]
      cases (s.sockets ++ runtime).head? <;> simp
    | some name =>
      rw [ofRequest_of_named s runtime opts hname]
      by_cases hnil : s.sockets ++ runtime = []
      · simp [hnil]
      · cases (s.sockets ++ runtime).find? (·.name == name) <;> simp [hnil]
  notFound name := by
    rw [← List.append_eq_nil_iff]
    cases hname : opts.name with
    | none =>
      rw [ofRequest_of_unnamed s runtime opts hname]
      cases (s.sockets ++ runtime).head? <;> simp
    | some given =>
      rw [ofRequest_of_named s runtime opts hname]
      cases hfind : (s.sockets ++ runtime).find? (·.name == given) with
      | none =>
        have habsent : given = name → ∀ entry ∈ s.sockets ++ runtime, entry.name ≠ name := by
          rintro rfl entry hentry
          simpa using List.find?_eq_none.1 hfind entry hentry
        by_cases hnil : s.sockets ++ runtime = []
        · simp [hnil]
        · simpa [hnil] using habsent
      | some entry =>
        have hfound : given = name → ∃ entry ∈ s.sockets ++ runtime, entry.name = name := by
          rintro rfl
          exact ⟨entry, List.mem_of_find?_eq_some hfind, by simpa using List.find?_some hfind⟩
        simpa using fun _ => hfound
  named name entry hname hfirst := by rw [ofRequest_of_named s runtime opts hname, hfirst]
  unnamed first hname hfirst := by rw [ofRequest_of_unnamed s runtime opts hname, hfirst]

/-- The default flag of an entry that was left out counts for nothing. -/
example : select
    (mergeSockets [{ name := "a" }, { name := "b" }] [{ name := "b", isDefault := true }] true).1
    none = .ok { name := "a" } := by
  cbv

end Resolved

end Patchbay
