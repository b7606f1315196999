import Patchbay.Settings.Resolve

/-!
What a connect request resolves to. A named socket is the first entry of its name, so one that is
configured is the same entry whatever list is given at run time; an unnamed socket is known by its
address; and a namespace is never empty.
-/

namespace Patchbay

namespace Resolved

variable {s : Settings} {opts : ConnectOptions} {entry : SocketEntry}

/-! Merged lists -/

/-- A named entry that is kept is the first of its name. -/
theorem find?_of_mem_mergeFrom {entries : List SocketEntry} {seen : List String}
    (h : entry ∈ (mergeFrom seen entries).1) (hname : entry.name.isEmpty = false) :
    entry.name ∉ seen ∧ entries.find? (·.name == entry.name) = some entry := by
  induction entries generalizing seen with
  | nil => cases h
  | cons first rest ih =>
    have hlater (hne : first.name ≠ entry.name) :
        (first :: rest).find? (·.name == entry.name) = rest.find? (·.name == entry.name) := by
      simp [hne]
    simp only [mergeFrom] at h
    split at h
    · rename_i hempty
      have hne : first.name ≠ entry.name := by
        intro heq
        rw [heq, hname] at hempty
        cases hempty
      rcases List.mem_cons.1 h with rfl | h
      · exact absurd rfl hne
      · rw [hlater hne]
        exact ih h
    · split at h
      · rename_i hseen
        obtain ⟨hnew, hfind⟩ := ih h
        have hne : first.name ≠ entry.name := by
          intro heq
          exact hnew (heq ▸ List.contains_iff_mem.1 hseen)
        rw [hlater hne]
        exact ⟨hnew, hfind⟩
      · rename_i hseen
        rcases List.mem_cons.1 h with rfl | h
        · exact ⟨fun hmem => hseen (List.contains_iff_mem.2 hmem), by simp⟩
        · obtain ⟨hnew, hfind⟩ := ih h
          obtain ⟨hne, hnew⟩ := not_or.1 (fun hor => hnew (List.mem_cons.2 hor))
          rw [hlater (Ne.symm hne)]
          exact ⟨hnew, hfind⟩

theorem mem_of_select {sockets : List SocketEntry} {name : Option String}
    (h : select sockets name = .ok entry) : entry ∈ sockets := by
  unfold select at h
  split at h
  · cases h
  · rename_i first rest
    split at h
    · split at h
      · rename_i hfind
        cases h
        exact List.mem_of_find?_eq_some hfind
      · cases h
    · cases h
      cases hfind : (first :: rest).find? (·.isDefault) with
      | none => simp
      | some found =>
        rw [Option.getD_some]
        exact List.mem_of_find?_eq_some hfind

/-- The entry a request with these options chooses. -/
def chosen (s : Settings) (runtime : List SocketEntry) (opts : ConnectOptions) :
    Except ConfigError SocketEntry :=
  select (mergeSockets s.sockets runtime (opts.warnings.getD s.warnings)).1 opts.name

theorem ofRequest_eq (s : Settings) (runtime : List SocketEntry) (opts : ConnectOptions) :
    (ofRequest s runtime opts).1 = (chosen s runtime opts).map (ofEntry s opts) := rfl

/-- A name of the configured list stands for one entry, whatever is given at run time. -/
theorem eq_of_configured {runtime runtime' : List SocketEntry} {opts' : ConnectOptions}
    {entry' e : SocketEntry} (h : chosen s runtime opts = .ok entry)
    (h' : chosen s runtime' opts' = .ok entry') (hname : entry.name = entry'.name)
    (hnamed : entry.name.isEmpty = false) (he : e ∈ s.sockets) (hconfigured : e.name = entry.name) :
    entry = entry' := by
  obtain ⟨found, hfound⟩ : ∃ found, s.sockets.find? (·.name == entry.name) = some found := by
    refine Option.isSome_iff_exists.1 (List.find?_isSome.2 ⟨e, he, ?_⟩)
    simp [hconfigured]
  have hfirst {runtime : List SocketEntry} {opts : ConnectOptions} {entry₁ : SocketEntry}
      (h : chosen s runtime opts = .ok entry₁) (heq : entry₁.name = entry.name) :
      some entry₁ = some found := by
    have hmem : entry₁ ∈ (mergeFrom [] (s.sockets ++ runtime)).1 := mem_of_select h
    rw [← (find?_of_mem_mergeFrom hmem (heq ▸ hnamed)).2, heq, List.find?_append, hfound]
    rfl
  exact Option.some.inj ((hfirst h rfl).trans (hfirst h' hname.symm).symm)

/-! One entry -/

theorem getD_nonempty (text : Option String) {otherwise : String} (h : otherwise.isEmpty = false) :
    ((nonempty text).getD otherwise).isEmpty = false := by
  cases text with
  | none => exact h
  | some text =>
    by_cases hempty : text.isEmpty = true
    · simpa [nonempty, Option.filter, hempty] using h
    · simp [nonempty, Option.filter, hempty]

theorem namespaceName_ofEntry : (ofEntry s opts entry).namespaceName.isEmpty = false :=
  getD_nonempty opts.channel rfl

theorem scope_ofEntry : (ofEntry s opts entry).scope =
    (ofEntry s opts entry).label ++ (ofEntry s opts entry).namespaceName := rfl

/-- An unnamed socket is known by its address. -/
theorem label_of_unnamed (h : entry.name.isEmpty = true) :
    (ofEntry s opts entry).label = (ofEntry s opts entry).url := by
  cases hurl : entry.url with
  | none => simp [ofEntry, SocketEntry.label, h, hurl]
  | some url =>
    by_cases hempty : url.isEmpty = true
    · simp [ofEntry, SocketEntry.label, h, hurl, hempty]
    · simp [ofEntry, SocketEntry.label, h, hurl, hempty, nonempty, Option.filter]

theorem url_ofEntry_congr {opts' : ConnectOptions} {entry' : SocketEntry}
    (h : entry.url = entry'.url) : (ofEntry s opts entry).url = (ofEntry s opts' entry').url := by
  simp only [ofEntry, h]

end Resolved

end Patchbay
