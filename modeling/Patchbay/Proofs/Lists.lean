import Mathlib.Data.List.Basic

/-! Lists and their lookups, as the proofs about the engine need them beside the library's
lemmas. -/

namespace Patchbay

variable {α β : Type} {l : List α}

/-! ### Partial maps along a list -/

theorem mapM_map_of_forall {f : β → Option α} {g : α → β} (h : ∀ a ∈ l, f (g a) = some a) :
    (l.map g).mapM f = some l := by
  induction l with
  | nil => rfl
  | cons a rest ih =>
    obtain ⟨ha, hrest⟩ := List.forall_mem_cons.1 h
    simp [ha, ih hrest]

theorem exists_of_mem_mapM {f : β → Option α} {items : List β} {a : α} (h : items.mapM f = some l)
    (ha : a ∈ l) : ∃ b ∈ items, f b = some a := by
  induction items generalizing l with
  | nil =>
    cases h
    cases ha
  | cons b rest ih =>
    rw [List.mapM_cons] at h
    obtain ⟨first, hfirst, h⟩ := Option.bind_eq_some_iff.1 h
    obtain ⟨others, hothers, h⟩ := Option.bind_eq_some_iff.1 h
    cases h
    rcases List.mem_cons.1 ha with rfl | hrest
    · exact ⟨b, List.mem_cons_self, hfirst⟩
    · obtain ⟨b', hb', hmade⟩ := ih hothers hrest
      exact ⟨b', List.mem_cons_of_mem _ hb', hmade⟩

/-! ### Tables -/

section

variable [BEq α] [LawfulBEq α] {entries : List (α × β)} {a : α} {b : β}

theorem mem_of_lookup (h : entries.lookup a = some b) : (a, b) ∈ entries := by
  obtain ⟨before, after, rfl, -⟩ := List.lookup_eq_some_iff.1 h
  simp

theorem lookup_of_mem (h : (entries.map (·.1)).Nodup) (hmem : (a, b) ∈ entries) :
    entries.lookup a = some b := by
  induction entries with
  | nil => cases hmem
  | cons first rest ih =>
    obtain ⟨a', b'⟩ := first
    rw [List.map_cons, List.nodup_cons] at h
    rcases List.mem_cons.1 hmem with heq | hrest
    · obtain ⟨rfl, rfl⟩ := Prod.mk.inj heq
      simp
    · have hne : (a == a') = false := by
        refine beq_eq_false_iff_ne.2 ?_
        rintro rfl
        exact h.1 (List.mem_map_of_mem (f := (·.1)) hrest)
      rw [List.lookup_cons, hne]
      exact ih h.2 hrest

end

/-! ### One place of a list -/

theorem modify_eq_of_getElem? {i : Nat} {a : α} {f g : α → α} (h : l[i]? = some a)
    (hfg : f a = g a) :
    l.modify i f = l.modify i g := by
  refine List.ext_getElem? fun j => ?_
  rw [List.getElem?_modify, List.getElem?_modify]
  by_cases hij : i = j
  · subst hij
    simp [h, hfg]
  · simp [hij]

theorem set_eq_modify_of_getElem? {i : Nat} {a b : α} {f : α → α} (h : l[i]? = some a)
    (hf : f a = b) :
    l.set i b = l.modify i f :=
  (List.set_eq_modify b i l).trans (modify_eq_of_getElem? h hf.symm)

/-! ### Parts of a list -/

theorem any_filter_of_imp {p q : α → Bool} (h : ∀ a ∈ l, q a = true → p a = true) :
    (l.filter p).any q = l.any q := by
  refine Bool.eq_iff_iff.2 ?_
  simp only [List.any_eq_true, List.mem_filter]
  exact ⟨fun ⟨a, ⟨ha, _⟩, hq⟩ => ⟨a, ha, hq⟩, fun ⟨a, ha, hq⟩ => ⟨a, ⟨ha, h a ha hq⟩, hq⟩⟩

theorem sublist_of_perm_append {a rest : List α} (h : l.Perm (a ++ rest)) (hlength : l.length ≤ 1) :
    a.Sublist l := by
  cases l with
  | nil =>
    obtain ⟨rfl, -⟩ := List.append_eq_nil_iff.1 (List.nil_perm.1 h)
    exact List.Sublist.refl _
  | cons p tail =>
    obtain rfl : tail = [] := List.eq_nil_of_length_eq_zero (by simpa using hlength)
    exact List.singleton_perm.1 h ▸ List.sublist_append_left a rest

end Patchbay
