import Patchbay.Proofs.State.WriteLaw

/-!
Defaults. Each is written only where nothing stands; but on its way there it needs objects, and what
is none and stands in that way gives place to one.
-/

namespace Patchbay

/-! ### Gaps in an object -/

namespace Fields

variable {α : Type} {key : String} {fields defaults lower upper a b : Fields α}

theorem get?_eq_none_of_lt (h : ∀ entry ∈ fields, key < entry.1) : fields.get? key = none := by
  cases hget : fields.get? key with
  | none => rfl
  | some v => exact absurd (h _ (mem_of_get? hget)) (String.lt_irrefl key)

theorem get?_eq_none_of_not_mem (h : key ∉ fields.keys) : fields.get? key = none := by
  cases hget : fields.get? key with
  | none => rfl
  | some v => exact absurd (List.mem_map_of_mem (f := Prod.fst) (mem_of_get? hget)) h

/-- Of entries with a name each, the upper ones are read first. -/
theorem get?_overlay_of_nodup (lower : Fields α) (hupper : upper.keys.Nodup) (key : String) :
    (lower.overlay upper).get? key = (upper.get? key).or (lower.get? key) := by
  induction upper generalizing lower with
  | nil => rfl
  | cons head rest ih =>
    obtain ⟨hhead, hrest⟩ := List.nodup_cons.1 hupper
    refine (ih (lower.insert head.1 head.2) hrest).trans ?_
    by_cases hkey : head.1 = key
    · subst hkey
      rw [get?_eq_none_of_not_mem hhead, get?_insert_self, get?, if_pos rfl]
      rfl
    · rw [get?_insert_of_ne (Ne.symm hkey), get?, if_neg hkey]

theorem get?_overlay (lower : Fields α) (hupper : upper.Sorted) (key : String) :
    (lower.overlay upper).get? key = (upper.get? key).or (lower.get? key) :=
  get?_overlay_of_nodup lower hupper.nodup_keys key

/-- Sorted entries are known by what they give for each name. -/
theorem Sorted.ext (ha : a.Sorted) (hb : b.Sorted) (h : ∀ key, a.get? key = b.get? key) :
    a = b := by
  induction a generalizing b with
  | nil =>
    cases b with
    | nil => rfl
    | cons head rest => simpa [get?] using h head.1
  | cons head rest ih =>
    obtain ⟨hhead, hrest⟩ := List.pairwise_cons.1 ha
    cases b with
    | nil => simpa [get?] using h head.1
    | cons head' rest' =>
      obtain ⟨hhead', hrest'⟩ := List.pairwise_cons.1 hb
      have hname : head.1 = head'.1 := by
        have hmem : (head.1, head.2) ∈ head' :: rest' := mem_of_get? (by rw [← h, get?, if_pos rfl])
        have hmem' : (head'.1, head'.2) ∈ head :: rest := mem_of_get? (by rw [h, get?, if_pos rfl])
        rcases List.mem_cons.1 hmem with heq | hbehind
        · exact congrArg Prod.fst heq
        · rcases List.mem_cons.1 hmem' with heq | hbehind'
          · exact (congrArg Prod.fst heq).symm
          · exact absurd (String.lt_trans (hhead' _ hbehind) (hhead _ hbehind'))
              (String.lt_irrefl _)
      have hvalue : head.2 = head'.2 := by
        have hget := h head.1
        rw [get?, if_pos rfl, get?, if_pos hname.symm] at hget
        exact Option.some.inj hget
      have htail (key : String) : get? key rest = get? key rest' := by
        by_cases hkey : head.1 = key
        · subst hkey
          rw [get?_eq_none_of_lt hhead, hname, get?_eq_none_of_lt hhead']
        · have hget := h key
          rwa [get?, if_neg hkey, get?, if_neg (hname ▸ hkey)] at hget
      rw [Prod.ext hname hvalue, ih hrest hrest' htail]

/-- An entry for a name that has none. -/
def fillGap (fields : Fields α) (entry : String × α) : Fields α :=
  if fields.contains entry.1 then fields else fields.insert entry.1 entry.2

theorem get?_fillGap (fields : Fields α) (entry : String × α) (key : String) :
    (fields.fillGap entry).get? key =
      (fields.get? key).or (if entry.1 = key then some entry.2 else none) := by
  unfold fillGap contains
  by_cases hkey : entry.1 = key
  · subst hkey
    cases hget : fields.get? entry.1 <;> simp [hget]
  · rw [if_neg hkey, Option.or_none]
    split
    · rfl
    · exact get?_insert_of_ne (Ne.symm hkey) ..

theorem sorted_fillGap (h : fields.Sorted) (entry : String × α) :
    (fields.fillGap entry).Sorted := by
  unfold fillGap
  split
  · exact h
  · exact sorted_insert entry.1 entry.2 h

theorem get?_fillGaps (fields defaults : Fields α) (key : String) :
    (defaults.foldl fillGap fields).get? key = (fields.get? key).or (defaults.get? key) := by
  induction defaults generalizing fields with
  | nil => exact (Option.or_none).symm
  | cons entry rest ih =>
    rw [List.foldl_cons, ih, get?_fillGap, Option.or_assoc, get?]
    split <;> rfl

/-- To fill the gaps of some entries is to lay them over the defaults. -/
theorem fillGaps_eq_overlay (hfields : fields.Sorted) (hdefaults : defaults.Sorted) :
    defaults.foldl fillGap fields = defaults.overlay fields := by
  have hsorted : (defaults.foldl fillGap fields).Sorted := by
    clear hdefaults
    induction defaults generalizing fields with
    | nil => exact hfields
    | cons entry rest ih => exact ih (sorted_fillGap hfields entry)
  refine hsorted.ext (sorted_overlay fields hdefaults) fun key => ?_
  rw [get?_fillGaps, get?_overlay defaults hfields]

end Fields

/-! ### Places below a place -/

/-- A path leads on from a place. -/
def Path.Below (place path : Path) : Prop := ∃ key rest, path = place ++ key :: rest

/-- Only an object has anything below it. -/
theorem Json.exists_members_of_below {place path : Path} {root : Json} (hbelow : place.Below path)
    (hheld : (root.at? path).isSome = true) : ∃ members, root.at? place = some (.obj members) := by
  obtain ⟨key, rest, rfl⟩ := hbelow
  rw [at?_append] at hheld
  cases hplace : root.at? place with
  | none => simp [hplace] at hheld
  | some v =>
    cases v with
    | obj members => exact ⟨members, rfl⟩
    | _ => simp [hplace, at?, get?] at hheld

namespace Tree

variable {place : Path} {v : Json} {t : Tree} {slots : List String}

/-- A default changes nothing of what stands at a place, unless its path leads on from there. -/
theorem at?_setDefault_of_not_below (hheld : t.root.at? place = some v) {path : String}
    (hbelow : ¬ place.Below (.ofString path)) (value : Json) :
    (t.setDefault path value).root.at? place = some v := by
  unfold setDefault
  split
  · exact hheld
  · rename_i hfree
    have hnone : t.root.at? (.ofString path) = none := by simpa [contains, get?] using hfree
    have hapart : Path.related place (.ofString path) = false := by
      rw [← Bool.not_eq_true, Path.related_iff]
      rintro (⟨rest, hrest⟩ | ⟨rest, rfl⟩)
      · cases rest with
        | nil =>
          rw [← hrest, List.append_nil, hheld] at hnone
          cases hnone
        | cons key rest => exact hbelow ⟨key, rest, hrest.symm⟩
      · rw [Json.at?_append, hnone] at hheld
        cases hheld
    exact (Json.at?_put_of_not_related value hapart t.root).trans hheld

theorem exists_members_setDefault_of_below {path : String} (hbelow : place.Below (.ofString path))
    (t : Tree) (value : Json) :
    ∃ members, (t.setDefault path value).root.at? place = some (.obj members) :=
  Json.exists_members_of_below hbelow (t.contains_setDefault_self path value)

/-- An object stays one. -/
theorem exists_members_setDefault (hobject : ∃ members, t.root.at? place = some (.obj members))
    (path : String) (value : Json) :
    ∃ members, (t.setDefault path value).root.at? place = some (.obj members) := by
  by_cases hbelow : place.Below (.ofString path)
  · exact exists_members_setDefault_of_below hbelow t value
  · obtain ⟨members, hmembers⟩ := hobject
    exact ⟨members, at?_setDefault_of_not_below hmembers hbelow value⟩

/-- A default for a member of an object fills its gap. -/
theorem at?_setDefault_member {members : Fields Json}
    (hheld : t.root.at? place = some (.obj members))
    {path key : String} (hpath : Path.ofString path = place ++ [key]) (value : Json) :
    (t.setDefault path value).root.at? place = some (.obj (members.fillGap (key, value))) := by
  have hmember : t.get? path = Fields.get? key members := by
    rw [get?, hpath, Json.at?_append, hheld]
    exact Option.bind_fun_some _
  unfold setDefault Fields.fillGap Fields.contains
  rw [contains, hmember]
  split
  · exact hheld
  · have hobject := Json.at?_put_above value place key [] t.root
    rw [← hpath, hheld] at hobject
    exact hobject

/-- Defaults, one after the other. -/
def fill (t : Tree) (defaults : List (String × Json)) : Tree :=
  defaults.foldl (fun t entry => t.setDefault entry.1 entry.2) t

theorem fill_append (t : Tree) (defaults more : List (String × Json)) :
    t.fill (defaults ++ more) = (t.fill defaults).fill more := List.foldl_append

theorem contains_fill {path : String} (h : t.contains path = true)
    (defaults : List (String × Json)) :
    (t.fill defaults).contains path = true := by
  induction defaults generalizing t with
  | nil => exact h
  | cons entry rest ih => exact ih (contains_setDefault h entry.1 entry.2)

theorem contains_fill_of_mem {defaults : List (String × Json)} {entry : String × Json}
    (hentry : entry ∈ defaults) : (t.fill defaults).contains entry.1 = true := by
  induction defaults generalizing t with
  | nil => cases hentry
  | cons first rest ih =>
    rcases List.mem_cons.1 hentry with rfl | hrest
    · exact contains_fill (t.contains_setDefault_self entry.1 entry.2) rest
    · exact ih hrest

/-- What became of a value under defaults for these paths: it is there still if none leads on from
it, and otherwise an object is. -/
structure Spares (place : Path) (v : Json) (slots : List String) (t : Tree) : Prop where
  kept : (∀ slot ∈ slots, ¬ place.Below (.ofString slot)) → t.root.at? place = some v
  replaced : ∀ slot ∈ slots, place.Below (.ofString slot) →
    ∃ members, t.root.at? place = some (.obj members)

namespace Spares

theorem untouched (hheld : t.root.at? place = some v) : Spares place v [] t :=
  ⟨fun _ => hheld, by simp⟩

theorem setDefault (h : Spares place v slots t) (path : String) (value : Json) :
    Spares place v (slots ++ [path]) (t.setDefault path value) where
  kept hbelow := by
    obtain ⟨hslots, hpath⟩ := List.forall_mem_append.1 hbelow
    exact at?_setDefault_of_not_below (h.kept hslots) (hpath path List.mem_cons_self) value
  replaced slot hslot hbelow := by
    rcases List.mem_append.1 hslot with hslot | hpath
    · exact exists_members_setDefault (h.replaced slot hslot hbelow) path value
    · rw [List.mem_singleton.1 hpath] at hbelow
      exact exists_members_setDefault_of_below hbelow t value

theorem fill (h : Spares place v slots t) (defaults : List (String × Json)) :
    Spares place v (slots ++ defaults.map (·.1)) (t.fill defaults) := by
  induction defaults generalizing slots t with
  | nil =>
    rw [List.map_nil, List.append_nil]
    exact h
  | cons entry rest ih =>
    have hrest := ih (h.setDefault entry.1 entry.2)
    rwa [List.append_assoc, List.singleton_append] at hrest

/-- Something is there, whatever became of the value. -/
theorem held (h : Spares place v slots t) : (t.root.at? place).isSome = true := by
  by_cases hkept : ∀ slot ∈ slots, ¬ place.Below (.ofString slot)
  · rw [h.kept hkept]
    rfl
  · simp only [Classical.not_forall, Classical.not_not] at hkept
    obtain ⟨slot, hslot, hbelow⟩ := hkept
    obtain ⟨members, hmembers⟩ := h.replaced slot hslot hbelow
    rw [hmembers]
    rfl

/-- Slots that lead on from somewhere else need no mention. -/
theorem of_append {more : List String} (h : Spares place v (slots ++ more) t)
    (hmore : (∀ slot ∈ slots, ¬ place.Below (.ofString slot)) →
      ∀ slot ∈ more, ¬ place.Below (.ofString slot)) : Spares place v slots t where
  kept hslots := h.kept (List.forall_mem_append.2 ⟨hslots, hmore hslots⟩)
  replaced slot hslot := h.replaced slot (List.mem_append_left _ hslot)

end Spares

end Tree

end Patchbay
