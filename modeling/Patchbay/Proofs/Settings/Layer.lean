import Patchbay.Proofs.Json.Ordered
import Patchbay.Proofs.State.Defaults
import Patchbay.Settings.Layer

/-!
A document laid over another. What the upper one says at the end of a path is there, what it leaves
open, with null or with nothing, is as it was below, and to lay it over once more changes nothing.
-/

namespace Patchbay

namespace Json

variable {below above members : Fields Json} {base upper v : Json} {key : String}

/-- What a member says: null says nothing. -/
def nonNull (v : Option Json) : Option Json := v.filter (!·.isNull)

theorem get?_of_nonNull (h : nonNull (above.get? key) = some v) : above.get? key = some v :=
  (Option.filter_eq_some_iff.1 h).1

theorem eq_obj_of_members? (h : v.members? = some members) : v = obj members := by
  cases v <;> cases h
  rfl

theorem exists_members_of_get? {child : Json} (h : v.get? key = some child) :
    ∃ members, v = obj members ∧ Fields.get? key members = some child := by
  cases v <;> first | cases h | exact ⟨_, rfl, h⟩

/-! ### One level -/

theorem layer_of_no_object (base : Json) (h : v.members? = none) : layer base v = v := by
  cases v <;> first | rfl | cases h

theorem layer_over_no_object (h : base.members? = none) (v : Json) : layer base v = v := by
  cases v with
  | obj => cases base <;> first | rfl | cases h
  | _ => rfl

theorem layerMembers_cons (below : Fields Json) (key : String) (v : Json) (rest : Fields Json) :
    layerMembers below ((key, v) :: rest) = layerMembers (match nonNull (some v) with
      | none => below
      | some v => below.insert key (layer ((below.get? key).getD .null) v)) rest := by
  cases v with
  | null => rfl
  | _ =>
    simp only [layerMembers, nonNull]
    cases below.get? key <;> rfl

/-- Each member is laid over the one of its name, or over nothing. -/
theorem get?_layerMembers (below : Fields Json) (h : above.Sorted) (key : String) :
    (layerMembers below above).get? key = match nonNull (above.get? key) with
      | none => below.get? key
      | some v => some (layer ((below.get? key).getD .null) v) := by
  induction above generalizing below with
  | nil => rfl
  | cons head rest ih =>
    obtain ⟨name, v⟩ := head
    obtain ⟨hhead, hrest⟩ := List.pairwise_cons.1 h
    rw [layerMembers_cons, ih _ hrest]
    by_cases hkey : name = key
    · subst hkey
      rw [Fields.get?_eq_none_of_lt hhead, Fields.get?, if_pos rfl]
      cases nonNull (some v) <;> simp [nonNull]
    · have hother : Fields.get? key (match nonNull (some v) with
          | none => below
          | some v => below.insert name (layer ((below.get? name).getD .null) v)) =
              below.get? key := by
        cases nonNull (some v) with
        | none => rfl
        | some v => exact Fields.get?_insert_of_ne (Ne.symm hkey) ..
      rw [Fields.get?, if_neg hkey, hother]

theorem sorted_layerMembers (h : below.Sorted) (above : Fields Json) :
    (layerMembers below above).Sorted := by
  induction above generalizing below with
  | nil => exact h
  | cons head rest ih =>
    rw [layerMembers_cons]
    cases nonNull (some head.2) with
    | none => exact ih h
    | some v => exact ih (Fields.sorted_insert _ _ h)

/-! ### Twice -/

theorem layerMembers_eq_self (hmembers : members.Sorted) (habove : above.Sorted)
    (hin : ∀ key v, nonNull (above.get? key) = some v →
      ∃ held, members.get? key = some held ∧ layer held v = held) :
    layerMembers members above = members := by
  refine (sorted_layerMembers hmembers above).ext hmembers fun key => ?_
  rw [get?_layerMembers members habove]
  cases hsaid : nonNull (above.get? key) with
  | none => rfl
  | some v =>
    obtain ⟨held, hheld, hkept⟩ := hin key v hsaid
    simp [hheld, hkept]

/-- Laid over again, a document changes nothing. -/
theorem layer_layer (hbase : base.Ordered) (hupper : upper.Ordered) :
    layer (layer base upper) upper = layer base upper := by
  induction hupper generalizing base with
  | other hv => rw [layer_of_no_object _ hv, layer_of_no_object _ hv]
  | @object above habove _ ih =>
    replace ih {key : String} {v : Json} (hsaid : nonNull (above.get? key) = some v) {base : Json}
        (hbase : base.Ordered) : layer (layer base v) v = layer base v :=
      ih (key, v) (Fields.mem_of_get? (get?_of_nonNull hsaid)) hbase
    cases hbase with
    | @object below hbelow hmembers =>
      refine congrArg obj (layerMembers_eq_self (sorted_layerMembers hbelow above) habove ?_)
      intro key v hsaid
      refine ⟨_, by rw [get?_layerMembers below habove, hsaid], ih hsaid ?_⟩
      cases hget : below.get? key with
      | none => exact .other rfl
      | some old => exact hmembers _ (Fields.mem_of_get? hget)
    | other hv =>
      -- The document stands in the place of what was there, nulls and all.
      rw [layer_over_no_object hv]
      refine congrArg obj (layerMembers_eq_self habove habove fun key v hsaid => ?_)
      have hself : layer (layer .null v) v = layer .null v := ih hsaid (.other rfl)
      have hnothing : Json.null.members? = none := rfl
      rw [layer_over_no_object hnothing] at hself
      exact ⟨v, get?_of_nonNull hsaid, hself⟩

/-! ### Along a path -/

/-- What a document says at the end of a path is there once it is laid over another. -/
theorem at?_layer_of_leaf {p : Path} (hupper : upper.Ordered) (hv : upper.at? p = some v)
    (hnull : v.isNull = false) (hleaf : v.members? = none) : (layer base upper).at? p = some v := by
  induction p generalizing base upper with
  | nil =>
    obtain rfl := Option.some.inj hv
    rw [layer_of_no_object base hleaf]
    rfl
  | cons key rest ih =>
    cases hbase : base.members? with
    | none =>
      rw [layer_over_no_object hbase]
      exact hv
    | some below =>
      obtain ⟨child, hchild, hrest⟩ := Option.bind_eq_some_iff.1 hv
      obtain rfl : base = obj below := eq_obj_of_members? hbase
      obtain ⟨above, rfl, hget⟩ := exists_members_of_get? hchild
      have hsaid : nonNull (Fields.get? key above) = some child := by
        rw [hget, nonNull, Option.filter_some]
        cases child with
        | null =>
          cases rest with
          | nil =>
            obtain rfl := Option.some.inj hrest
            cases hnull
          | cons => cases hrest
        | _ => rfl
      have hmerged := get?_layerMembers below hupper.sorted key
      rw [hsaid] at hmerged
      rw [layer, at?, get?, hmerged]
      exact ih (hupper.get? hchild) hrest

/-- Both documents have an object there. -/
def BothObjects (base upper : Json) (p : Path) : Prop :=
  (∃ below, base.at? p = some (.obj below)) ∧ ∃ above, upper.at? p = some (.obj above)

/-- What is left open below two objects is as it was. -/
theorem at?_layer_of_open {q rest : Path} (hupper : upper.Ordered)
    (hobjects : ∀ p, p <+: q → BothObjects base upper p)
    (hopen : nonNull (upper.at? (q ++ [key])) = none) :
    (layer base upper).at? (q ++ key :: rest) = base.at? (q ++ key :: rest) := by
  induction q generalizing base upper with
  | nil =>
    obtain ⟨⟨below, hbelow⟩, above, habove⟩ := hobjects [] (List.prefix_refl _)
    obtain rfl : base = .obj below := Option.some.inj hbelow
    obtain rfl : upper = .obj above := Option.some.inj habove
    have hmember : nonNull (Fields.get? key above) = none := by
      simpa [at?, get?, Option.bind_fun_some] using hopen
    have hmerged := get?_layerMembers below hupper.sorted key
    rw [hmember] at hmerged
    simp only [List.nil_append, layer, at?, get?, hmerged]
  | cons first q ih =>
    obtain ⟨⟨below, hbelow⟩, above, habove⟩ := hobjects [] List.nil_prefix
    obtain rfl : base = .obj below := Option.some.inj hbelow
    obtain rfl : upper = .obj above := Option.some.inj habove
    obtain ⟨⟨below', hbelow'⟩, above', habove'⟩ := hobjects [first] (by simp)
    have hold : Fields.get? first below = some (obj below') := by
      simpa [at?, get?, Option.bind_fun_some] using hbelow'
    have hnew : Fields.get? first above = some (obj above') := by
      simpa [at?, get?, Option.bind_fun_some] using habove'
    have hmerged := get?_layerMembers below hupper.sorted first
    have hsaid : nonNull (some (obj above')) = some (obj above') := rfl
    rw [hnew, hsaid, hold] at hmerged
    have hinner (p : Path) (hp : p <+: q) : BothObjects (.obj below') (.obj above') p := by
      have houter := hobjects (first :: p) (List.cons_prefix_cons.2 ⟨rfl, hp⟩)
      simpa [BothObjects, at?, get?, hold, hnew] using houter
    have hopen' : nonNull ((Json.obj above').at? (q ++ [key])) = none := by
      simpa [at?, get?, hnew] using hopen
    simp only [List.cons_append, layer, at?, get?, hmerged, hold, Option.bind_some]
    exact ih (hupper.get? hnew) hinner hopen'

/-- What one document makes of another. -/
structure Overlaid (base upper merged : Json) : Prop where
  said : ∀ p v, upper.at? p = some v → v.isNull = false → v.members? = none → merged.at? p = some v
  /-- Where objects lead to a place that is null or not there, all is as it was from that place
  on. -/
  left : ∀ q key rest, (∀ p, p <+: q → BothObjects base upper p) →
    (upper.at? (q ++ [key]) = none ∨ upper.at? (q ++ [key]) = some .null) →
    merged.at? (q ++ key :: rest) = base.at? (q ++ key :: rest)
  settled : layer merged upper = merged

/-- A document laid over another is read path by path. -/
theorem layer_overlays (hbase : base.Ordered) (hupper : upper.Ordered) :
    Overlaid base upper (layer base upper) where
  said _ _ hv hnull hleaf := at?_layer_of_leaf hupper hv hnull hleaf
  left q key rest hobjects hopen := by
    refine at?_layer_of_open hupper hobjects ?_
    rcases hopen with hopen | hopen <;> rw [hopen] <;> rfl
  settled := layer_layer hbase hupper

/-- Two documents that meet in a null, in an object and in a list. -/
theorem layer_overlays_read :
    ∃ base upper,
      parse "\x7b\"origin\":\"a\",\"vuex\":\x7b\"actions\":[],\"mutations\":[\"M\"]\x7d\x7d" =
        .ok base ∧
      parse "\x7b\"origin\":null,\"vuex\":\x7b\"actions\":[\"A\"]\x7d\x7d" = .ok upper ∧
      Overlaid base upper (layer base upper) := by
  have hbase :
      parse "\x7b\"origin\":\"a\",\"vuex\":\x7b\"actions\":[],\"mutations\":[\"M\"]\x7d\x7d" =
        .ok (obj [("origin", .str "a"),
          ("vuex", obj [("actions", .arr []), ("mutations", .arr [.str "M"])])]) := by
    cbv
  have hupper : parse "\x7b\"origin\":null,\"vuex\":\x7b\"actions\":[\"A\"]\x7d\x7d" =
      .ok (obj [("origin", .null), ("vuex", obj [("actions", .arr [.str "A"])])]) := by
    cbv
  exact ⟨_, _, hbase, hupper, layer_overlays (ordered_of_parse hbase) (ordered_of_parse hupper)⟩

end Json

end Patchbay
