import Patchbay.Proofs.Settings.OverDefaults

/-!
What null says in a document that is laid over another. Where both have an object, a null member is
as good as none; where the one below has none, the object above is taken as it stands, with the
nulls in it, and a document that is null puts null in the place of all.
-/

namespace Patchbay

namespace Json

mutual

/-- The document without its null members, along objects. -/
def withoutNulls : Json → Json
  | .obj members => .obj (withoutNullMembers members)
  | v => v

def withoutNullMembers : List (String × Json) → Fields Json
  | [] => []
  | (key, v) :: rest =>
    match v with
    | .null => withoutNullMembers rest
    | _ => (key, withoutNulls v) :: withoutNullMembers rest

end

variable {base upper v : Json} {below above members : Fields Json} {key : String}

/-! ### Nulls left out -/

theorem withoutNulls_of_no_object (h : v.members? = none) : withoutNulls v = v := by
  cases v <;> first | rfl | cases h

theorem nonNull_of_get? (h : above.get? key = some v) :
    v = .null ∨ nonNull (above.get? key) = some v := by
  rw [h]
  cases v with
  | null => exact .inl rfl
  | _ => exact .inr rfl

theorem nonNull_said (said : Option Json) :
    nonNull ((nonNull said).map withoutNulls) = (nonNull said).map withoutNulls := by
  cases said with
  | none => rfl
  | some v => cases v <;> rfl

theorem withoutNullMembers_cons (key : String) (v : Json) (rest : Fields Json) :
    withoutNullMembers ((key, v) :: rest) =
      ((nonNull (some v)).map fun v => (key, withoutNulls v)).toList ++
        withoutNullMembers rest := by
  cases v <;> rfl

theorem mem_withoutNullMembers {entry : String × Json} (h : entry ∈ withoutNullMembers members) :
    ∃ v, (entry.1, v) ∈ members := by
  induction members with
  | nil => cases h
  | cons head rest ih =>
    obtain ⟨name, v⟩ := head
    rw [withoutNullMembers_cons] at h
    rcases List.mem_append.1 h with hfirst | hrest
    · obtain ⟨v, -, rfl⟩ := Option.map_eq_some_iff.1 (Option.mem_toList.1 hfirst)
      exact ⟨_, List.mem_cons_self⟩
    · obtain ⟨v, hv⟩ := ih hrest
      exact ⟨v, List.mem_cons_of_mem _ hv⟩

/-- Each member that says something is there, without the nulls in it. -/
theorem get?_withoutNullMembers (h : members.Sorted) (key : String) :
    Fields.get? key (withoutNullMembers members) =
      (nonNull (members.get? key)).map withoutNulls := by
  induction members with
  | nil => rfl
  | cons head rest ih =>
    obtain ⟨name, v⟩ := head
    obtain ⟨hhead, hrest⟩ := List.pairwise_cons.1 h
    rw [withoutNullMembers_cons, Fields.get?]
    by_cases hkey : name = key
    · subst hkey
      have hlater : Fields.get? name (withoutNullMembers rest) = none := by
        rw [ih hrest, Fields.get?_eq_none_of_lt hhead]
        rfl
      rw [if_pos rfl]
      cases nonNull (some v) with
      | none => exact hlater
      | some v => simp [Fields.get?]
    · rw [if_neg hkey, ← ih hrest]
      cases nonNull (some v) with
      | none => rfl
      | some v => simp [Fields.get?, hkey]

theorem sorted_withoutNullMembers (h : members.Sorted) :
    Fields.Sorted (withoutNullMembers members) := by
  induction members with
  | nil => exact .nil
  | cons head rest ih =>
    obtain ⟨name, v⟩ := head
    obtain ⟨hhead, hrest⟩ := List.pairwise_cons.1 h
    rw [withoutNullMembers_cons]
    cases nonNull (some v) with
    | none => exact ih hrest
    | some v =>
      refine List.pairwise_cons.2 ⟨fun entry hentry => ?_, ih hrest⟩
      obtain ⟨v, hv⟩ := mem_withoutNullMembers hentry
      exact hhead (entry.1, v) hv

/-! ### Laid over another -/

/-- Around every null member of the upper document the one below has an object too. -/
def Meets (base upper : Json) : Prop :=
  ∀ q key, upper.at? (q ++ [key]) = some .null → ∃ members, base.at? q = some (.obj members)

theorem at?_null_of_ne_nil {p : Path} (h : p ≠ []) : Json.null.at? p = none := by
  cases p with
  | nil => exact absurd rfl h
  | cons => rfl

theorem meets_of_no_object (h : v.members? = none) : Meets base v := by
  intro q key hnull
  have hnothing (name : String) : v.get? name = none := by cases v <;> first | rfl | cases h
  cases q with
  | nil => simp [at?, hnothing] at hnull
  | cons first q => simp [at?, hnothing] at hnull

theorem meets_obj_iff : Meets base (.obj above) ↔
    (∀ key, above.get? key = some .null → ∃ members, base = .obj members) ∧
      ∀ key v, nonNull (above.get? key) = some v → Meets ((base.get? key).getD .null) v := by
  constructor
  · intro h
    constructor
    · intro key hnull
      obtain ⟨members, hmembers⟩ := h [] key (by simpa [at?, get?] using hnull)
      exact ⟨members, Option.some.inj hmembers⟩
    · intro key v hsaid q name hnull
      obtain ⟨members, hmembers⟩ := h (key :: q) name (by
        simpa [at?, get?, get?_of_nonNull hsaid] using hnull)
      obtain ⟨child, hchild, hat⟩ := Option.bind_eq_some_iff.1 hmembers
      exact ⟨members, by rwa [hchild]⟩
  · rintro ⟨hhere, hbelow⟩ q key hnull
    cases q with
    | nil =>
      obtain ⟨members, rfl⟩ := hhere key (by simpa [at?, get?] using hnull)
      exact ⟨members, rfl⟩
    | cons first q =>
      obtain ⟨child, hchild, hat⟩ := Option.bind_eq_some_iff.1 hnull
      have hchild : above.get? first = some child := hchild
      have hsaid : nonNull (above.get? first) = some child := by
        rcases nonNull_of_get? hchild with rfl | hsaid
        · rw [at?_null_of_ne_nil (by simp)] at hat
          cases hat
        · exact hsaid
      obtain ⟨members, hmembers⟩ := hbelow first child hsaid q key hat
      refine ⟨members, ?_⟩
      cases hold : base.get? first with
      | some old =>
        rwa [at?, hold, Option.bind_some, ← Option.getD_some (a := old) (b := Json.null), ← hold]
      | none =>
        -- Nothing below null is an object.
        rw [hold, Option.getD_none] at hmembers
        cases q with
        | nil => cases hmembers
        | cons => cases hmembers

/-- Over an object, an object and the one without its nulls differ only below the members they
share. -/
theorem layer_over_object_iff (hbelow : below.Sorted) (habove : above.Sorted) :
    layer (.obj below) (.obj above) = layer (.obj below) (withoutNulls (.obj above)) ↔
      ∀ key v, nonNull (above.get? key) = some v →
        layer ((below.get? key).getD .null) v =
          layer ((below.get? key).getD .null) (withoutNulls v) := by
  have hget (key : String) : (layerMembers below (withoutNullMembers above)).get? key =
      (nonNull (above.get? key)).elim (below.get? key) fun v =>
        some (layer ((below.get? key).getD .null) (withoutNulls v)) := by
    rw [get?_layerMembers below (sorted_withoutNullMembers habove), get?_withoutNullMembers habove,
      nonNull_said]
    cases nonNull (above.get? key) <;> rfl
  constructor
  · intro h key v hsaid
    have hsame := hget key
    rw [← obj.inj h, get?_layerMembers below habove, hsaid] at hsame
    exact Option.some.inj hsame
  · intro h
    refine congrArg obj
      ((sorted_layerMembers hbelow above).ext (sorted_layerMembers hbelow _) fun key => ?_)
    rw [hget, get?_layerMembers below habove]
    cases hsaid : nonNull (above.get? key) with
    | none => rfl
    | some v => exact congrArg some (h key v hsaid)

/-- An object is the one without its nulls if it has none and what it says has none. -/
theorem withoutNulls_obj_iff (habove : above.Sorted) :
    Json.obj above = withoutNulls (.obj above) ↔
      (∀ key, above.get? key ≠ some .null) ∧
        ∀ key v, nonNull (above.get? key) = some v → v = withoutNulls v := by
  constructor
  · intro h
    have hsame (key : String) : above.get? key = (nonNull (above.get? key)).map withoutNulls := by
      rw [← get?_withoutNullMembers habove, ← obj.inj h]
    constructor
    · intro key hnull
      have hthis := hsame key
      rw [hnull] at hthis
      cases hthis
    · intro key v hsaid
      have hthis := hsame key
      rw [hsaid, get?_of_nonNull hsaid] at hthis
      exact Option.some.inj hthis
  · rintro ⟨hhere, hbelow⟩
    refine congrArg obj (habove.ext (sorted_withoutNullMembers habove) fun key => ?_)
    rw [get?_withoutNullMembers habove]
    cases hget : above.get? key with
    | none => rfl
    | some v =>
      rcases nonNull_of_get? hget with rfl | hsaid
      · exact absurd hget (hhere key)
      · rw [← hget, hsaid, hget]
        exact congrArg some (hbelow key v hsaid)

/-- What is said under each name tells an object, laid over another document, from the one without
its nulls. -/
theorem layer_obj_eq_iff (hbase : base.Ordered) (habove : above.Sorted) :
    layer base (.obj above) = layer base (withoutNulls (.obj above)) ↔
      (∀ key, above.get? key = some .null → ∃ members, base = .obj members) ∧
        ∀ key v, nonNull (above.get? key) = some v →
          layer ((base.get? key).getD .null) v =
            layer ((base.get? key).getD .null) (withoutNulls v) := by
  cases hbase with
  | @object below hbelow =>
    rw [layer_over_object_iff hbelow habove]
    exact ⟨fun h => ⟨fun _ _ => ⟨below, rfl⟩, h⟩, And.right⟩
  | other hnone =>
    have hget (key : String) : base.get? key = none := by cases base <;> first | rfl | cases hnone
    have hno : ¬ ∃ members, base = .obj members := by
      rintro ⟨members, rfl⟩
      cases hnone
    have hnothing : Json.null.members? = none := rfl
    simp only [layer_over_no_object hnone, layer_over_no_object hnothing, hget,
      Option.getD_none, hno, withoutNulls_obj_iff habove, imp_false, ne_eq]

/-- Leaving the nulls out changes nothing if and only if around each of them there is an object
below. -/
theorem layer_withoutNulls_iff (hbase : base.Ordered) (hupper : upper.Ordered) :
    layer base upper = layer base (withoutNulls upper) ↔ Meets base upper := by
  -- One level down the document below is that of the member, and null where it has none.
  induction hupper generalizing base with
  | other hv => simp [withoutNulls_of_no_object hv, meets_of_no_object hv]
  | @object above habove _ ih =>
    rw [layer_obj_eq_iff hbase habove, meets_obj_iff]
    refine and_congr_right fun _ => forall_congr' fun key => forall_congr' fun v =>
      imp_congr_right fun hsaid => ?_
    refine ih (key, v) (Fields.mem_of_get? (get?_of_nonNull hsaid)) ?_
    cases hold : base.get? key with
    | none => exact .other rfl
    | some old =>
      obtain ⟨below, rfl, hget⟩ := exists_members_of_get? hold
      exact hbase.get? hget

end Json

/-! ### Over the defaults -/

namespace Settings

open Json

variable {α : Type} [Readable α] {upper : Json}

theorem given_withoutNulls (hrefuses : ∀ members, read? (α := α) (.obj members) = none)
    (default : α) (said : Option Json) :
    given default ((nonNull said).map withoutNulls) = given default said := by
  rw [given, nonNull_said, given]
  cases nonNull said with
  | none => rfl
  | some v =>
    cases v with
    | obj members => exact (hrefuses _).trans (hrefuses _).symm
    | _ => rfl

/-- No setting is an object, so those that are read do not tell of the nulls in one. -/
theorem ofLayer?_withoutNulls (hupper : upper.Ordered) :
    ofLayer? (withoutNulls upper) = ofLayer? upper := by
  cases hupper with
  | other hv => rw [withoutNulls_of_no_object hv]
  | @object above habove =>
    rw [withoutNulls, ofLayer?_obj habove, ofLayer?_obj (sorted_withoutNullMembers habove)]
    simp only [get?_withoutNullMembers habove]
    rw [given_withoutNulls fun _ => rfl, given_withoutNulls fun _ => rfl,
      given_withoutNulls fun _ => rfl,
      given_withoutNulls fun _ => rfl, given_withoutNulls fun _ => rfl]

end Settings

namespace Json

/-- What a document with nulls in it makes of the one below, and of the settings. -/
structure NullsLaid (base upper : Json) : Prop where
  same : layer base upper = layer base (withoutNulls upper) ↔ Meets base upper
  /-- No setting is read where they are left in. -/
  unread : Settings.ofLayer? upper = Settings.ofLayer? (withoutNulls upper)
  whole : layer base .null = .null
  /-- Null is no settings. -/
  refused : Settings.ofLayer? .null = none

/-- A null member means that nothing is said if and only if around it there is an object below; a
null on its own takes the place of all. -/
theorem nulls_laid_over (hbase : base.Ordered) (hupper : upper.Ordered) : NullsLaid base upper where
  same := layer_withoutNulls_iff hbase hupper
  unread := (Settings.ofLayer?_withoutNulls hupper).symm
  whole := layer_of_no_object base rfl
  refused := rfl

/-- A null beside a default, and one where the document below has nothing. -/
theorem nulls_laid_over_read :
    ∃ base upper,
      parse "\x7b\"origin\":\"a\",\"warnings\":true\x7d" = .ok base ∧
      parse "\x7b\"origin\":null,\"vuex\":\x7b\"actions\":null\x7d\x7d" = .ok upper ∧
      NullsLaid base upper := by
  have hbase : parse "\x7b\"origin\":\"a\",\"warnings\":true\x7d" =
      .ok (obj [("origin", .str "a"), ("warnings", .bool true)]) := by
    cbv
  have hupper : parse "\x7b\"origin\":null,\"vuex\":\x7b\"actions\":null\x7d\x7d" =
      .ok (obj [("origin", .null), ("vuex", obj [("actions", .null)])]) := by
    cbv
  exact ⟨_, _, hbase, hupper, nulls_laid_over (ordered_of_parse hbase) (ordered_of_parse hupper)⟩

/-- Where the document below has nothing, a null stays in what is put there; and a null on its own
does not leave the document as it is. -/
theorem nulls_left_in :
    (¬ ∀ base upper : Json, base.Ordered → upper.Ordered →
      layer base upper = layer base (withoutNulls upper)) ∧
    ¬ ∀ base : Json, base.Ordered → layer base .null = base := by
  constructor
  · intro h
    have hupper : Ordered (obj [("vuex", obj [("actions", .null)])]) :=
      ordered_nil.insert (ordered_nil.insert (.other rfl) "actions") "vuex"
    have hmeets := (layer_withoutNulls_iff ordered_nil hupper).1 (h _ _ ordered_nil hupper)
    obtain ⟨members, hmembers⟩ := hmeets ["vuex"] "actions" rfl
    cases hmembers
  · intro h
    cases h (obj [("a", .int 1)]) (ordered_nil.insert (.other rfl) "a")

end Json

end Patchbay
