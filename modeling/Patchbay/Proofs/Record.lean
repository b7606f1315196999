import Patchbay.Proofs.Lists
import Patchbay.Proofs.State.Defaults
import Patchbay.Record

/-!
What is written as JSON is read back. For a list or a map this comes down to what it holds, and for
a record to its members one by one.
-/

namespace Patchbay

/-! ### Entries in any order -/

namespace Fields

variable {α : Type} {entries lower : Fields α}

theorem get?_ofList (h : entries.keys.Nodup) (key : String) :
    (ofList entries).get? key = entries.get? key := by
  rw [ofList, get?_overlay_of_nodup [] h, get?, Option.or_none]

theorem ofList_of_sorted (h : entries.Sorted) : ofList entries = entries :=
  (sorted_ofList entries).ext h fun key => by rw [ofList, get?_overlay [] h, get?, Option.or_none]

theorem mem_overlay {entry : String × α} (h : entry ∈ lower.overlay entries) :
    entry ∈ lower ∨ entry ∈ entries := by
  induction entries generalizing lower with
  | nil => exact .inl h
  | cons head rest ih =>
    rcases ih h with hlower | hrest
    · rcases mem_insert hlower with rfl | hold
      · exact .inr List.mem_cons_self
      · exact .inl hold
    · exact .inr (List.mem_cons_of_mem _ hrest)

theorem mem_ofList {entry : String × α} (h : entry ∈ ofList entries) : entry ∈ entries := by
  rcases mem_overlay h with hnone | hentry
  · cases hnone
  · exact hentry

end Fields

/-! ### Single values, lists and maps -/

section

variable {α : Type} [Readable α]

theorem read?_option {v : Json} (h : v ≠ .null) : read? (α := Option α) v = (read? v).map some := by
  cases v with
  | null => exact absurd rfl h
  | _ => rfl

variable [Writable α]

/-- Read from what is written for it, a value is itself. -/
def RoundTrips (a : α) : Prop := read? (write a) = some a

theorem roundTrips_json (v : Json) : RoundTrips v := rfl

theorem roundTrips_string (s : String) : RoundTrips s := rfl

theorem roundTrips_bool (b : Bool) : RoundTrips b := rfl

theorem roundTrips_nat (n : Nat) : RoundTrips n := rfl

/-- What is there must not be written as null, for null is read as nothing. -/
theorem roundTrips_option {a : Option α} (h : ∀ b ∈ a, RoundTrips b ∧ write b ≠ .null) :
    RoundTrips a := by
  cases a with
  | none => rfl
  | some b =>
    obtain ⟨hread, hnull⟩ := h b rfl
    exact (read?_option hnull).trans (congrArg (Option.map some) hread)

theorem roundTrips_list {items : List α} (h : ∀ a ∈ items, RoundTrips a) : RoundTrips items :=
  mapM_map_of_forall h

theorem read?_items (items : List Json) : read? (.arr items) = some items := by
  have hitems : (items.map id).mapM some = some items := mapM_map_of_forall fun _ _ => rfl
  rwa [List.map_id] at hitems

theorem roundTrips_dict {dict : Dict α} (h : ∀ entry ∈ dict.entries, RoundTrips entry.2) :
    RoundTrips dict := by
  have hentries : (dict.entries.map fun entry => (entry.1, write entry.2)).mapM
      (fun member : String × Json => do return (member.1, ← read? (α := α) member.2)) =
        some dict.entries := by
    refine mapM_map_of_forall fun entry hentry => ?_
    simp only [show read? (write entry.2) = some entry.2 from h entry hentry]
    rfl
  have hsame : Dict.ofList dict.entries = dict := by
    cases dict with
    | mk entries hsorted => simp [Dict.ofList, Fields.ofList_of_sorted hsorted]
  refine (congrArg (Option.bind · fun entries => some (Dict.ofList entries)) hentries).trans ?_
  exact congrArg some hsame

end

/-! ### Records -/

namespace Record

variable {members : List (String × Option Json)}

/-- The members that are written. -/
def present (members : List (String × Option Json)) : Fields Json :=
  members.filterMap fun (name, v) => v.map (name, ·)

theorem keys_present_sublist (members : List (String × Option Json)) :
    (present members).keys.Sublist (members.map Prod.fst) := by
  induction members with
  | nil => exact .slnil
  | cons head rest ih =>
    obtain ⟨name, v⟩ := head
    cases v with
    | none => exact ih.cons name
    | some v => exact ih.cons_cons name

theorem get?_present (h : (members.map Prod.fst).Nodup) {name : String} {v : Option Json}
    (hmember : (name, v) ∈ members) : (present members).get? name = v := by
  induction members with
  | nil => cases hmember
  | cons head rest ih =>
    obtain ⟨first, held⟩ := head
    obtain ⟨hfirst, hrest⟩ := List.nodup_cons.1 h
    rcases List.mem_cons.1 hmember with heq | hlater
    · obtain ⟨rfl, rfl⟩ := Prod.mk.inj heq
      cases v with
      | none =>
        exact Fields.get?_eq_none_of_not_mem fun hin =>
          hfirst ((keys_present_sublist rest).subset hin)
      | some v => exact if_pos rfl
    · have hin : name ∈ rest.map Prod.fst := List.mem_map_of_mem (f := Prod.fst) hlater
      have hname : first ≠ name := fun heq => hfirst (heq ▸ hin)
      cases held with
      | none => exact ih hrest hlater
      | some held => exact (if_neg hname).trans (ih hrest hlater)

/-- A record has no member of another name. -/
theorem get?_record_of_not_mem (h : (members.map Prod.fst).Nodup) {name : String}
    (hname : name ∉ members.map Prod.fst) : (Json.record members).get? name = none := by
  have hkeys := keys_present_sublist members
  refine (Fields.get?_ofList (hkeys.nodup h) name).trans ?_
  exact Fields.get?_eq_none_of_not_mem fun hin => hname (hkeys.subset hin)

variable {names : List String}

/-- Under each name stands in a record what was put there. -/
theorem slots?_record (hnames : members.map Prod.fst = names) (h : names.Nodup) :
    slots? names (.record members) = some (members.map Prod.snd) := by
  subst hnames
  have hget (member : String × Option Json) (hmember : member ∈ members) :
      Fields.get? member.1 (Fields.ofList (present members)) = member.2 := by
    rw [Fields.get?_ofList ((keys_present_sublist members).nodup h), get?_present h hmember]
  refine congrArg some ?_
  rw [List.map_map]
  exact List.map_congr_left hget

theorem object_eq_record (members : Fields Json) :
    Json.object members = .record (members.map fun member => (member.1, some member.2)) := by
  have hpresent : present (members.map fun member => (member.1, some member.2)) = members :=
    List.filterMap_map.trans List.filterMap_some
  exact congrArg (fun given => Json.obj (Fields.ofList given)) hpresent.symm

theorem slots?_object {members : Fields Json} (hnames : members.keys = names) (h : names.Nodup) :
    slots? names (.object members) = some (members.map fun member => some member.2) := by
  have hkeys : (members.map fun member => (member.1, some member.2)).map Prod.fst = names := by
    rw [List.map_map]
    exact hnames
  rw [object_eq_record, slots?_record hkeys h, List.map_map]
  rfl

section

variable {α : Type} [Readable α] {slots : List (Option Json)} {i : Nat}

theorem defaulted_of_slot {v : Json} {a : α} (hread : read? v = some a) (default : α)
    (hslot : slots.getD i none = some v) : defaulted default slots i = some a := by
  rw [defaulted, hslot]
  exact hread

theorem optional_of_slot [Writable α] {a : Option α} (h : ∀ b ∈ a, RoundTrips b ∧ write b ≠ .null)
    (hslot : slots.getD i none = a.map write) : optional slots i = some a := by
  rw [optional, defaulted, hslot]
  cases a with
  | none => rfl
  | some b => exact roundTrips_option h

/-- A default that is left out is put in again. -/
theorem defaulted_of_left_out [Writable α] {a default : α} {out : Bool} (h : RoundTrips a)
    (hout : out = true → a = default)
    (hslot : slots.getD i none = if out then none else some (write a)) :
    defaulted default slots i = some a := by
  rw [defaulted, hslot]
  cases out with
  | true => rw [hout rfl]; rfl
  | false => exact h

end

end Record

end Patchbay
