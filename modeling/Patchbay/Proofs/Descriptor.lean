import Patchbay.Descriptor
import Patchbay.Proofs.Emit.Ack
import Patchbay.Proofs.Record

/-!
Descriptors and their JSON form. What was read of one holds null nowhere it would be left out, so
all of it is written, and read again it is the same.
-/

namespace Patchbay

open Record

/-! ### What reading leaves out -/

theorem Json.eq_null_of_isNull {v : Json} (h : v.isNull = true) : v = .null := by
  cases v <;> first | rfl | cases h

section

variable {α : Type} [Readable α] {slots : List (Option Json)} {i : Nat} {v : Json}

theorem read?_option_ne_null {a : Option Json} (h : read? v = some a) : a ≠ some .null := by
  cases v <;> cases h <;> nofun

theorem Record.optional_ne_null {a : Option Json} (h : optional slots i = some a) :
    a ≠ some .null := by
  unfold optional defaulted at h
  split at h
  · cases h
    nofun
  · exact read?_option_ne_null h

theorem Record.defaulted_cases {default a : α} (h : defaulted default slots i = some a) :
    a = default ∨ ∃ v, read? v = some a := by
  unfold defaulted at h
  split at h
  · exact .inl (Option.some.inj h).symm
  · exact .inr ⟨_, h⟩

/-- Every entry of a map that was read was read itself. -/
theorem read?_of_mem_dict {dict : Dict α} (h : read? v = some dict) {entry : String × α}
    (hentry : entry ∈ dict.entries) : ∃ member, read? member = some entry.2 := by
  cases v with
  | obj members =>
    obtain ⟨entries, hentries, hdict⟩ := Option.bind_eq_some_iff.1 h
    cases hdict
    obtain ⟨member, -, hmember⟩ := exists_of_mem_mapM hentries (Fields.mem_ofList hentry)
    obtain ⟨a, ha, heq⟩ := Option.bind_eq_some_iff.1 hmember
    cases heq
    exact ⟨member.2, ha⟩
  | _ => cases h

end

/-! ### Shapes and descriptors -/

variable {v : Json}

/-- No null is given for the data of the event. -/
def EventShape.NoNull (s : EventShape) : Prop := s.data ≠ some .null

/-- No null is given for the message or the response. -/
def MethodShape.NoNull (s : MethodShape) : Prop := s.msg ≠ some .null ∧ s.resp ≠ some .null

namespace EventShape

variable {s : EventShape}

theorem noNull_of_read (h : read? v = some s) : s.NoNull := by
  obtain ⟨slots, -, h⟩ := Option.bind_eq_some_iff.1 h
  obtain ⟨data, hdata, h⟩ := Option.bind_eq_some_iff.1 h
  obtain ⟨methods, -, h⟩ := Option.bind_eq_some_iff.1 h
  cases h
  exact optional_ne_null hdata

theorem roundTrips (h : s.NoNull) : RoundTrips s := by
  have hslots : slots? ["data", "methods"] (write s) =
      some [s.data, if s.methods.isEmpty then none else some (write s.methods)] :=
    slots?_record rfl (by decide)
  simp only [RoundTrips, read?]
  rw [hslots, Option.bind_eq_bind, Option.bind_some,
    optional_of_slot (a := s.data) (fun v hv => ⟨roundTrips_json v, fun hnull => h (hnull ▸ hv)⟩)
      Option.map_id'.symm,
    defaulted_of_left_out (roundTrips_list fun m _ => roundTrips_string m) List.isEmpty_iff.1 rfl]
  rfl

end EventShape

namespace MethodShape

variable {s : MethodShape}

theorem noNull_of_read (h : read? v = some s) : s.NoNull := by
  obtain ⟨slots, -, h⟩ := Option.bind_eq_some_iff.1 h
  obtain ⟨msg, hmsg, h⟩ := Option.bind_eq_some_iff.1 h
  obtain ⟨resp, hresp, h⟩ := Option.bind_eq_some_iff.1 h
  cases h
  exact ⟨optional_ne_null hmsg, optional_ne_null hresp⟩

theorem roundTrips (h : s.NoNull) : RoundTrips s := by
  have hslots : slots? ["msg", "resp"] (write s) = some [s.msg, s.resp] :=
    slots?_record rfl (by decide)
  simp only [RoundTrips, read?]
  rw [hslots, Option.bind_eq_bind, Option.bind_some,
    optional_of_slot (a := s.msg) (fun v hv => ⟨roundTrips_json v, fun hnull => h.1 (hnull ▸ hv)⟩)
      Option.map_id'.symm,
    optional_of_slot (a := s.resp) (fun v hv => ⟨roundTrips_json v, fun hnull => h.2 (hnull ▸ hv)⟩)
      Option.map_id'.symm]
  rfl

end MethodShape

namespace Descriptor

variable {d : Descriptor}

/-- No null is given where one would be read as nothing. -/
structure NoNull (d : Descriptor) : Prop where
  events : ∀ entry ∈ d.events.entries, entry.2.NoNull
  methods : ∀ entry ∈ d.methods.entries, entry.2.NoNull

theorem noNull_of_read (h : read? v = some d) : d.NoNull := by
  obtain ⟨slots, -, h⟩ := Option.bind_eq_some_iff.1 h
  obtain ⟨label, -, h⟩ := Option.bind_eq_some_iff.1 h
  obtain ⟨version, -, h⟩ := Option.bind_eq_some_iff.1 h
  obtain ⟨events, hevents, h⟩ := Option.bind_eq_some_iff.1 h
  obtain ⟨methods, hmethods, h⟩ := Option.bind_eq_some_iff.1 h
  cases h
  constructor
  · intro entry hentry
    rcases defaulted_cases hevents with rfl | ⟨read, hread⟩
    · cases hentry
    · obtain ⟨member, hmember⟩ := read?_of_mem_dict hread hentry
      exact EventShape.noNull_of_read hmember
  · intro entry hentry
    rcases defaulted_cases hmethods with rfl | ⟨read, hread⟩
    · cases hentry
    · obtain ⟨member, hmember⟩ := read?_of_mem_dict hread hentry
      exact MethodShape.noNull_of_read hmember

theorem roundTrips (h : d.NoNull) : RoundTrips d := by
  have hslots : slots? ["label", "version", "evts", "methods"] (write d) =
      some [d.label.map write, if d.version.isNull then none else some d.version,
        some (write d.events), some (write d.methods)] :=
    slots?_record rfl (by decide)
  have hevents : RoundTrips d.events := roundTrips_dict fun entry hentry =>
    EventShape.roundTrips (h.events entry hentry)
  have hmethods : RoundTrips d.methods := roundTrips_dict fun entry hentry =>
    MethodShape.roundTrips (h.methods entry hentry)
  simp only [RoundTrips, read?]
  rw [hslots, Option.bind_eq_bind, Option.bind_some,
    optional_of_slot (a := d.label) (fun label _ => ⟨roundTrips_string label, nofun⟩) rfl,
    defaulted_of_left_out (roundTrips_json d.version) Json.eq_null_of_isNull rfl,
    defaulted_of_slot hevents .empty rfl, defaulted_of_slot hmethods .empty rfl]
  rfl

/-- A descriptor that was read is read again from what is written for it. -/
theorem read?_write (h : read? v = some d) : read? (write d) = some d :=
  roundTrips (noNull_of_read h)

/-- No member of it is named like an error. -/
theorem isError_write (d : Descriptor) : Ack.isError (write d) = false := by
  have hnone : (write d).get? Ack.errorKey = none :=
    get?_record_of_not_mem (by simp) (by simp [Ack.errorKey])
  exact congrArg Option.isSome hnone

end Descriptor

end Patchbay
