/-!
Named entries in the order of their names, by code point. `insert` keeps the
order and replaces the entry of an equal name, so a list built by insertion
names nothing twice.
-/

namespace Patchbay

abbrev Fields (α : Type) := List (String × α)

namespace Fields

variable {α β : Type}

def get? (key : String) : Fields α → Option α
  | [] => none
  | (k, v) :: rest => if k = key then some v else get? key rest

def contains (key : String) (fields : Fields α) : Bool := (fields.get? key).isSome

def insert (key : String) (value : α) : Fields α → Fields α
  | [] => [(key, value)]
  | (k, v) :: rest =>
    if key < k then (key, value) :: (k, v) :: rest
    else if key = k then (key, value) :: rest
    else (k, v) :: insert key value rest

def erase (key : String) : Fields α → Fields α
  | [] => []
  | (k, v) :: rest => if k = key then rest else (k, v) :: erase key rest

/-- Entries of `upper` win over entries of the same name in `lower`. -/
def overlay (lower upper : Fields α) : Fields α :=
  upper.foldl (fun acc entry => acc.insert entry.1 entry.2) lower

def ofList (entries : List (String × α)) : Fields α := overlay [] entries

def keys (fields : Fields α) : List String := fields.map (·.1)

theorem mem_of_get? {key : String} {value : α} {fields : Fields α}
    (h : fields.get? key = some value) : (key, value) ∈ fields := by
  induction fields with
  | nil => cases h
  | cons head rest ih =>
    obtain ⟨k, v⟩ := head
    unfold get? at h
    split at h
    · rename_i heq
      obtain rfl : v = value := Option.some.inj h
      rw [heq]
      exact List.mem_cons_self
    · exact List.mem_cons_of_mem _ (ih h)

@[simp] theorem get?_insert_self (key : String) (value : α) (fields : Fields α) :
    (fields.insert key value).get? key = some value := by
  induction fields with
  | nil => simp [insert, get?]
  | cons head rest ih =>
    obtain ⟨k, v⟩ := head
    unfold insert
    split
    · simp [get?]
    · split
      · simp [get?]
      · rename_i hne
        simp [get?, Ne.symm hne, ih]

theorem get?_insert_of_ne {key other : String} (h : other ≠ key) (value : α) (fields : Fields α) :
    (fields.insert key value).get? other = fields.get? other := by
  induction fields with
  | nil => simp [insert, get?, h.symm]
  | cons head rest ih =>
    obtain ⟨k, v⟩ := head
    unfold insert
    split
    · simp [get?, h.symm]
    · split
      · rename_i heq
        simp [get?, ← heq, h.symm]
      · simp only [get?, ih]

/-- Names strictly increase. -/
def Sorted (fields : Fields α) : Prop := fields.Pairwise (fun a b => a.1 < b.1)

theorem Sorted.nodup_keys {fields : Fields α} (h : fields.Sorted) : fields.keys.Nodup := by
  refine List.pairwise_map.2 (h.imp fun {a b} hlt heq => ?_)
  exact String.lt_irrefl b.1 (heq ▸ hlt)

theorem mem_insert {key : String} {value : α} {fields : Fields α} {entry : String × α}
    (h : entry ∈ fields.insert key value) : entry = (key, value) ∨ entry ∈ fields := by
  induction fields with
  | nil => simpa [insert] using h
  | cons head rest ih =>
    obtain ⟨k, v⟩ := head
    unfold insert at h
    split at h
    · simpa using h
    · split at h
      · rcases List.mem_cons.1 h with h | h
        · exact .inl h
        · exact .inr (List.mem_cons_of_mem _ h)
      · rcases List.mem_cons.1 h with h | h
        · exact .inr (h ▸ List.mem_cons_self)
        · exact (ih h).imp id (List.mem_cons_of_mem _)

theorem sorted_insert (key : String) (value : α) {fields : Fields α} (h : fields.Sorted) :
    (fields.insert key value).Sorted := by
  induction fields with
  | nil => simp [insert, Sorted]
  | cons head rest ih =>
    obtain ⟨k, v⟩ := head
    obtain ⟨hhead, hrest⟩ := List.pairwise_cons.1 h
    unfold insert
    split
    · rename_i hlt
      refine List.pairwise_cons.2 ⟨fun entry hentry => ?_, h⟩
      rcases List.mem_cons.1 hentry with rfl | hmem
      · exact hlt
      · exact String.lt_trans hlt (hhead entry hmem)
    · split
      · rename_i heq
        exact List.pairwise_cons.2 ⟨fun entry hentry => heq ▸ hhead entry hentry, hrest⟩
      · rename_i hnlt hne
        refine List.pairwise_cons.2 ⟨fun entry hentry => ?_, ih hrest⟩
        rcases mem_insert hentry with rfl | hmem
        · exact String.not_le.1 fun hle => hnlt (Std.lt_of_le_of_ne hle hne)
        · exact hhead entry hmem

theorem sorted_overlay {lower : Fields α} (upper : Fields α) (h : lower.Sorted) :
    (lower.overlay upper).Sorted := by
  induction upper generalizing lower with
  | nil => exact h
  | cons head rest ih => exact ih (sorted_insert head.1 head.2 h)

theorem sorted_ofList (entries : List (String × α)) : (ofList entries).Sorted :=
  sorted_overlay entries List.Pairwise.nil

end Fields

/-- A finite map from names, held in the order of the names. -/
structure Dict (α : Type) where
  entries : Fields α
  sorted : entries.Sorted

namespace Dict

variable {α β : Type}

def empty : Dict α := ⟨[], List.Pairwise.nil⟩

instance : Inhabited (Dict α) := ⟨empty⟩
instance : EmptyCollection (Dict α) := ⟨empty⟩

def ofList (entries : List (String × α)) : Dict α := ⟨.ofList entries, Fields.sorted_ofList entries⟩

def get? (key : String) (dict : Dict α) : Option α := dict.entries.get? key

def contains (key : String) (dict : Dict α) : Bool := dict.entries.contains key

def insert (key : String) (value : α) (dict : Dict α) : Dict α :=
  ⟨dict.entries.insert key value, Fields.sorted_insert key value dict.sorted⟩

def keys (dict : Dict α) : List String := dict.entries.keys

def isEmpty (dict : Dict α) : Bool := dict.entries.isEmpty

end Dict

end Patchbay
