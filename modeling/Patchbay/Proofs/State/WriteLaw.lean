import Patchbay.Proofs.State.Presence

/-!
The law of writes. A write at a path makes three kinds of places: at the path and below it stands
what was written, on the way there are objects that gained one member, and everything else is as it
was. Which place a text names is a matter of its names alone, not of how they are parted.
-/

namespace Patchbay

namespace Path

/-! ### Spellings -/

/-- A text spells a path: its names stand in order, parted by separators, and there may be more of
these anywhere. -/
inductive Spelling : String → Path → Prop
  | nothing : Spelling "" []
  | name {name : String} (hname : name ≠ "") (hfree : ∀ c ∈ name.toList, isSeparator c = false) :
      Spelling name [name]
  | parted {a b : String} {p q : Path} {c : Char} (hc : isSeparator c = true) (ha : Spelling a p)
      (hb : Spelling b q) : Spelling (a ++ c.toString ++ b) (p ++ q)

theorem Spelling.ofString_eq {text : String} {p : Path} (h : Spelling text p) :
    ofString text = p := by
  induction h with
  | nothing => rfl
  | name hname hfree => rw [ofString_of_unseparated hfree, if_neg hname]
  | parted hc _ _ iha ihb => rw [ofString_append_separator _ _ hc, iha, ihb]

theorem spelling_ofString (text : String) : Spelling text (ofString text) := by
  by_cases hfree : ∀ c ∈ text.toList, isSeparator c = false
  · rw [ofString_of_unseparated hfree]
    split
    · rename_i hempty
      exact hempty ▸ .nothing
    · rename_i hname
      exact .name hname hfree
  · -- the text is cut at one of its separators, and both parts are shorter
    simp only [Classical.not_forall, Bool.not_eq_false] at hfree
    obtain ⟨c, hmem, hc⟩ := hfree
    obtain ⟨a, b, hcut⟩ := List.append_of_mem hmem
    have htext : text = String.ofList a ++ c.toString ++ String.ofList b := by
      apply String.toList_injective
      simp [hcut]
    have hshorter : a.length < text.toList.length ∧ b.length < text.toList.length := by
      rw [hcut, List.length_append, List.length_cons]
      omega
    rw [htext, ofString_append_separator _ _ hc]
    exact .parted hc (spelling_ofString _) (spelling_ofString _)
termination_by text.toList.length
decreasing_by all_goals simp only [String.toList_ofList]; omega

theorem ofString_eq_iff_spelling {text : String} {p : Path} : ofString text = p ↔ Spelling text p :=
  ⟨fun h => h ▸ spelling_ofString text, Spelling.ofString_eq⟩

theorem related_iff {p q : Path} : related p q = true ↔ p <+: q ∨ q <+: p := by
  induction p generalizing q with
  | nil => simp [related]
  | cons a as ih =>
    cases q with
    | nil => simp [related]
    | cons b bs =>
      simp only [related, Bool.and_eq_true, beq_iff_eq, ih, List.cons_prefix_cons]
      grind

end Path

namespace Json

/-- What a value holds as an object; of anything else, nothing. -/
def contents (v : Option Json) : Fields Json := (v.bind members?).getD []

theorem at?_append (p q : Path) (v : Json) : v.at? (p ++ q) = (v.at? p).bind (at? q) := by
  induction p generalizing v with
  | nil => rfl
  | cons key rest ih =>
    simp only [List.cons_append, at?]
    cases v.get? key with
    | none => rfl
    | some child => exact ih child

/-- Below the place of a write stands what is there in the written value. -/
theorem at?_put_append (value : Json) (p rest : Path) (root : Json) :
    (put value p root).at? (p ++ rest) = value.at? rest := by
  rw [at?_append, at?_put_self, Option.bind_some]

/-- On its way a write leaves objects; each has its old members, but for the one the write goes
through. -/
theorem at?_put_above (value : Json) (q : Path) (key : String) (rest : Path) (root : Json) :
    (put value (q ++ key :: rest) root).at? q = some (.obj (Fields.insert key
      (put value rest ((Fields.get? key (contents (root.at? q))).getD .null))
        (contents (root.at? q)))) := by
  induction q generalizing root with
  | nil => rfl
  | cons first below ih =>
    have hcontents (child : Option Json) :
        contents ((child.getD .null).at? below) = contents (child.bind (at? below)) := by
      cases child with
      | some v => rfl
      | none => cases below <;> rfl
    have hold : root.at? (first :: below) =
        (Fields.get? first (root.members?.getD [])).bind (at? below) := by
      rw [at?, get?_eq_members?]
    rw [hold, ← hcontents, List.cons_append, put, at?, get?, Fields.get?_insert_self,
      Option.bind_some, ih]

end Json

namespace Tree

/-- Two texts name one place: no operation tells them apart. -/
structure SamePlace (p q : String) : Prop where
  get? : ∀ t : Tree, t.get? p = t.get? q
  contains : ∀ t : Tree, t.contains p = t.contains q
  set : ∀ (t : Tree) (v : Json), t.set p v = t.set q v
  merge : ∀ (t : Tree) (fields : Fields Json), t.merge p fields = t.merge q fields
  setDefault : ∀ (t : Tree) (v : Json), t.setDefault p v = t.setDefault q v
  watch : ∀ t : Tree, t.watch p = t.watch q

theorem samePlace_of_ofString_eq {p q : String} (h : Path.ofString p = Path.ofString q) :
    SamePlace p q := by
  have hget (t : Tree) : t.get? p = t.get? q := by rw [Tree.get?, Tree.get?, h]
  have hset (t : Tree) (v : Json) : t.set p v = t.set q v := by rw [Tree.set, Tree.set, h]
  have hcontains (t : Tree) : t.contains p = t.contains q := by
    rw [Tree.contains, Tree.contains, hget]
  exact {
    get? := hget
    contains := hcontains
    set := hset
    merge := fun t fields => by rw [Tree.merge, Tree.merge, hget, hset]
    setDefault := fun t v => by rw [Tree.setDefault, Tree.setDefault, hcontains, hset]
    watch := fun t => by rw [Tree.watch, Tree.watch, h] }

/-- What a write of a value at a path makes of a tree. -/
structure WriteLaw (t : Tree) (path : String) (v : Json) : Prop where
  below : ∀ place rest, Path.ofString place = Path.ofString path ++ rest →
    (t.set path v).get? place = v.at? rest
  beside : ∀ place, ¬ Path.ofString path <+: Path.ofString place →
    ¬ Path.ofString place <+: Path.ofString path → (t.set path v).get? place = t.get? place
  above : ∀ place key rest, Path.ofString path = Path.ofString place ++ key :: rest →
    ∃ members, (t.set path v).get? place = some (.obj members) ∧
      ∀ other ≠ key, Fields.get? other members = Fields.get? other (Json.contents (t.get? place))
  present : ∀ (tree : Tree) (place : String),
    tree.contains place = true ↔ ∃ found, tree.get? place = some found
  /-- All spellings of a path are one place. -/
  spelled : ∀ names text text', Path.Spelling text names → Path.Spelling text' names →
    SamePlace text text'

/-- Every write is lawful, whatever stood in the tree. -/
theorem set_lawful (t : Tree) (path : String) (v : Json) : WriteLaw t path v where
  below place rest hplace := by
    rw [Tree.get?, hplace]
    exact Json.at?_put_append v _ rest t.root
  beside place hpath hplace := by
    have hapart : Path.related (.ofString place) (.ofString path) = false := by
      rw [← Bool.not_eq_true, Path.related_iff]
      exact not_or.2 ⟨hplace, hpath⟩
    exact Json.at?_put_of_not_related v hapart t.root
  above place key rest hpath := by
    have hobject := Json.at?_put_above v (.ofString place) key rest t.root
    rw [← hpath] at hobject
    exact ⟨_, hobject, fun other hother => Fields.get?_insert_of_ne hother ..⟩
  present tree place := Option.isSome_iff_exists
  spelled names text text' htext htext' :=
    samePlace_of_ofString_eq (htext.ofString_eq.trans htext'.ofString_eq.symm)

example : Path.ofString "/a..b/" = ["a", "b"] := by decide

end Tree

end Patchbay
