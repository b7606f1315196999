import Patchbay.Json.Basic

/-! Places in a JSON document. A path is a list of member names, written with dots or
slashes between them; empty names are dropped, so doubled separators do not count. -/

namespace Patchbay

abbrev Path := List String

namespace Path

def isSeparator (c : Char) : Bool := c == '.' || c == '/'

private def pieces : List Char → List (List Char)
  | [] => [[]]
  | c :: cs =>
    if isSeparator c then [] :: pieces cs
    else match pieces cs with
      | piece :: rest => (c :: piece) :: rest
      | [] => [[c]]

def ofString (text : String) : Path :=
  ((pieces text.toList).filter (!·.isEmpty)).map String.ofList

private theorem exists_pieces_eq_cons (cs : List Char) :
    ∃ piece rest, pieces cs = piece :: rest := by
  cases cs with
  | nil => exact ⟨[], [], rfl⟩
  | cons c cs =>
    unfold pieces
    split
    · exact ⟨_, _, rfl⟩
    · split <;> exact ⟨_, _, rfl⟩

private theorem pieces_append_separator (a b : List Char) {c : Char} (hc : isSeparator c = true) :
    pieces (a ++ c :: b) = pieces a ++ pieces b := by
  induction a with
  | nil => simp [pieces, hc]
  | cons d a ih =>
    obtain ⟨piece, rest, hpieces⟩ := exists_pieces_eq_cons a
    simp only [List.cons_append, pieces, ih, hpieces]
    split <;> rfl

private theorem pieces_of_unseparated {name : List Char} (h : ∀ c ∈ name, isSeparator c = false) :
    pieces name = [name] := by
  induction name with
  | nil => rfl
  | cons c name ih =>
    obtain ⟨hc, hname⟩ := List.forall_mem_cons.1 h
    simp [pieces, hc, ih hname]

/-- A separator parts the names in front of it from those behind it. -/
theorem ofString_append_separator (a b : String) {c : Char} (hc : isSeparator c = true) :
    ofString (a ++ c.toString ++ b) = ofString a ++ ofString b := by
  simp [ofString, pieces_append_separator _ _ hc]

/-- A text without separators is one name, if it is any. -/
theorem ofString_of_unseparated {name : String} (h : ∀ c ∈ name.toList, isSeparator c = false) :
    ofString name = if name = "" then [] else [name] := by
  by_cases hname : name = ""
  · subst hname
    rfl
  · have hlist : name.toList ≠ [] := fun hnil => hname (String.toList_eq_nil_iff.1 hnil)
    simp [ofString, pieces_of_unseparated h, hname, hlist]

/-- One of the two paths leads through the other's place. -/
def related : Path → Path → Bool
  | [], _ => true
  | _, [] => true
  | a :: as, b :: bs => a == b && related as bs

end Path

namespace Json

/-- The value at a place, reached through objects. -/
def at? : Path → Json → Option Json
  | [], v => some v
  | key :: rest, v => (v.get? key).bind (at? rest)

/-- Writes a value at a place. Anything on the way that is no object becomes one. -/
def put (value : Json) : Path → Json → Json
  | [], _ => value
  | key :: rest, v =>
    let members := v.members?.getD []
    .obj (Fields.insert key (put value rest ((Fields.get? key members).getD .null)) members)

end Json

end Patchbay
