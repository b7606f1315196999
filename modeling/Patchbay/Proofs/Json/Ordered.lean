import Patchbay.Json.Parser

/-! Every object of a document that was read names its members in order and each of them once.
The reader builds its objects by insertion, and what it has in hand at any moment is in order
already. -/

namespace Patchbay

namespace Json

/-- Along objects, all members stand in the order of their names. -/
inductive Ordered : Json → Prop
  | object {members : Fields Json} (hsorted : members.Sorted)
    (hmembers : ∀ entry ∈ members, Ordered entry.2) : Ordered (.obj members)
  | other {v : Json} (hv : v.members? = none) : Ordered v

variable {members : Fields Json} {v : Json} {key : String}

theorem Ordered.sorted (h : Ordered (.obj members)) : members.Sorted := by
  cases h with
  | object hsorted _ => exact hsorted
  | other hv => cases hv

theorem Ordered.of_mem (h : Ordered (.obj members)) {entry : String × Json}
    (hentry : entry ∈ members) :
    Ordered entry.2 := by
  cases h with
  | object _ hmembers => exact hmembers entry hentry
  | other hv => cases hv

theorem Ordered.get? (h : Ordered (.obj members)) (hget : members.get? key = some v) : v.Ordered :=
  h.of_mem (Fields.mem_of_get? hget)

theorem ordered_nil : Ordered (.obj []) := .object .nil fun _ hentry => nomatch hentry

theorem Ordered.insert (h : Ordered (.obj members)) (hv : v.Ordered) (key : String) :
    Ordered (.obj (members.insert key v)) := by
  refine .object (Fields.sorted_insert key v h.sorted) fun entry hentry => ?_
  rcases Fields.mem_insert hentry with rfl | hold
  · exact hv
  · exact h.of_mem hold

/-! ### Numbers and words -/

/-- If anything was read, it is no object. -/
def Plain : Except Fault (Json × List Char) → Prop
  | .ok (v, _) => v.members? = none
  | .error _ => True

namespace Number

theorem plain_scale (negative : Bool) (value : Nat) (e : Int) (rest : List Char) :
    Plain ((scale negative value e).map (·, rest)) := by
  unfold scale
  dsimp only
  repeat' split
  all_goals first | rfl | trivial

theorem plain_readExponent (negative : Bool) (value : Nat) (e : Int) (cs : List Char) :
    Plain (readExponent negative value e cs) := by
  unfold readExponent
  dsimp only
  repeat' split
  all_goals first | exact plain_scale .. | rfl | trivial

theorem plain_readFraction (negative : Bool) (value : Nat) (e : Int) (cs : List Char) :
    Plain (readFraction negative value e cs) := by
  unfold readFraction
  dsimp only
  repeat' split
  all_goals first | exact plain_scale .. | exact plain_readExponent .. | trivial

theorem plain_finish (negative : Bool) (run : Digits) : Plain (read.finish negative run) := by
  unfold read.finish ofInteger
  repeat' split
  all_goals first | exact plain_scale .. | rfl

theorem plain_read (negative : Bool) (cs : List Char) : Plain (read negative cs) := by
  unfold read
  dsimp only
  repeat' split
  all_goals
    first
    | exact plain_finish ..
    | exact plain_readFraction ..
    | exact plain_readExponent ..
    | trivial

end Number

theorem plain_readWord (hv : v.members? = none) (word cs : List Char) :
    Plain (readWord v word cs) := by
  induction word generalizing cs with
  | nil => exact hv
  | cons w word ih =>
    cases cs with
    | nil => trivial
    | cons c cs =>
      unfold readWord
      split
      · exact ih cs
      · trivial

theorem plain_readScalar (c : Char) (cs : List Char) : Plain (readScalar c cs) := by
  unfold readScalar
  repeat' split
  · exact plain_readWord rfl ..
  · exact plain_readWord rfl ..
  · exact plain_readWord rfl ..
  · cases stringAfterQuote cs with
    | error => trivial
    | ok => rfl
  · exact Number.plain_read ..
  · exact Number.plain_read ..
  · trivial

/-! ### The reader -/

def Frame.Ordered : Frame → Prop
  | .items _ => True
  | .members done _ => Json.Ordered (.obj done)

def Expect.Ordered : Expect → Prop
  | .key done | .colon done _ | .nextMember done => Json.Ordered (.obj done)
  | .nothing v => v.Ordered
  | _ => True

namespace Reader

/-- All that a reader has in hand is in order. -/
structure Ordered (r : Reader) : Prop where
  frames : ∀ frame ∈ r.stack, frame.Ordered
  next : r.expect.Ordered

/-- If a step was made, what it left in hand is in order. -/
def Keeps : Except Fault (Reader × List Char) → Prop
  | .ok (r, _) => r.Ordered
  | .error _ => True

variable {stack : List Frame} {r : Reader}

theorem ordered_start : start.Ordered := ⟨List.forall_mem_nil _, trivial⟩

theorem ordered_put (hstack : ∀ frame ∈ stack, frame.Ordered) (hv : v.Ordered) :
    (put stack v).Ordered := by
  cases stack with
  | nil => exact ⟨hstack, hv⟩
  | cons frame stack =>
    obtain ⟨hframe, hrest⟩ := List.forall_mem_cons.1 hstack
    cases frame with
    | items done => exact ⟨hrest, trivial⟩
    | members done key => exact ⟨hrest, Json.Ordered.insert hframe hv key⟩

theorem keeps_readValue (hstack : ∀ frame ∈ stack, frame.Ordered) (c : Char) (cs : List Char) :
    Keeps (readValue stack c cs) := by
  unfold readValue
  repeat' split
  · exact ⟨hstack, trivial⟩
  · trivial
  · exact ⟨hstack, trivial⟩
  · trivial
  · have hplain := plain_readScalar c cs
    cases hread : readScalar c cs with
    | error fault => trivial
    | ok found =>
      rw [hread] at hplain
      exact ordered_put hstack (.other hplain)

theorem keeps_readKey {done : Fields Json} (hstack : ∀ frame ∈ stack, frame.Ordered)
    (hdone : Json.Ordered (.obj done)) (c : Char) (cs : List Char) :
    Keeps (readKey stack done c cs) := by
  unfold readKey
  split
  · cases stringAfterQuote cs with
    | error => trivial
    | ok => exact ⟨hstack, hdone⟩
  · trivial

theorem keeps_step (hr : r.Ordered) (c : Char) (cs : List Char) : Keeps (r.step c cs) := by
  obtain ⟨stack, expect⟩ := r
  obtain ⟨hstack, hnext⟩ := hr
  cases expect with
  | value => exact keeps_readValue hstack c cs
  | firstItem =>
    unfold step
    dsimp only
    split
    · exact ordered_put hstack (.other rfl)
    · have hframes : ∀ frame ∈ Frame.items [] :: stack, frame.Ordered :=
        List.forall_mem_cons.2 ⟨trivial, hstack⟩
      exact keeps_readValue hframes c cs
  | nextItem done =>
    unfold step
    dsimp only
    repeat' split
    · exact ordered_put hstack (.other rfl)
    · exact ⟨List.forall_mem_cons.2 ⟨trivial, hstack⟩, trivial⟩
    · trivial
  | firstKey =>
    unfold step
    dsimp only
    split
    · exact ordered_put hstack ordered_nil
    · exact keeps_readKey hstack ordered_nil c cs
  | key done => exact keeps_readKey hstack hnext c cs
  | colon done key =>
    unfold step
    dsimp only
    split
    · exact ⟨List.forall_mem_cons.2 ⟨hnext, hstack⟩, trivial⟩
    · trivial
  | nextMember done =>
    unfold step
    dsimp only
    repeat' split
    · exact ordered_put hstack hnext
    · exact ⟨hstack, hnext⟩
    · trivial
  | nothing result => trivial

theorem ordered_of_finish (hr : r.Ordered) (h : r.finish = .ok v) : v.Ordered := by
  obtain ⟨stack, expect⟩ := r
  cases expect <;> cases h
  exact hr.next

theorem ordered_of_run {fuel : Nat} {cs : List Char} (hr : r.Ordered) (h : run fuel r cs = .ok v) :
    v.Ordered := by
  induction fuel generalizing r cs with
  | zero => exact ordered_of_finish hr h
  | succ fuel ih =>
    unfold run at h
    split at h
    · exact ordered_of_finish hr h
    · rename_i c cs _
      have hkeeps := keeps_step hr c cs
      split at h
      · cases h
      · rename_i hstep
        rw [hstep] at hkeeps
        exact ih hkeeps h

end Reader

/-- A document that was read names no member twice, and all of them in order. -/
theorem ordered_of_parse {text : String} (h : parse text = .ok v) : v.Ordered :=
  Reader.ordered_of_run Reader.ordered_start h

end Json

end Patchbay
