import Patchbay.Proofs.State.Path
import Patchbay.State.Tree

/-!
Which places of a tree hold something. A write puts something at its place, and where nothing stood
there before, every other place that held something still does.
-/

namespace Patchbay

namespace Json

theorem at?_put_self (value : Json) (p : Path) (root : Json) :
    (put value p root).at? p = some value := by
  induction p generalizing root with
  | nil => rfl
  | cons key rest ih =>
    simp only [put, at?, get?, Fields.get?_insert_self, Option.bind_some]
    exact ih _

/-- What is written where nothing stood hides nothing. -/
theorem isSome_at?_put {p q : Path} {root : Json} (value : Json) (hfree : root.at? p = none)
    (hheld : (root.at? q).isSome = true) : ((put value p root).at? q).isSome = true := by
  induction p generalizing q root with
  | nil => cases hfree
  | cons key rest ih =>
    cases q with
    | nil => rfl
    | cons other below =>
      simp only [at?, get?_eq_members? _ root] at hfree hheld
      simp only [put, at?, get?]
      by_cases hkey : other = key
      · subst hkey
        rw [Fields.get?_insert_self, Option.bind_some]
        cases hmember : Fields.get? other (root.members?.getD []) with
        | none => simp [hmember] at hheld
        | some v =>
          rw [hmember, Option.bind_some] at hfree hheld
          exact ih hfree hheld
      · rwa [Fields.get?_insert_of_ne hkey]

end Json

namespace Tree

theorem contains_set_self (t : Tree) (path : String) (value : Json) :
    (t.set path value).contains path = true := by
  simp [contains, get?, set, Json.at?_put_self]

theorem contains_setDefault_self (t : Tree) (path : String) (value : Json) :
    (t.setDefault path value).contains path = true := by
  unfold setDefault
  split
  · assumption
  · exact t.contains_set_self path value

/-- A default takes nothing away. -/
theorem contains_setDefault {t : Tree} {place : String} (h : t.contains place = true)
    (path : String) (value : Json) : (t.setDefault path value).contains place = true := by
  unfold setDefault
  split
  · exact h
  · rename_i hfree
    exact Json.isSome_at?_put value (by simpa [contains, get?] using hfree) h

theorem setDefault_of_contains {t : Tree} {path : String} (h : t.contains path = true)
    (value : Json) :
    t.setDefault path value = t := by
  simp [setDefault, h]

end Tree

end Patchbay
