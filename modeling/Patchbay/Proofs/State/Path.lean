import Patchbay.State.Path

/-! Reading at one place after a write at another. -/

namespace Patchbay

namespace Json

theorem get?_eq_members? (key : String) (v : Json) :
    v.get? key = Fields.get? key (v.members?.getD []) := by
  cases v <;> rfl

/-- A write changes nothing at a place that is neither on its way nor below it. -/
theorem at?_put_of_not_related (value : Json) {p q : Path} (h : Path.related p q = false)
    (root : Json) : (put value q root).at? p = root.at? p := by
  induction p generalizing q root with
  | nil => simp [Path.related] at h
  | cons key rest ih =>
    cases q with
    | nil => simp [Path.related] at h
    | cons other below =>
      simp only [Path.related, Bool.and_eq_false_imp, beq_iff_eq] at h
      simp only [put, at?, get?_eq_members? key root]
      by_cases hkey : key = other
      · subst hkey
        have hrest := h rfl
        simp only [get?, Fields.get?_insert_self, Option.bind_some, ih hrest]
        cases Fields.get? key (root.members?.getD []) with
        | some v => rfl
        | none =>
          -- a place below nothing is absent, and the rest leads below
          cases rest with
          | nil => simp [Path.related] at hrest
          | cons => rfl
      · simp only [get?, Fields.get?_insert_of_ne hkey]

end Json

end Patchbay
