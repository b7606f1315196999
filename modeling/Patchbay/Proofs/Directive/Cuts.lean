import Mathlib.Data.List.Basic
import Patchbay.Directive

/-!
Where the cuts of a directive fall: at the first `]`, the last `[`, the first plus and
the only arrow. An arrow is looked for by its three characters, but two sides without
operators leave no choice, also where one of them ends or starts with dashes.
-/

namespace Patchbay.Directive

/-! ### At one character -/

theorem cutFirst_eq_none {c : Char} {cs : List Char} : cutFirst c cs = none ↔ c ∉ cs := by
  induction cs with
  | nil => simp [cutFirst]
  | cons d cs ih =>
    by_cases hsame : d = c
    · simp [cutFirst, hsame]
    · simp [cutFirst, hsame, ih, Ne.symm hsame]

theorem cutFirst_append {c : Char} {left : List Char} (right : List Char) (hclear : c ∉ left) :
    cutFirst c (left ++ c :: right) = some (left, right) := by
  induction left with
  | nil => simp [cutFirst]
  | cons d left ih =>
    simp only [List.mem_cons, not_or] at hclear
    simp [cutFirst, Ne.symm hclear.1, ih hclear.2]

/-- The first `c` is found, and nothing before it is one. -/
theorem cutFirst_eq_some {c : Char} {cs left right : List Char} :
    cutFirst c cs = some (left, right) ↔ cs = left ++ c :: right ∧ c ∉ left := by
  constructor
  · intro hcut
    induction cs generalizing left with
    | nil => simp [cutFirst] at hcut
    | cons d cs ih =>
      by_cases hsame : d = c
      · simp only [cutFirst, hsame, if_true, Option.some.injEq, Prod.mk.injEq] at hcut
        simp [← hcut.1, ← hcut.2, hsame]
      · simp only [cutFirst, hsame, if_false, Option.map_eq_some_iff, Prod.mk.injEq,
          Prod.exists] at hcut
        obtain ⟨a, b, hinner, rfl, rfl⟩ := hcut
        obtain ⟨rfl, hclear⟩ := ih hinner
        simp [hclear, Ne.symm hsame]
  · rintro ⟨rfl, hclear⟩
    exact cutFirst_append right hclear

theorem cutLast_eq_none {c : Char} {cs : List Char} : cutLast c cs = none ↔ c ∉ cs := by
  induction cs with
  | nil => simp [cutLast]
  | cons d cs ih =>
    cases hfound : cutLast c cs with
    | none => simp [cutLast, hfound, ih.mp hfound, eq_comm]
    | some cut => simp [cutLast, hfound, show c ∈ cs by simpa [hfound] using ih.not]

theorem cutLast_append {c : Char} (left : List Char) {right : List Char} (hclear : c ∉ right) :
    cutLast c (left ++ c :: right) = some (left, right) := by
  induction left with
  | nil => simp [cutLast, cutLast_eq_none.mpr hclear]
  | cons d left ih => simp [cutLast, ih]

/-- The last `c` is found, and nothing behind it is one. -/
theorem cutLast_eq_some {c : Char} {cs left right : List Char} :
    cutLast c cs = some (left, right) ↔ cs = left ++ c :: right ∧ c ∉ right := by
  constructor
  · intro hcut
    induction cs generalizing left with
    | nil => simp [cutLast] at hcut
    | cons d cs ih =>
      cases hfound : cutLast c cs with
      | none =>
        by_cases hsame : d = c
        · simp only [cutLast, hfound, hsame, if_true, Option.some.injEq, Prod.mk.injEq] at hcut
          obtain ⟨rfl, rfl⟩ := hcut
          exact ⟨by simp [hsame], cutLast_eq_none.mp hfound⟩
        · simp [cutLast, hfound, hsame] at hcut
      | some inner =>
        obtain ⟨a, b⟩ := inner
        simp only [cutLast, hfound, Option.some.injEq, Prod.mk.injEq] at hcut
        obtain ⟨rfl, rfl⟩ := hcut
        obtain ⟨rfl, hclear⟩ := ih hfound
        exact ⟨rfl, hclear⟩
  · rintro ⟨rfl, hclear⟩
    exact cutLast_append left hclear

/-! ### At an arrow -/

/-- The operator character in an arrow. -/
def angle : Arrow → Char
  | .forward => '>'
  | .backward => '<'

theorem isOperator_angle (arrow : Arrow) : isOperator (angle arrow) = true := by
  cases arrow <;> decide

theorem cutMark_eq_none {arrow : Arrow} {cs : List Char} (hclear : angle arrow ∉ cs) :
    cutMark arrow.mark cs = none := by
  induction cs with
  | nil => simp [cutMark]
  | cons d cs ih =>
    have hinside : angle arrow ∈ arrow.mark := by cases arrow <;> decide
    have helsewhere : ¬arrow.mark <+: d :: cs := fun hstart => hclear (hstart.subset hinside)
    have hrest : angle arrow ∉ cs := fun hlater => hclear (List.mem_cons_of_mem d hlater)
    simp [cutMark, helsewhere, ih hrest]

/-- An arrow starts or ends with its angle, so none starts before the first one is
complete. -/
theorem not_mark_prefix {arrow : Arrow} {d : Char} {left : List Char} (right : List Char)
    (hclear : angle arrow ∉ d :: left) :
    ¬arrow.mark <+: d :: (left ++ (arrow.mark ++ right)) := by
  cases arrow with
  | backward => simp_all [Arrow.mark, angle]
  | forward =>
    rcases left with _ | ⟨e, _ | ⟨f, left⟩⟩
    · simp [Arrow.mark]
    · simp [Arrow.mark]
    · simp_all [Arrow.mark, angle]

theorem cutMark_append {arrow : Arrow} {left : List Char} (right : List Char)
    (hclear : angle arrow ∉ left) :
    cutMark arrow.mark (left ++ (arrow.mark ++ right)) = some (left, right) := by
  induction left with
  | nil => cases arrow <;> simp [cutMark, Arrow.mark]
  | cons d left ih =>
    have hrest : angle arrow ∉ left := fun hlater => hclear (List.mem_cons_of_mem d hlater)
    simp [cutMark, not_mark_prefix right hclear, ih hrest]

theorem eq_of_cutMark {mark cs left right : List Char}
    (hcut : cutMark mark cs = some (left, right)) :
    cs = left ++ (mark ++ right) := by
  induction cs generalizing left with
  | nil => simp [cutMark] at hcut
  | cons d cs ih =>
    by_cases hstart : mark <+: d :: cs
    · obtain ⟨rest, hwhole⟩ := hstart
      simp only [cutMark, ← hwhole, List.isPrefixOf_iff_prefix, List.prefix_append, if_true,
        List.drop_left, Option.some.injEq, Prod.mk.injEq] at hcut
      rw [← hcut.1, ← hcut.2, List.nil_append, hwhole]
    · simp only [cutMark, List.isPrefixOf_iff_prefix, hstart, if_false, Option.map_eq_some_iff,
        Prod.mk.injEq, Prod.exists] at hcut
      obtain ⟨a, b, hinner, rfl, rfl⟩ := hcut
      rw [ih hinner, List.cons_append]

/-! ### The body -/

/-- Free of operators. -/
def Plain (cs : List Char) : Prop := ∀ c ∈ cs, isOperator c = false

theorem any_isOperator {cs : List Char} : cs.any isOperator = false ↔ Plain cs := by
  simp [Plain]

theorem Plain.angle_notMem {cs : List Char} (hplain : Plain cs) (arrow : Arrow) :
    angle arrow ∉ cs := by
  intro hinside
  simpa [isOperator_angle arrow] using hplain _ hinside

theorem sides_whole {arrow : Arrow} {cs : List Char} (hclear : angle arrow ∉ cs) :
    sides arrow cs = .whole := by
  simp [sides, cutMark_eq_none hclear]

theorem sides_once (arrow : Arrow) {left right : List Char} (hbefore : Plain left)
    (hbehind : Plain right) : sides arrow (left ++ (arrow.mark ++ right)) = .once left right := by
  simp [sides, cutMark_append right (hbefore.angle_notMem arrow),
    cutMark_eq_none (hbehind.angle_notMem arrow)]

theorem eq_of_sides {arrow : Arrow} {cs left right : List Char}
    (hcut : sides arrow cs = .once left right) : cs = left ++ (arrow.mark ++ right) := by
  cases hfound : cutMark arrow.mark cs with
  | none => simp [sides, hfound] at hcut
  | some around =>
    simp only [sides, hfound] at hcut
    split at hcut
    · simp at hcut
    · simp only [Sides.once.injEq] at hcut
      rw [eq_of_cutMark hfound, hcut.1, hcut.2]

theorem splitBody_plain {body : List Char} (hplain : Plain body) :
    splitBody body = some ⟨body, none, none⟩ := by
  simp [splitBody, sides_whole (hplain.angle_notMem _)]

theorem splitBody_arrow (arrow : Arrow) {left right : List Char} (hbefore : Plain left)
    (hbehind : Plain right) :
    splitBody (left ++ (arrow.mark ++ right)) = some ⟨left, some right, some arrow⟩ := by
  have hhere := sides_once arrow hbefore hbehind
  have hother : ∀ other, other ≠ arrow → angle other ∉ left ++ (arrow.mark ++ right) := by
    intro other hdiffers
    have hapart : angle other ∉ arrow.mark := by
      cases other <;> cases arrow <;> first | exact absurd rfl hdiffers | decide
    simp [hbefore.angle_notMem other, hbehind.angle_notMem other, hapart]
  cases arrow with
  | forward => simp [splitBody, hhere, sides_whole (hother .backward (by decide))]
  | backward => simp [splitBody, hhere, sides_whole (hother .forward (by decide))]

/-- A body is a text without arrow, or two sides around one. -/
theorem splitBody_eq_some {cs left : List Char} {right : Option (List Char)}
    {arrow : Option Arrow} (hcut : splitBody cs = some ⟨left, right, arrow⟩) :
    cs = left ∧ right = none ∧ arrow = none ∨
      ∃ mark behind, cs = left ++ (mark.mark ++ behind) ∧ right = some behind ∧
        arrow = some mark := by
  unfold splitBody at hcut
  split at hcut
  · simp only [Option.some.injEq, Body.mk.injEq] at hcut
    exact .inl ⟨hcut.1, hcut.2.1.symm, hcut.2.2.symm⟩
  · rename_i honce _
    simp only [Option.some.injEq, Body.mk.injEq] at hcut
    exact .inr ⟨.forward, _, by rw [eq_of_sides honce, hcut.1], hcut.2.1.symm, hcut.2.2.symm⟩
  · rename_i honce
    simp only [Option.some.injEq, Body.mk.injEq] at hcut
    exact .inr ⟨.backward, _, by rw [eq_of_sides honce, hcut.1], hcut.2.1.symm, hcut.2.2.symm⟩
  · simp at hcut

end Patchbay.Directive
