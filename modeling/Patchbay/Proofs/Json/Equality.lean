import Patchbay.Json.Basic

/-! Equality of JSON values is an equivalence relation. Since there is no NaN among the
doubles, reflexivity holds without exception. -/

namespace Patchbay

namespace Double

theorem same_refl (x : Double) : x.same x = true := by simp [same]

theorem same_symm {x y : Double} (h : x.same y = true) : y.same x = true := by
  simp only [same, Bool.and_eq_true, Bool.or_eq_true, beq_iff_eq] at h ⊢
  obtain ⟨hcode, hsign⟩ := h
  exact ⟨hcode.symm, hsign.imp Eq.symm fun hzero => hcode ▸ hzero⟩

theorem same_trans {x y z : Double} (hxy : x.same y = true) (hyz : y.same z = true) :
    x.same z = true := by
  simp only [same, Bool.and_eq_true, Bool.or_eq_true, beq_iff_eq] at hxy hyz ⊢
  obtain ⟨hcode, hsign⟩ := hxy
  obtain ⟨hcode', hsign'⟩ := hyz
  refine ⟨hcode.trans hcode', ?_⟩
  rcases hsign with hsign | hzero
  · exact hsign'.imp hsign.trans fun hzero => hcode ▸ hzero
  · exact .inr hzero

end Double

namespace Json

mutual

theorem same_refl : ∀ v : Json, same v v = true
  | .null => rfl
  | .bool b => by simp [same]
  | .int n => by simp [same]
  | .double x => by simp [same, Double.same_refl]
  | .str s => by simp [same]
  | .arr items => by simp [same, sameItems_refl items]
  | .obj members => by simp [same, sameMembers_refl members]

theorem sameItems_refl : ∀ items : List Json, sameItems items items = true
  | [] => rfl
  | v :: rest => by simp [sameItems, same_refl v, sameItems_refl rest]

theorem sameMembers_refl : ∀ members : List (String × Json), sameMembers members members = true
  | [] => rfl
  | (_, v) :: rest => by simp [sameMembers, same_refl v, sameMembers_refl rest]

end

mutual

theorem same_symm : ∀ {a b : Json}, same a b = true → same b a = true := by
  intro a b h
  cases a <;> cases b <;> simp only [same, Bool.false_eq_true, beq_iff_eq] at h ⊢
  case bool => exact h.symm
  case int => exact h.symm
  case double => exact Double.same_symm h
  case str => exact h.symm
  case arr => exact sameItems_symm h
  case obj => exact sameMembers_symm h

theorem sameItems_symm :
    ∀ {as bs : List Json}, sameItems as bs = true → sameItems bs as = true := by
  intro as bs h
  cases as <;> cases bs <;> simp only [sameItems, Bool.false_eq_true, Bool.and_eq_true] at h ⊢
  exact ⟨same_symm h.1, sameItems_symm h.2⟩

theorem sameMembers_symm : ∀ {as bs : List (String × Json)},
    sameMembers as bs = true → sameMembers bs as = true := by
  intro as bs h
  cases as <;> cases bs <;>
    simp only [sameMembers, Bool.false_eq_true, Bool.and_eq_true, beq_iff_eq] at h ⊢
  exact ⟨⟨h.1.1.symm, same_symm h.1.2⟩, sameMembers_symm h.2⟩

end

mutual

theorem same_trans : ∀ {a b c : Json}, same a b = true → same b c = true → same a c = true := by
  intro a b c hab hbc
  cases a <;> cases b <;> simp only [same, Bool.false_eq_true, beq_iff_eq] at hab <;>
    cases c <;> simp only [same, Bool.false_eq_true, beq_iff_eq] at hbc ⊢
  case bool => exact hab.trans hbc
  case int => exact hab.trans hbc
  case double => exact Double.same_trans hab hbc
  case str => exact hab.trans hbc
  case arr => exact sameItems_trans hab hbc
  case obj => exact sameMembers_trans hab hbc
termination_by structural a => a

theorem sameItems_trans : ∀ {as bs cs : List Json},
    sameItems as bs = true → sameItems bs cs = true → sameItems as cs = true := by
  intro as bs cs hab hbc
  cases as <;> cases bs <;> simp only [sameItems, Bool.false_eq_true, Bool.and_eq_true] at hab <;>
    cases cs <;> simp only [sameItems, Bool.false_eq_true, Bool.and_eq_true] at hbc ⊢
  exact ⟨same_trans hab.1 hbc.1, sameItems_trans hab.2 hbc.2⟩
termination_by structural as => as

theorem sameMembers_trans : ∀ {as bs cs : List (String × Json)},
    sameMembers as bs = true → sameMembers bs cs = true → sameMembers as cs = true := by
  intro as bs cs hab hbc
  cases as <;> cases bs <;>
    simp only [sameMembers, Bool.false_eq_true, Bool.and_eq_true, beq_iff_eq] at hab <;>
    cases cs <;>
    simp only [sameMembers, Bool.false_eq_true, Bool.and_eq_true, beq_iff_eq] at hbc ⊢
  exact ⟨⟨hab.1.1.trans hbc.1.1, same_trans hab.1.2 hbc.1.2⟩, sameMembers_trans hab.2 hbc.2⟩
termination_by structural as => as

end

theorem sameOption_refl (a : Option Json) : sameOption a a = true := by
  cases a <;> simp [sameOption, same_refl]

theorem sameOption_symm {a b : Option Json} (h : sameOption a b = true) :
    sameOption b a = true := by
  cases a <;> cases b <;> simp only [sameOption, Bool.false_eq_true] at h ⊢
  exact same_symm h

theorem sameOption_trans {a b c : Option Json} (hab : sameOption a b = true)
    (hbc : sameOption b c = true) : sameOption a c = true := by
  cases a <;> cases b <;> simp only [sameOption, Bool.false_eq_true] at hab <;>
    cases c <;> simp only [sameOption, Bool.false_eq_true] at hbc ⊢
  exact same_trans hab hbc

/-- Of two equal values either may stand on the left of a comparison. -/
theorem sameOption_congr {a b : Option Json} (hab : sameOption a b = true) (c : Option Json) :
    sameOption c a = sameOption c b := by
  rw [Bool.eq_iff_iff]
  exact ⟨fun h => sameOption_trans h hab, fun h => sameOption_trans h (sameOption_symm hab)⟩

end Json

end Patchbay
