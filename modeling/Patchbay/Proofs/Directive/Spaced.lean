import Patchbay.Proofs.Directive.Cuts

/-!
A text spelled by tokens: the tokens in their order, with any number of blanks before,
between and behind them. Trimming such a text changes nothing, and a token in the
middle cuts it into what is spelled before and behind.
-/

namespace Patchbay.Directive

open Text

/-- The text consists of the tokens, and of blanks around them. -/
inductive Spaced : List (List Char) → List Char → Prop where
  | done : Spaced [] []
  | blank {tokens c cs} : isBlank c = true → Spaced tokens cs → Spaced tokens (c :: cs)
  | token (t) {tokens cs} : Spaced tokens cs → Spaced (t :: tokens) (t ++ cs)

namespace Spaced

variable {ts us : List (List Char)} {t cs ds : List Char}

theorem append (hfirst : Spaced ts cs) (hsecond : Spaced us ds) : Spaced (ts ++ us) (cs ++ ds) := by
  induction hfirst with
  | done => exact hsecond
  | blank hspace _ ih => exact ih.blank hspace
  | token t _ ih => simpa using ih.token t

theorem cut (hspelled : Spaced (ts ++ us) cs) :
    ∃ left right, cs = left ++ right ∧ Spaced ts left ∧ Spaced us right := by
  generalize hwhole : ts ++ us = tokens at hspelled
  induction hspelled generalizing ts with
  | done =>
    obtain ⟨rfl, rfl⟩ := List.append_eq_nil_iff.mp hwhole
    exact ⟨[], [], rfl, .done, .done⟩
  | @blank tokens c cs hspace hrest ih =>
    obtain ⟨left, right, rfl, hfirst, hsecond⟩ := ih hwhole
    exact ⟨c :: left, right, rfl, hfirst.blank hspace, hsecond⟩
  | @token t tokens cs hrest ih =>
    cases ts with
    | nil =>
      obtain rfl : us = t :: tokens := hwhole
      exact ⟨[], t ++ cs, rfl, .done, hrest.token t⟩
    | cons t' ts =>
      obtain ⟨rfl, rfl⟩ := List.cons.inj hwhole
      obtain ⟨left, right, rfl, hfirst, hsecond⟩ := ih rfl
      exact ⟨t' ++ left, right, by simp, hfirst.token t', hsecond⟩

/-- A text of one token. -/
theorem cutToken (hspelled : Spaced (t :: us) cs) :
    ∃ left right, cs = left ++ (t ++ right) ∧ Spaced [] left ∧ Spaced us right := by
  generalize hwhole : t :: us = tokens at hspelled
  induction hspelled with
  | done => simp at hwhole
  | @blank tokens c cs hspace hrest ih =>
    obtain ⟨left, right, rfl, hfirst, hsecond⟩ := ih hwhole
    exact ⟨c :: left, right, rfl, hfirst.blank hspace, hsecond⟩
  | @token t' tokens cs hrest ih =>
    obtain ⟨rfl, rfl⟩ := List.cons.inj hwhole
    exact ⟨[], cs, rfl, .done, hrest⟩

end Spaced

/-- Blanks in front of an inner token are counted as being behind the tokens before. -/
theorem spaced_append_cons (ts : List (List Char)) {us : List (List Char)} {t cs : List Char} :
    Spaced (ts ++ t :: us) cs ↔
      ∃ left right, cs = left ++ (t ++ right) ∧ Spaced ts left ∧ Spaced us right := by
  constructor
  · intro hspelled
    obtain ⟨left, rest, rfl, hfirst, hinner⟩ := hspelled.cut
    obtain ⟨blanks, right, rfl, hspaces, hsecond⟩ := hinner.cutToken
    exact ⟨left ++ blanks, right, by simp, by simpa using hfirst.append hspaces, hsecond⟩
  · rintro ⟨left, right, rfl, hfirst, hsecond⟩
    exact hfirst.append (hsecond.token t)

theorem Spaced.mem {ts : List (List Char)} {cs : List Char} (hspelled : Spaced ts cs) {c : Char}
    (hinside : c ∈ cs) : isBlank c = true ∨ ∃ t ∈ ts, c ∈ t := by
  induction hspelled with
  | done => simp at hinside
  | blank hspace _ ih =>
    rcases List.mem_cons.mp hinside with rfl | hlater
    · exact .inl hspace
    · exact ih hlater
  | token t _ ih =>
    rcases List.mem_append.mp hinside with hhere | hlater
    · exact .inr ⟨t, by simp, hhere⟩
    · rcases ih hlater with hspace | ⟨u, hlisted, hthere⟩
      · exact .inl hspace
      · exact .inr ⟨u, by simp [hlisted], hthere⟩

/-! ### Trimming -/

/-- A token: some text without blanks. -/
structure Solid (t : List Char) : Prop where
  nonempty : t ≠ []
  unbroken : ∀ c ∈ t, isBlank c = false

theorem Solid.reverse {t : List Char} (hsolid : Solid t) : Solid t.reverse where
  nonempty := by simpa using hsolid.nonempty
  unbroken c hinside := hsolid.unbroken c (List.mem_reverse.mp hinside)

theorem spaced_reverse {ts : List (List Char)} {cs : List Char} (hspelled : Spaced ts cs) :
    Spaced (ts.reverse.map List.reverse) cs.reverse := by
  induction hspelled with
  | done => exact .done
  | @blank ts c cs hspace _ ih => simpa using ih.append (.blank hspace .done)
  | @token t ts cs _ ih => simpa using ih.append (.token t.reverse .done)

theorem spaced_reverse_iff {ts : List (List Char)} {cs : List Char} :
    Spaced (ts.reverse.map List.reverse) cs.reverse ↔ Spaced ts cs := by
  refine ⟨fun hspelled => ?_, spaced_reverse⟩
  simpa [List.map_reverse] using spaced_reverse hspelled

theorem spaced_dropBlanks {ts : List (List Char)} {cs : List Char} (hsolid : ∀ t ∈ ts, Solid t) :
    Spaced ts (cs.dropWhile isBlank) ↔ Spaced ts cs := by
  induction cs with
  | nil => rfl
  | cons c cs ih =>
    by_cases hspace : isBlank c = true
    · rw [List.dropWhile_cons_of_pos hspace, ih]
      refine ⟨.blank hspace, fun hspelled => ?_⟩
      generalize hwhole : c :: cs = text at hspelled
      cases hspelled with
      | done => simp at hwhole
      | blank _ hrest => exact (List.cons.inj hwhole).2 ▸ hrest
      | token t hrest =>
        have hfirst := hsolid t (by simp)
        cases t with
        | nil => exact absurd rfl hfirst.nonempty
        | cons d t =>
          obtain ⟨rfl, _⟩ := List.cons.inj hwhole
          simp [hfirst.unbroken c (by simp)] at hspace
    · rw [List.dropWhile_cons_of_neg hspace]

theorem spaced_trim {ts : List (List Char)} {cs : List Char} (hsolid : ∀ t ∈ ts, Solid t) :
    Spaced ts (trim cs) ↔ Spaced ts cs := by
  have hturned : ∀ t ∈ ts.reverse.map List.reverse, Solid t := by
    intro t hlisted
    simpa using (hsolid t.reverse (by simpa using hlisted)).reverse
  rw [← spaced_reverse_iff, trim, List.reverse_reverse, spaced_dropBlanks hturned,
    spaced_reverse_iff, spaced_dropBlanks hsolid]

end Patchbay.Directive
