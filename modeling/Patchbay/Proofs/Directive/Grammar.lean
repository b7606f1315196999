import Patchbay.Proofs.Directive.Spaced

/-!
The grammar of directives, and the parser as its reader: what parses is what the grammar
spells, the binding has the names of its parts, and no text has parts in two ways.
-/

namespace Patchbay.Directive

open Text

/-- A name: not empty, without blanks, and without the characters of operators. -/
structure IsName (name : String) : Prop where
  nonempty : name ≠ ""
  unbroken : ∀ c ∈ name.toList, isBlank c = false
  plain : ∀ c ∈ name.toList, c ∉ ['+', '<', '>', '=', '[', ']']

/-- The arrow that a role is written with. -/
def arrowOf : Role → Arrow
  | .emitter => .forward
  | .listener => .forward
  | .emitBack => .backward

/-- What a directive is made of: around its action the hooks, an extra payload, and the
place at the other side of the arrow. -/
structure Parts where
  pre : Option String
  action : String
  extra : Option String
  other : Option String
  post : Option String
deriving DecidableEq, Repr

/-- A part in front of its mark, or nothing. -/
def trailed (mark : List Char) : Option String → List (List Char)
  | none => []
  | some name => [name.toList, mark]

/-- A part behind its mark, or nothing. -/
def led (mark : List Char) : Option String → List (List Char)
  | none => []
  | some name => [mark, name.toList]

namespace Parts

/-- `action + extra --> other`, with the arrow of the role. -/
def body (role : Role) (d : Parts) : List (List Char) :=
  d.action.toList :: led ['+'] d.extra ++ led (arrowOf role).mark d.other

/-- `pre ] body [ post` -/
def tokens (role : Role) (d : Parts) : List (List Char) :=
  trailed [']'] d.pre ++ (d.body role ++ led ['['] d.post)

/-- Every part is a name, and an emitBack has no extra payload. -/
structure Valid (role : Role) (d : Parts) : Prop where
  pre : ∀ n ∈ d.pre, IsName n
  action : IsName d.action
  extra : ∀ n ∈ d.extra, IsName n
  other : ∀ n ∈ d.other, IsName n
  post : ∀ n ∈ d.post, IsName n
  bare : role = .emitBack → d.extra = none

def binding : Role → Parts → Binding
  | .emitter, d => ⟨.emitter, d.action, d.extra, d.other, d.pre, d.post⟩
  | .listener, d => ⟨.listener, d.action, none, d.other, d.pre, d.post⟩
  | .emitBack, d => ⟨.emitBack, d.action, d.other, none, d.pre, d.post⟩

end Parts

/-- The text is a directive of the role with these parts. -/
structure Spells (role : Role) (d : Parts) (text : String) : Prop where
  valid : d.Valid role
  spaced : Spaced (d.tokens role) text.toList

/-! ### Names -/

theorem isForbidden_eq_false {c : Char} :
    isForbidden c = false ↔ isBlank c = false ∧ c ∉ ['+', '<', '>', '=', '[', ']'] := by
  simp [isForbidden, isOperator, and_assoc]

theorem isName_ofList {cs : List Char} :
    IsName (String.ofList cs) ↔ cs ≠ [] ∧ ∀ c ∈ cs, isForbidden c = false := by
  constructor
  · intro hnamed
    refine ⟨fun hempty => hnamed.nonempty (by simp [hempty]), fun c hinside => ?_⟩
    exact isForbidden_eq_false.mpr
      ⟨hnamed.unbroken c (by simpa using hinside), hnamed.plain c (by simpa using hinside)⟩
  · rintro ⟨hnonempty, hallowed⟩
    refine ⟨by simpa using hnonempty, fun c hinside => ?_, fun c hinside => ?_⟩
    · exact (isForbidden_eq_false.mp (hallowed c (by simpa using hinside))).1
    · exact (isForbidden_eq_false.mp (hallowed c (by simpa using hinside))).2

theorem IsName.solid {n : String} (hnamed : IsName n) : Solid n.toList where
  nonempty := by simpa using hnamed.nonempty
  unbroken := hnamed.unbroken

theorem IsName.notMem {n : String} (hnamed : IsName n) {c : Char}
    (hoperator : c ∈ ['+', '<', '>', '=', '[', ']']) : c ∉ n.toList :=
  fun hinside => hnamed.plain c hinside hoperator

theorem trim_of_spaced {t cs : List Char} (hsolid : Solid t) (hspelled : Spaced [t] cs) :
    trim cs = t := by
  obtain ⟨left, right, rfl, hbefore, hbehind⟩ := hspelled.cutToken
  have hblank : ∀ {ds}, Spaced [] ds → ∀ c ∈ ds, isBlank c = true := by
    intro ds hspaces c hinside
    simpa using hspaces.mem hinside
  have hstays : ∀ {u : List Char} (ds : List Char), Solid u →
      (u ++ ds).dropWhile isBlank = u ++ ds := by
    intro u ds hsolid
    cases u with
    | nil => exact absurd rfl hsolid.nonempty
    | cons c u => simp [hsolid.unbroken c (by simp)]
  rw [trim, List.dropWhile_append_of_pos (hblank hbefore), hstays right hsolid, List.reverse_append,
    List.dropWhile_append_of_pos (by simpa using hblank hbehind)]
  simpa using congrArg List.reverse (hstays [] hsolid.reverse)

/-- A name is read where one stands alone between blanks. -/
theorem name_eq_ok {raw : List Char} {n : String} :
    name raw = .ok n ↔ IsName n ∧ Spaced [n.toList] raw := by
  have hread : name raw = .ok n ↔
      IsName (String.ofList (trim raw)) ∧ String.ofList (trim raw) = n := by
    have htest : ((trim raw).isEmpty || (trim raw).any isForbidden) = false ↔
        IsName (String.ofList (trim raw)) := by
      rw [isName_ofList]
      simp
    by_cases hnamed : IsName (String.ofList (trim raw))
    · simp [name, htest.mpr hnamed, hnamed]
    · simp [name, eq_true_of_ne_false (htest.not.mpr hnamed), hnamed]
  rw [hread]
  constructor
  · rintro ⟨hnamed, rfl⟩
    refine ⟨hnamed, ?_⟩
    rw [← spaced_trim (by simpa using hnamed.solid)]
    simpa using Spaced.token (trim raw) .done
  · rintro ⟨hnamed, hspelled⟩
    simp [trim_of_spaced hnamed.solid hspelled, hnamed]

theorem bind_eq_ok {ε α β : Type} {x : Except ε α} {f : α → Except ε β} {b : β} :
    x >>= f = .ok b ↔ ∃ a, x = .ok a ∧ f a = .ok b := by
  cases x <;> simp [bind, Except.bind]

theorem name?_eq_ok {raw : Option (List Char)} {n : Option String} :
    name? raw = .ok n ↔
      raw = none ∧ n = none ∨ ∃ text m, raw = some text ∧ n = some m ∧ name text = .ok m := by
  cases raw with
  | none => simp [name?, eq_comm]
  | some text =>
    cases hfound : name text <;> simp [name?, hfound, Except.map, eq_comm]

/-! ### Hooks -/

/-- The hook in front of a directive, and what is behind it. -/
def cutPre (cs : List Char) : Except Skip (Option String × List Char) :=
  match cutFirst ']' cs with
  | some (hook, rest) => do pure (some (← name hook), rest)
  | none => pure (none, cs)

/-- What is in front of the hook at the end of a directive, and the hook. -/
def cutPost (cs : List Char) : Except Skip (List Char × Option String) :=
  match cutLast '[' cs with
  | some (body, hook) => do pure (body, some (← name hook))
  | none => pure (cs, none)

theorem Spaced.notMem {ts : List (List Char)} {cs : List Char} (hspelled : Spaced ts cs) {c : Char}
    (hsolid : isBlank c = false) (hclear : ∀ t ∈ ts, c ∉ t) : c ∉ cs := by
  intro hinside
  rcases hspelled.mem hinside with hspace | ⟨t, hlisted, hthere⟩
  · simp [hsolid] at hspace
  · exact hclear t hlisted hthere

theorem spaced_of_cutPre {ts : List (List Char)} {cs rest : List Char} {pre : Option String}
    (hcut : cutPre cs = .ok (pre, rest)) (hspelled : Spaced ts rest) :
    (∀ n ∈ pre, IsName n) ∧ Spaced (trailed [']'] pre ++ ts) cs := by
  unfold cutPre at hcut
  split at hcut
  · rename_i hook rest' hfound
    obtain ⟨n, hread, hmade⟩ := bind_eq_ok.mp hcut
    obtain ⟨rfl, rfl⟩ : some n = pre ∧ rest' = rest := by simpa [pure, Except.pure] using hmade
    obtain ⟨rfl, _⟩ := cutFirst_eq_some.mp hfound
    obtain ⟨hnamed, hspelledHook⟩ := name_eq_ok.mp hread
    exact ⟨by simpa using hnamed, hspelledHook.append (hspelled.token [']'])⟩
  · obtain ⟨rfl, rfl⟩ : none = pre ∧ cs = rest := by simpa [pure, Except.pure] using hcut
    exact ⟨by simp, hspelled⟩

theorem cutPre_of_spaced {ts : List (List Char)} (hclear : ∀ t ∈ ts, ']' ∉ t) {cs : List Char}
    {pre : Option String} (hnames : ∀ n ∈ pre, IsName n)
    (hspelled : Spaced (trailed [']'] pre ++ ts) cs) :
    ∃ rest, cutPre cs = .ok (pre, rest) ∧ Spaced ts rest := by
  cases pre with
  | none =>
    have houtside := cutFirst_eq_none.mpr (hspelled.notMem (by decide) hclear)
    exact ⟨cs, by simp [cutPre, houtside, pure, Except.pure], hspelled⟩
  | some n =>
    have hnamed : IsName n := hnames n rfl
    obtain ⟨hook, rest, rfl, hspelledHook, hspelledRest⟩ :=
      (spaced_append_cons [n.toList]).mp hspelled
    have houtside : ']' ∉ hook :=
      hspelledHook.notMem (by decide) (by simpa using hnamed.notMem (by decide))
    have hread := name_eq_ok.mpr ⟨hnamed, hspelledHook⟩
    exact ⟨rest, by simp [cutPre, cutFirst_append rest houtside, hread, bind, Except.bind, pure,
      Except.pure], hspelledRest⟩

theorem spaced_of_cutPost {ts : List (List Char)} {cs body : List Char} {post : Option String}
    (hcut : cutPost cs = .ok (body, post)) (hspelled : Spaced ts body) :
    (∀ n ∈ post, IsName n) ∧ Spaced (ts ++ led ['['] post) cs := by
  unfold cutPost at hcut
  split at hcut
  · rename_i body' hook hfound
    obtain ⟨n, hread, hmade⟩ := bind_eq_ok.mp hcut
    obtain ⟨rfl, rfl⟩ : body' = body ∧ some n = post := by simpa [pure, Except.pure] using hmade
    obtain ⟨rfl, _⟩ := cutLast_eq_some.mp hfound
    obtain ⟨hnamed, hspelledHook⟩ := name_eq_ok.mp hread
    exact ⟨by simpa using hnamed, hspelled.append (hspelledHook.token ['['])⟩
  · obtain ⟨rfl, rfl⟩ : cs = body ∧ none = post := by simpa [pure, Except.pure] using hcut
    exact ⟨by simp, by simpa [led] using hspelled⟩

theorem cutPost_of_spaced {ts : List (List Char)} (hclear : ∀ t ∈ ts, '[' ∉ t) {cs : List Char}
    {post : Option String} (hnames : ∀ n ∈ post, IsName n)
    (hspelled : Spaced (ts ++ led ['['] post) cs) :
    ∃ body, cutPost cs = .ok (body, post) ∧ Spaced ts body := by
  cases post with
  | none =>
    have hspelled : Spaced ts cs := by simpa [led] using hspelled
    have houtside := cutLast_eq_none.mpr (hspelled.notMem (by decide) hclear)
    exact ⟨cs, by simp [cutPost, houtside, pure, Except.pure], hspelled⟩
  | some n =>
    have hnamed : IsName n := hnames n rfl
    obtain ⟨body, hook, rfl, hspelledBody, hspelledHook⟩ := (spaced_append_cons _).mp hspelled
    have houtside : '[' ∉ hook :=
      hspelledHook.notMem (by decide) (by simpa using hnamed.notMem (by decide))
    have hread := name_eq_ok.mpr ⟨hnamed, hspelledHook⟩
    exact ⟨body, by simp [cutPost, cutLast_append body houtside, hread, bind, Except.bind, pure,
      Except.pure], hspelledBody⟩

/-! ### Action and extra payload -/

/-- What is in front of the arrow; an emitBack has no extra payload there. -/
def readLeft (role : Role) (left text : List Char) : Except Skip (String × Option String) :=
  match role with
  | .emitter => actionAndExtra left text
  | .listener => actionAndExtra left text
  | .emitBack => do return (← name left, none)

theorem actionAndExtra_eq_ok {left text : List Char} {action : String} {extra : Option String} :
    actionAndExtra left text = .ok (action, extra) ↔
      IsName action ∧ (∀ n ∈ extra, IsName n) ∧
        Spaced (action.toList :: led ['+'] extra) left := by
  constructor
  · intro hread
    unfold actionAndExtra at hread
    split at hread
    · obtain ⟨n, hreadName, hmade⟩ := bind_eq_ok.mp hread
      obtain ⟨rfl, rfl⟩ : n = action ∧ none = extra := by simpa [pure, Except.pure] using hmade
      obtain ⟨hnamed, hspelled⟩ := name_eq_ok.mp hreadName
      exact ⟨hnamed, by simp, hspelled⟩
    · rename_i before rest hfound
      obtain ⟨rfl, _⟩ := cutFirst_eq_some.mp hfound
      obtain ⟨n, hreadName, hmore⟩ := bind_eq_ok.mp hread
      split at hmore
      · obtain ⟨m, hreadExtra, hmade⟩ := bind_eq_ok.mp hmore
        obtain ⟨rfl, rfl⟩ : n = action ∧ some m = extra := by simpa [pure, Except.pure] using hmade
        obtain ⟨hnamed, hspelled⟩ := name_eq_ok.mp hreadName
        obtain ⟨hnamedExtra, hspelledExtra⟩ := name_eq_ok.mp hreadExtra
        exact ⟨hnamed, by simpa using hnamedExtra, hspelled.append (hspelledExtra.token ['+'])⟩
      · obtain ⟨_, _, hfailed⟩ := bind_eq_ok.mp hmore
        simp at hfailed
  · rintro ⟨hnamed, hnamedExtra, hspelled⟩
    cases extra with
    | none =>
      have houtside := cutFirst_eq_none.mpr
        (hspelled.notMem (c := '+') (by decide) (by simpa [led] using hnamed.notMem (by decide)))
      have hread := name_eq_ok.mpr ⟨hnamed, hspelled⟩
      simp [actionAndExtra, houtside, hread, bind, Except.bind, pure, Except.pure]
    | some m =>
      have hnamedExtra : IsName m := hnamedExtra m rfl
      obtain ⟨before, rest, rfl, hspelledName, hspelledExtra⟩ :=
        (spaced_append_cons [action.toList]).mp hspelled
      have houtside : '+' ∉ before :=
        hspelledName.notMem (by decide) (by simpa using hnamed.notMem (by decide))
      have houtsideRest := cutFirst_eq_none.mpr
        (hspelledExtra.notMem (c := '+') (by decide)
          (by simpa using hnamedExtra.notMem (by decide)))
      simp [actionAndExtra, cutFirst_append rest houtside, houtsideRest,
        name_eq_ok.mpr ⟨hnamed, hspelledName⟩, name_eq_ok.mpr ⟨hnamedExtra, hspelledExtra⟩, bind,
        Except.bind, pure, Except.pure]

theorem readLeft_eq_ok {role : Role} {left : List Char} (text : List Char) {action : String}
    {extra : Option String} :
    readLeft role left text = .ok (action, extra) ↔
      (role = .emitBack → extra = none) ∧ IsName action ∧ (∀ n ∈ extra, IsName n) ∧
        Spaced (action.toList :: led ['+'] extra) left := by
  cases role with
  | emitter => simpa [readLeft] using actionAndExtra_eq_ok
  | listener => simpa [readLeft] using actionAndExtra_eq_ok
  | emitBack =>
    simp only [readLeft, bind_eq_ok, name_eq_ok, true_imp_iff, pure, Except.pure, Except.ok.injEq,
      Prod.mk.injEq]
    constructor
    · rintro ⟨_, hread, rfl, rfl⟩
      exact ⟨rfl, hread.1, by simp, hread.2⟩
    · rintro ⟨rfl, hnamed, _, hspelled⟩
      exact ⟨action, ⟨hnamed, hspelled⟩, rfl, rfl⟩

/-! ### Body -/

/-- The sides of the arrow, and their parts. -/
def readBody (role : Role) (body text : List Char) :
    Except Skip (String × Option String × Option String) :=
  match splitBody body with
  | none => .error (.unknownOperator (String.ofList text))
  | some body => do
    if body.left.any isOperator || (body.right.getD []).any isOperator then
      .error (.unknownOperator (String.ofList text))
    if body.arrow = some (Role.wrongArrow role) then
      .error (.arrowNotAllowed role (Role.wrongArrow role))
    let (action, extra) ← readLeft role body.left text
    return (action, extra, ← name? body.right)

theorem IsName.plain_toList {n : String} (hnamed : IsName n) : Plain n.toList := by
  intro c hinside
  have houtside := hnamed.plain c hinside
  simp only [List.mem_cons, List.not_mem_nil, or_false, not_or] at houtside
  simp [isOperator, houtside]

theorem isBlank_of_isOperator {c : Char} (hoperator : isOperator c = true) : isBlank c = false := by
  simp only [isOperator, Bool.or_eq_true, beq_iff_eq] at hoperator
  rcases hoperator with (((rfl | rfl) | rfl) | rfl) | rfl <;> decide

theorem Spaced.plain {ts : List (List Char)} {cs : List Char} (hspelled : Spaced ts cs)
    (hplain : ∀ t ∈ ts, Plain t) : Plain cs := by
  intro c hinside
  rcases hspelled.mem hinside with hspace | ⟨t, hlisted, hthere⟩
  · by_contra hoperator
    simp [isBlank_of_isOperator (eq_true_of_ne_false hoperator)] at hspace
  · exact hplain t hlisted c hthere

theorem arrowOf_eq {role : Role} {arrow : Arrow} :
    arrowOf role = arrow ↔ Role.wrongArrow role ≠ arrow := by
  cases role <;> cases arrow <;> simp [arrowOf, Role.wrongArrow]

theorem readBody_eq_ok {role : Role} {body : List Char} (text : List Char) {action : String}
    {extra other : Option String} :
    readBody role body text = .ok (action, extra, other) ↔
      (role = .emitBack → extra = none) ∧ IsName action ∧ (∀ n ∈ extra, IsName n) ∧
        (∀ n ∈ other, IsName n) ∧
        Spaced ((action.toList :: led ['+'] extra) ++ led (arrowOf role).mark other) body := by
  constructor
  · intro hread
    unfold readBody at hread
    split at hread
    · simp at hread
    · rename_i sides hfound
      obtain ⟨left, right, arrow⟩ := sides
      simp only [bind, Except.bind, pure, Except.pure] at hread
      split at hread
      · simp at hread
      rename_i hplain
      split at hread
      · simp at hread
      rename_i hallowed
      split at hread
      · simp at hread
      rename_i head hreadHead
      split at hread
      · simp at hread
      rename_i side hreadSide
      simp only [Except.ok.injEq, Prod.mk.injEq] at hread
      obtain ⟨rfl, rfl, rfl⟩ := hread
      obtain ⟨hbare, hnamed, hnamedExtra, hspelledLeft⟩ := (readLeft_eq_ok text).mp hreadHead
      rcases splitBody_eq_some hfound with ⟨rfl, rfl, rfl⟩ | ⟨mark, behind, rfl, rfl, rfl⟩
      · obtain rfl : side = none := by simpa [name?_eq_ok] using hreadSide
        exact ⟨hbare, hnamed, hnamedExtra, by simp, by simpa [led] using hspelledLeft⟩
      · obtain ⟨n, rfl, hreadOther⟩ : ∃ n, side = some n ∧ name behind = .ok n := by
          simpa [name?_eq_ok] using hreadSide
        obtain ⟨hnamedOther, hspelledRight⟩ := name_eq_ok.mp hreadOther
        obtain rfl : arrowOf role = mark := arrowOf_eq.mpr (by simpa [eq_comm] using hallowed)
        exact ⟨hbare, hnamed, hnamedExtra, by simpa using hnamedOther,
          hspelledLeft.append (hspelledRight.token (arrowOf role).mark)⟩
  · rintro ⟨hbare, hnamed, hnamedExtra, hnamedOther, hspelled⟩
    have hplainLeft : ∀ t ∈ action.toList :: led ['+'] extra, Plain t := by
      cases extra with
      | none => simpa [led] using hnamed.plain_toList
      | some m =>
        have hplus : Plain ['+'] := by simp [Plain, isOperator]
        simp [led, hnamed.plain_toList, (hnamedExtra m rfl).plain_toList, hplus]
    cases other with
    | none =>
      have hspelled : Spaced (action.toList :: led ['+'] extra) body := by
        simpa [led] using hspelled
      have hplain := hspelled.plain hplainLeft
      have hread := (readLeft_eq_ok text).mpr ⟨hbare, hnamed, hnamedExtra, hspelled⟩
      simp [readBody, splitBody_plain hplain, any_isOperator.mpr hplain, hread, name?, bind,
        Except.bind, pure, Except.pure]
    | some n =>
      have hnamedOther : IsName n := hnamedOther n rfl
      obtain ⟨left, right, rfl, hspelledLeft, hspelledRight⟩ := (spaced_append_cons _).mp hspelled
      have hbefore := hspelledLeft.plain hplainLeft
      have hbehind := hspelledRight.plain (by simpa using hnamedOther.plain_toList)
      have hread := (readLeft_eq_ok text).mpr ⟨hbare, hnamed, hnamedExtra, hspelledLeft⟩
      have hreadOther := name_eq_ok.mpr ⟨hnamedOther, hspelledRight⟩
      have hallowed : arrowOf role ≠ Role.wrongArrow role := by cases role <;> decide
      simp [readBody, splitBody_arrow _ hbefore hbehind, any_isOperator.mpr hbefore,
        any_isOperator.mpr hbehind, hread, name?, hreadOther, hallowed, bind, Except.bind, pure,
        Except.pure, Except.map]

/-- The parser as a sequence of its stages. -/
theorem parse_eq (text : String) (role : Role) :
    parse text role = (do
      let cs := trim text.toList
      if cs.isEmpty then .error .empty
      let (pre, rest) ← cutPre cs
      let (body, post) ← cutPost rest
      let (action, extra, other) ← readBody role body cs
      return Parts.binding role ⟨pre, action, extra, other, post⟩) := by
  simp only [parse, cutPre, cutPost, readBody, bind, Except.bind, pure, Except.pure]
  generalize trim text.toList = cs
  split
  · rfl
  -- the hook in front
  rcases cutFirst ']' cs with _ | ⟨hook, rest⟩ <;> dsimp only
  on_goal 2 => rcases name hook with _ | pre <;> [rfl; dsimp only]
  -- the hook at the end
  all_goals
    generalize cutLast '[' _ = cut
    rcases cut with _ | ⟨body, hook⟩ <;> dsimp only
    on_goal 2 => rcases name hook with _ | post <;> [rfl; dsimp only]
  -- the body, which every role reads in its own way
  all_goals
    generalize splitBody _ = sides
    rcases sides with _ | ⟨left, right, arrow⟩
    · rfl
    dsimp only
    split
    · rfl
    split
    · rfl
    cases role <;> dsimp only [readLeft, bind, Except.bind, pure, Except.pure]
    on_goal 3 => cases name left
    on_goal 1 => cases actionAndExtra left cs
    on_goal 3 => cases actionAndExtra left cs
    all_goals first | rfl | (dsimp only; cases name? right <;> rfl)

theorem solid_sign {c : Char} (hsign : isBlank c = false) : Solid [c] :=
  ⟨by simp, by simpa using hsign⟩

theorem solid_mark (arrow : Arrow) : Solid arrow.mark := by
  cases arrow with
  | forward =>
    refine ⟨by simp [Arrow.mark], ?_⟩
    simp only [Arrow.mark, List.forall_mem_cons]
    exact ⟨rfl, rfl, rfl, List.forall_mem_nil _⟩
  | backward =>
    refine ⟨by simp [Arrow.mark], ?_⟩
    simp only [Arrow.mark, List.forall_mem_cons]
    exact ⟨rfl, rfl, rfl, List.forall_mem_nil _⟩

theorem mem_trailed {t mark : List Char} {n? : Option String} (hlisted : t ∈ trailed mark n?) :
    t = mark ∨ ∃ n ∈ n?, t = n.toList := by
  cases n? <;> simp_all [trailed, or_comm]

theorem mem_led {t mark : List Char} {n? : Option String} (hlisted : t ∈ led mark n?) :
    t = mark ∨ ∃ n ∈ n?, t = n.toList := by
  cases n? <;> simp_all [led]

namespace Parts.Valid

variable {role : Role} {d : Parts} {t : List Char}

theorem mem_body (hvalid : d.Valid role) (hlisted : t ∈ d.body role) :
    t ∈ [['+'], (arrowOf role).mark] ∨ ∃ n, IsName n ∧ t = n.toList := by
  simp only [body, List.mem_append, List.mem_cons] at hlisted
  rcases hlisted with (rfl | hinExtra) | hinOther
  · exact .inr ⟨d.action, hvalid.action, rfl⟩
  · rcases mem_led hinExtra with rfl | ⟨n, hgiven, rfl⟩
    · exact .inl (by simp)
    · exact .inr ⟨n, hvalid.extra n hgiven, rfl⟩
  · rcases mem_led hinOther with rfl | ⟨n, hgiven, rfl⟩
    · exact .inl (by simp)
    · exact .inr ⟨n, hvalid.other n hgiven, rfl⟩

theorem mem_rest (hvalid : d.Valid role) (hlisted : t ∈ d.body role ++ led ['['] d.post) :
    t ∈ [['+'], (arrowOf role).mark, ['[']] ∨ ∃ n, IsName n ∧ t = n.toList := by
  rcases List.mem_append.mp hlisted with hinBody | hinPost
  · refine (hvalid.mem_body hinBody).imp_left fun hoperator => ?_
    simpa using (List.mem_pair.mp hoperator).imp_right .inl
  · rcases mem_led hinPost with rfl | ⟨n, hgiven, rfl⟩
    · exact .inl (by simp)
    · exact .inr ⟨n, hvalid.post n hgiven, rfl⟩

/-- A token is an operator or a name. -/
theorem mem_tokens (hvalid : d.Valid role) (hlisted : t ∈ d.tokens role) :
    t ∈ [['+'], (arrowOf role).mark, ['['], [']']] ∨ ∃ n, IsName n ∧ t = n.toList := by
  rcases List.mem_append.mp hlisted with hinPre | hinRest
  · rcases mem_trailed hinPre with rfl | ⟨n, hgiven, rfl⟩
    · exact .inl (by simp)
    · exact .inr ⟨n, hvalid.pre n hgiven, rfl⟩
  · refine (hvalid.mem_rest hinRest).imp_left fun hoperator => ?_
    simp only [List.mem_cons, List.not_mem_nil, or_false] at hoperator ⊢
    tauto

theorem solid (hvalid : d.Valid role) : ∀ t ∈ d.tokens role, Solid t := by
  intro t hlisted
  rcases hvalid.mem_tokens hlisted with hoperator | ⟨n, hnamed, rfl⟩
  · simp only [List.mem_cons, List.not_mem_nil, or_false] at hoperator
    rcases hoperator with rfl | rfl | rfl | rfl
    · exact solid_sign (by decide)
    · exact solid_mark (arrowOf role)
    · exact solid_sign (by decide)
    · exact solid_sign (by decide)
  · exact hnamed.solid

/-- The last `[` of a directive is the one in front of its hook. -/
theorem body_clear (hvalid : d.Valid role) : ∀ t ∈ d.body role, '[' ∉ t := by
  intro t hlisted
  rcases hvalid.mem_body hlisted with hoperator | ⟨n, hnamed, rfl⟩
  · rcases List.mem_pair.mp hoperator with rfl | rfl <;> cases role <;> decide
  · exact hnamed.notMem (by decide)

/-- The first `]` of a directive is the one behind its hook. -/
theorem rest_clear (hvalid : d.Valid role) : ∀ t ∈ d.body role ++ led ['['] d.post, ']' ∉ t := by
  intro t hlisted
  rcases hvalid.mem_rest hlisted with hoperator | ⟨n, hnamed, rfl⟩
  · simp only [List.mem_cons, List.not_mem_nil, or_false] at hoperator
    rcases hoperator with rfl | rfl | rfl <;> cases role <;> decide
  · exact hnamed.notMem (by decide)

end Parts.Valid

/-- What the stages of the parser found when it succeeds. -/
theorem parse_eq_ok_stages {role : Role} {text : String} {b : Binding} :
    parse text role = .ok b ↔
      ∃ pre rest, cutPre (trim text.toList) = .ok (pre, rest) ∧
        ∃ body post, cutPost rest = .ok (body, post) ∧
          ∃ action extra other,
            readBody role body (trim text.toList) = .ok (action, extra, other) ∧
              Parts.binding role ⟨pre, action, extra, other, post⟩ = b := by
  rw [parse_eq]
  by_cases hempty : trim text.toList = []
  · have hunread : ∀ parts, readBody role [] [] ≠ .ok parts := by
      cases role <;> simp [readBody, readLeft, splitBody, sides, cutMark, actionAndExtra, cutFirst,
        name, trim, bind, Except.bind]
    simp [hempty, hunread, cutPre, cutPost, cutFirst, cutLast, bind, Except.bind, pure, Except.pure]
  · simp [hempty, bind_eq_ok, pure, Except.pure]

/-- The parser reads the parts that the grammar spells, and nothing else. -/
theorem parse_eq_ok {role : Role} {text : String} {b : Binding} :
    parse text role = .ok b ↔ ∃ d, Spells role d text ∧ d.binding role = b := by
  rw [parse_eq_ok_stages]
  constructor
  · rintro ⟨pre, rest, hreadPre, body, post, hreadPost, action, extra, other, hread, rfl⟩
    obtain ⟨hbare, hnamed, hnamedExtra, hnamedOther, hspelledBody⟩ := (readBody_eq_ok _).mp hread
    obtain ⟨hnamedPost, hspelledRest⟩ := spaced_of_cutPost hreadPost hspelledBody
    obtain ⟨hnamedPre, hspelled⟩ := spaced_of_cutPre hreadPre hspelledRest
    have hvalid : Parts.Valid role ⟨pre, action, extra, other, post⟩ :=
      ⟨hnamedPre, hnamed, hnamedExtra, hnamedOther, hnamedPost, hbare⟩
    exact ⟨_, ⟨hvalid, (spaced_trim hvalid.solid).mp hspelled⟩, rfl⟩
  · rintro ⟨d, ⟨hvalid, hspelled⟩, rfl⟩
    obtain ⟨rest, hreadPre, hspelledRest⟩ :=
      cutPre_of_spaced hvalid.rest_clear hvalid.pre ((spaced_trim hvalid.solid).mpr hspelled)
    obtain ⟨body, hreadPost, hspelledBody⟩ :=
      cutPost_of_spaced hvalid.body_clear hvalid.post hspelledRest
    have hread := (readBody_eq_ok (trim text.toList)).mpr
      ⟨hvalid.bare, hvalid.action, hvalid.extra, hvalid.other, hspelledBody⟩
    exact ⟨d.pre, rest, hreadPre, body, d.post, hreadPost, d.action, d.extra, d.other, hread, rfl⟩

/-! ### One reading -/

theorem binding_injective {role : Role} (hkeeps : role ≠ .listener) {d e : Parts}
    (hvalidD : d.Valid role) (hvalidE : e.Valid role) (hsame : d.binding role = e.binding role) :
    d = e := by
  obtain ⟨pre, action, extra, other, post⟩ := d
  obtain ⟨pre', action', extra', other', post'⟩ := e
  cases role with
  | listener => exact absurd rfl hkeeps
  | emitter => simp_all [Parts.binding]
  | emitBack =>
    have := hvalidD.bare rfl
    have := hvalidE.bare rfl
    simp_all [Parts.binding]

/-- A listener is written as an emitter is. -/
theorem Spells.asEmitter {d : Parts} {text : String} (hspelled : Spells .listener d text) :
    Spells .emitter d text where
  valid := { hspelled.valid with bare := by simp }
  spaced := hspelled.spaced

theorem Spells.unique {role : Role} {d e : Parts} {text : String} (hfirst : Spells role d text)
    (hsecond : Spells role e text) : d = e := by
  have hread : ∀ {role}, role ≠ .listener → Spells role d text → Spells role e text → d = e := by
    intro role hkeeps hfirst hsecond
    have hparsed := parse_eq_ok.mpr ⟨d, hfirst, rfl⟩
    rw [parse_eq_ok.mpr ⟨e, hsecond, rfl⟩, Except.ok.injEq] at hparsed
    exact binding_injective hkeeps hfirst.valid hsecond.valid hparsed.symm
  by_cases hkeeps : role = .listener
  · subst hkeeps
    -- its binding has no extra payload, the one of the emitter has
    exact hread (by decide) hfirst.asEmitter hsecond.asEmitter
  · exact hread hkeeps hfirst hsecond

/-- The parser accepts exactly its grammar. A text parses if and only if it spells parts
that are names, and the binding has these names; the parts are determined by the text, and
the blanks between them have no influence. -/
theorem parse_exactly_grammar (role : Role) (text : String) :
    (∀ b, parse text role = .ok b ↔ ∃ d, Spells role d text ∧ d.binding role = b) ∧
      (∀ d e, Spells role d text → Spells role e text → d = e) ∧
        ∀ d respaced, Spells role d text → Spells role d respaced →
          parse respaced role = parse text role := by
  refine ⟨fun b => parse_eq_ok, fun d e => Spells.unique, fun d respaced hspelled hagain => ?_⟩
  rw [parse_eq_ok.mpr ⟨d, hspelled, rfl⟩, parse_eq_ok.mpr ⟨d, hagain, rfl⟩]

/-- Dashes next to an arrow belong to the names. -/
example : parse "up ] a---->-- [ down" .emitter =
    .ok ⟨.emitter, "a--", none, some "--", some "up", some "down"⟩ := by
  rfl

end Patchbay.Directive
