import Patchbay.Proofs.Wiring.Additions

/-!
What a wiring pass does, exactly. It is made of lanes, lists of entries that are compiled
for one role and attached in one scope. A pass fails before it has attached anything, or
attaches from each lane the first binding of each action that its scope does not have yet.
-/

namespace Patchbay

/-- Entries of one role for one scope. -/
structure Lane where
  scope : Scope
  role : Role
  raws : List Json

namespace Lane

variable (l : Lane)

/-- The bindings of the entries that compile. -/
def compiled : List Binding := l.raws.filterMap fun raw => (Directive.compile raw l.role).toOption

/-- The entries that do not compile, with the reasons. -/
def skipped : List Directive.Skipped := l.raws.filterMap fun raw =>
  match Directive.compile raw l.role with
  | .ok _ => none
  | .error reason => some ⟨l.role, raw, reason⟩

/-- The first binding of each action that is not registered. -/
def attached (reg : Registry) : List Binding :=
  (l.compiled.filter fun b => !reg.contains l.scope l.role b.action).eraseDupsBy
    fun a b => a.action == b.action

def registrations (reg : Registry) (via : ConnectionId) : List Registration :=
  (l.attached reg).map (⟨l.scope, ·, via⟩)

/-- An entry behind these others is attached, skipped or a duplicate. -/
def Accounts (reg : Registry) (wired : Wired) (before : List Json) (raw : Json) : Prop :=
  match Directive.compile raw l.role with
  | .error reason => ⟨l.role, raw, reason⟩ ∈ wired.skipped
  | .ok b => b ∈ wired.bindings ∨ reg.contains l.scope l.role b.action = true ∨
      ∃ earlier ∈ before, ∃ first, Directive.compile earlier l.role = .ok first ∧
        first.action = b.action

theorem compileAll_eq (l : Lane) :
    Directive.compileAll l.role l.raws = (l.compiled, l.skipped) := by
  obtain ⟨scope, role, raws⟩ := l
  induction raws with
  | nil => rfl
  | cons raw rest ih =>
    simp only [compiled, skipped, Directive.compileAll, List.filterMap_cons] at ih ⊢
    rw [ih]
    cases Directive.compile raw role <;> rfl

theorem role_of_mem_compiled {b : Binding} (hb : b ∈ l.compiled) : b.role = l.role := by
  have hall : b ∈ (Directive.compileAll l.role l.raws).1 := by rwa [compileAll_eq]
  exact Directive.role_of_mem_compileAll hall

theorem firsts_sublist (bs : List Binding) (same : Binding → Binding → Bool) :
    (bs.eraseDupsBy same).Sublist bs := by
  induction hlength : bs.length using Nat.strongRecOn generalizing bs with
  | ind n ih =>
    cases bs with
    | nil => exact List.Sublist.slnil
    | cons b rest =>
      rw [List.eraseDupsBy_cons]
      have hshort := List.length_filter_le (fun b' => decide (same b' b = false)) rest
      simp only [List.length_cons] at hlength
      exact ((ih _ (by omega) _ rfl).trans List.filter_sublist).cons_cons b

theorem mem_registrations {reg : Registry} {via : ConnectionId} {r : Registration}
    (hr : r ∈ l.registrations reg via) : r.scope = l.scope ∧ r.binding.role = l.role := by
  obtain ⟨b, hb, rfl⟩ := List.mem_map.1 hr
  have hcompiled := (List.mem_filter.1 ((firsts_sublist ..).subset hb)).1
  exact ⟨rfl, l.role_of_mem_compiled hcompiled⟩

/-- A binding is among the first ones when none before it has its action. -/
theorem mem_firsts {front back : List Binding} {b : Binding}
    (hfirst : ∀ x ∈ front, x.action ≠ b.action) :
    b ∈ (front ++ b :: back).eraseDupsBy fun a b => a.action == b.action := by
  induction hlength : front.length using Nat.strongRecOn generalizing front back with
  | ind n ih =>
    cases front with
    | nil => simp [List.eraseDupsBy_cons]
    | cons x front =>
      obtain ⟨hx, hrest⟩ := List.forall_mem_cons.1 hfirst
      have hkept : (b.action == x.action) = false := by simpa using Ne.symm hx
      simp only [List.cons_append, List.eraseDupsBy_cons, List.filter_append,
        List.filter_cons, hkept, decide_true, if_true]
      refine List.mem_cons_of_mem _ (ih _ ?_ (fun y hy => hrest y (List.mem_filter.1 hy).1) rfl)
      have := List.length_filter_le (fun y => decide ((y.action == x.action) = false)) front
      simp only [List.length_cons] at hlength
      omega

/-- What a lane attaches and skips accounts for each of its entries. -/
theorem accounts {reg : Registry} {wired : Wired} (hbindings : l.attached reg ⊆ wired.bindings)
    (hskipped : l.skipped ⊆ wired.skipped) {before after : List Json} {raw : Json}
    (hraws : l.raws = before ++ raw :: after) : l.Accounts reg wired before raw := by
  unfold Accounts
  cases hcompile : Directive.compile raw l.role with
  | error reason =>
    refine hskipped (List.mem_filterMap.2 ⟨raw, by simp [hraws], ?_⟩)
    simp [hcompile]
  | ok b =>
    by_cases htaken : reg.contains l.scope l.role b.action = true
    · exact .inr (.inl htaken)
    by_cases hearlier : ∃ earlier ∈ before, ∃ first, Directive.compile earlier l.role = .ok first ∧
        first.action = b.action
    · exact .inr (.inr hearlier)
    refine .inl (hbindings ?_)
    simp only [attached, compiled, hraws, List.filterMap_append, List.filterMap_cons, hcompile,
      Except.toOption, List.filter_append, List.filter_cons, htaken, Bool.not_false, if_true]
    refine mem_firsts fun x hx hsame => hearlier ?_
    obtain ⟨earlier, hmem, hx⟩ := List.mem_filterMap.1 (List.mem_filter.1 hx).1
    refine ⟨earlier, hmem, x, ?_, hsame⟩
    cases hcompile' : Directive.compile earlier l.role <;> simp_all

/-- Two lanes never claim the same. -/
def Apart (l l' : Lane) : Prop := l.scope ≠ l'.scope ∨ l.role ≠ l'.role

theorem Apart.registrations {l l' : Lane} (h : l.Apart l') {reg : Registry} {via : ConnectionId} :
    ∀ r ∈ l.registrations reg via, r.scope ≠ l'.scope ∨ r.binding.role ≠ l'.role := by
  intro r hr
  obtain ⟨hscope, hrole⟩ := l.mem_registrations hr
  rwa [hscope, hrole]

end Lane

namespace World

variable {p : Pass} {place : Place} {w w' w'' : World} {rs more : List Registration}

/-- These registrations were made, and their bindings attached. -/
structure Extends (p : Pass) (place : Place) (rs : List Registration) (w w' : World) : Prop where
  adds : Adds p place (rs.map (·.binding)) w w'
  registry : w'.registry.log = w.registry.log ++ rs
  opened : w'.Opened p.channel.connection

namespace Extends

theorem nothing (hopened : w.Opened p.channel.connection) : Extends p place [] w w :=
  ⟨.nothing rfl rfl rfl, (List.append_nil _).symm, hopened⟩

theorem trans (h : Extends p place rs w w') (h' : Extends p place more w' w'') :
    Extends p place (rs ++ more) w w'' where
  adds := by simpa using h.adds.trans h'.adds
  registry := by rw [h'.registry, h.registry, List.append_assoc]
  opened := h'.opened

/-- Registrations of other scopes and roles take no action from a lane. -/
theorem attached_eq (h : Extends p place rs w w') {l : Lane}
    (hapart : ∀ r ∈ rs, r.scope ≠ l.scope ∨ r.binding.role ≠ l.role) :
    l.attached w'.registry = l.attached w.registry := by
  have hnone (action : String) :
      rs.any (fun r => decide (Registry.Holds l.scope l.role action r)) = false := by
    refine List.any_eq_false.2 fun r hr hholds => ?_
    obtain ⟨hscope, hrole, -⟩ := of_decide_eq_true hholds
    exact (hapart r hr).elim (· hscope) (· hrole)
  simp only [Lane.attached, Registry.contains_eq_any, h.registry, List.any_append, hnone,
    Bool.or_false]

end Extends

/-- A granted claim, with the attachment of its binding. -/
theorem claim_extends {b : Binding} {scope : Scope} (hclaim : w.claim p scope b = (w', true))
    (hfasten : Fastens p place b w' w'') : Extends p place [⟨scope, b, p.id⟩] w w'' where
  adds := by
    have hclaimed : Adds p place [] w w' := by
      rw [claim_eq hclaim]
      exact .nothing rfl rfl rfl
    exact hclaimed.trans hfasten.adds
  registry := by rw [hfasten.registry, (claim_granted hclaim).2]
  opened := hfasten.opened

theorem contains_concat {reg reg' : Registry} {scope : Scope} {b : Binding} {via : ConnectionId}
    (hlog : reg'.log = reg.log ++ [⟨scope, b, via⟩]) (action : String) :
    reg'.contains scope b.role action =
      (reg.contains scope b.role action || decide (action = b.action)) := by
  simp [Registry.contains_eq_any, hlog, Registry.Holds, eq_comm]

/-- A list of bindings: of each action that is free the first is registered and attached. -/
theorem attachAll_exact {attach : World → Binding → World × List (Subscription Detach)}
    (scope : Scope) {role : Role} {bs : List Binding}
    (hattach : ∀ w b, w.Opened p.channel.connection → b.role = role →
      Fastens p place b w (attach w b).1)
    (hopened : w.Opened p.channel.connection) (hroles : ∀ b ∈ bs, b.role = role) :
    let found := (bs.filter fun b => !w.registry.contains scope role b.action).eraseDupsBy
      fun a b => a.action == b.action
    Extends p place (found.map (⟨scope, ·, p.id⟩)) w (w.attachAll p scope attach bs).1 ∧
      (w.attachAll p scope attach bs).2.bindings = found ∧
        (w.attachAll p scope attach bs).2.skipped = [] := by
  induction bs generalizing w with
  | nil => exact ⟨.nothing hopened, rfl, rfl⟩
  | cons b rest ih =>
    obtain ⟨rfl, hrest⟩ := List.forall_mem_cons.1 hroles
    unfold attachAll
    split
    · rename_i hclaim
      obtain ⟨rfl, htaken⟩ := claim_refused hclaim
      simpa [htaken] using ih hopened hrest
    · rename_i claimed hclaim
      obtain ⟨hfree, hlog⟩ := claim_granted hclaim
      have hfirst :=
        claim_extends hclaim (hattach claimed b (claim_eq hclaim ▸ hopened.apply _) rfl)
      obtain ⟨hmore, hbindings, hskipped⟩ := ih hfirst.opened hrest
      -- from here on the action of this binding is taken
      have hleft :
          (rest.filter fun b' => !(attach claimed b).1.registry.contains scope b.role b'.action) =
          (rest.filter fun b' => !w.registry.contains scope b.role b'.action).filter
            fun b' => decide ((b'.action == b.action) = false) := by
        rw [List.filter_filter]
        refine List.filter_congr fun b' _ => ?_
        rw [contains_concat hfirst.registry]
        by_cases hsame : b'.action = b.action <;> simp [hsame]
      simp only [List.filter_cons, hfree, Bool.not_false, if_true, List.eraseDupsBy_cons, ← hleft]
      refine ⟨hfirst.trans hmore, ?_, ?_⟩
      · simp [Wired.append, hbindings]
      · simp [Wired.append, hskipped]

/-- The next lane of a pass. -/
theorem Extends.lane (h : Extends p place rs w w') (l : Lane)
    (attach : World → Binding → World × List (Subscription Detach))
    (hapart : ∀ r ∈ rs, r.scope ≠ l.scope ∨ r.binding.role ≠ l.role)
    (hattach : ∀ w b, w.Opened p.channel.connection → b.role = l.role →
      Fastens p place b w (attach w b).1) :
    Extends p place (rs ++ l.registrations w.registry p.id) w
        (w'.attachAll p l.scope attach l.compiled).1 ∧
      (w'.attachAll p l.scope attach l.compiled).2.bindings = l.attached w.registry ∧
        (w'.attachAll p l.scope attach l.compiled).2.skipped = [] := by
  have hlane := attachAll_exact l.scope hattach h.opened fun b hb => l.role_of_mem_compiled hb
  have hsame := h.attached_eq hapart
  unfold Lane.attached at hsame
  simp only [hsame] at hlane
  exact ⟨h.trans hlane.1, hlane.2⟩

/-! ### The two passes -/

/-- What a pass does that does not fail. -/
structure Exactly (p : Pass) (place : Place) (lanes : List Lane) (w w' : World) (wired : Wired) :
    Prop where
  bindings : wired.bindings = lanes.flatMap (·.attached w.registry)
  skipped : wired.skipped = lanes.flatMap Lane.skipped
  registry : w'.registry.log = w.registry.log ++ lanes.flatMap (·.registrations w.registry p.id)
  adds : Adds p place wired.bindings w w'
  accounted : ∀ l ∈ lanes, ∀ before raw after, l.raws = before ++ raw :: after →
    l.Accounts w.registry wired before raw

theorem Extends.exactly {lanes : List Lane} {wired : Wired}
    (h : Extends p place (lanes.flatMap (·.registrations w.registry p.id)) w w')
    (hbindings : wired.bindings = lanes.flatMap (·.attached w.registry))
    (hskipped : wired.skipped = lanes.flatMap Lane.skipped) : Exactly p place lanes w w' wired where
  bindings := hbindings
  skipped := hskipped
  registry := h.registry
  adds := by simpa [hbindings, Lane.registrations, List.map_flatMap, Function.comp_def] using h.adds
  accounted l hl _ _ _ hraws := l.accounts
    (hbindings ▸ fun _ hb => List.mem_flatMap.2 ⟨l, hl, hb⟩)
    (hskipped ▸ fun _ hs => List.mem_flatMap.2 ⟨l, hl, hs⟩) hraws

/-- Three lanes, one after the other, each with its way to attach a binding. -/
theorem exactly_of_lanes (l₁ l₂ l₃ : Lane)
    (attach₁ attach₂ attach₃ : World → Binding → World × List (Subscription Detach))
    (hapart : [l₁, l₂, l₃].Pairwise Lane.Apart) (hopened : w.Opened p.channel.connection)
    (hfastens₁ : ∀ w b, w.Opened p.channel.connection → b.role = l₁.role →
      Fastens p place b w (attach₁ w b).1)
    (hfastens₂ : ∀ w b, w.Opened p.channel.connection → b.role = l₂.role →
      Fastens p place b w (attach₂ w b).1)
    (hfastens₃ : ∀ w b, w.Opened p.channel.connection → b.role = l₃.role →
      Fastens p place b w (attach₃ w b).1) :
    let first := w.attachAll p l₁.scope attach₁ l₁.compiled
    let second := first.1.attachAll p l₂.scope attach₂ l₂.compiled
    let third := second.1.attachAll p l₃.scope attach₃ l₃.compiled
    Exactly p place [l₁, l₂, l₃] w third.1
      (Wired.append { skipped := l₁.skipped ++ l₂.skipped ++ l₃.skipped }
        (first.2.append (second.2.append third.2))) := by
  simp only [List.pairwise_cons, List.mem_cons, List.not_mem_nil, or_false, forall_eq_or_imp,
    forall_eq] at hapart
  obtain ⟨⟨h₁₂, h₁₃⟩, h₂₃, -⟩ := hapart
  obtain ⟨hfirst, hbindings₁, hskipped₁⟩ :=
    (Extends.nothing hopened).lane l₁ attach₁ (by simp) hfastens₁
  obtain ⟨hsecond, hbindings₂, hskipped₂⟩ := hfirst.lane l₂ attach₂ h₁₂.registrations hfastens₂
  obtain ⟨hthird, hbindings₃, hskipped₃⟩ := hsecond.lane l₃ attach₃
    (fun r hr => (List.mem_append.1 hr).elim (h₁₃.registrations r) (h₂₃.registrations r)) hfastens₃
  refine Extends.exactly ?_ ?_ ?_
  · simpa using hthird
  · simp [Wired.append, hbindings₁, hbindings₂, hbindings₃]
  · simp [Wired.append, hskipped₁, hskipped₂, hskipped₃]

def namespaceLanes (p : Pass) (c : NamespaceConfig) : List Lane :=
  [⟨p.componentScope, .emitter, c.emitters⟩, ⟨p.componentScope, .listener, c.listeners⟩,
    ⟨p.componentScope, .emitBack, c.emitBacks⟩]

def storeLanes (p : Pass) (c : StoreWiring) : List Lane :=
  [⟨p.storeScope .actions, .listener, c.actions⟩, ⟨p.storeScope .mutations, .listener, c.mutations⟩,
    ⟨p.storeScope .emitBacks, .emitBack, c.emitBacks⟩]

theorem wireNamespace_exactly {c : NamespaceConfig} {wired : Wired}
    (hopened : w.Opened p.channel.connection) (hwire : w.wireNamespace p c = (w', .ok wired)) :
    Exactly p (.component p.owner) (namespaceLanes p c) w w' wired := by
  have hemitters := (Lane.mk p.componentScope .emitter c.emitters).compileAll_eq
  have hlisteners := (Lane.mk p.componentScope .listener c.listeners).compileAll_eq
  have hbacks := (Lane.mk p.componentScope .emitBack c.emitBacks).compileAll_eq
  simp only [wireNamespace, hemitters, hlisteners, hbacks] at hwire
  split at hwire
  · cases hwire
  obtain ⟨rfl, hwired⟩ := Prod.mk.inj hwire
  obtain rfl := Except.ok.inj hwired
  exact exactly_of_lanes _ _ _ _ _ _ (by simp [Lane.Apart]) hopened
    (fun _ _ hw hrole => attachEmitter_fastens hw hrole)
    (fun _ _ hw hrole => attachListener_fastens hw hrole _)
    (fun _ _ hw hrole => attachEmitBack_fastens hw hrole)

/-- An event of the store that may be unknown is listened to all the same. -/
theorem attachListener_warned {b : Binding} (hopened : w.Opened p.channel.connection)
    (hrole : b.role = .listener) (on : Bool) (warning : Warning) (sink : Sink) :
    Fastens p place b w ((w.warnIf on warning).attachListener p b sink).1 := by
  obtain ⟨trace, hwarned⟩ := warnIf_trace w on warning
  have hmid : World.Opened { w with trace } p.channel.connection := hopened
  rw [hwarned]
  exact (attachListener_fastens hmid hrole sink).after_trace

theorem wireStore_exactly {c : StoreWiring} {wired : Wired}
    (hopened : w.Opened p.channel.connection) (hwire : w.wireStore p c = (w', .ok wired)) :
    Exactly p .store (storeLanes p c) w w' wired := by
  have hactions := (Lane.mk (p.storeScope .actions) .listener c.actions).compileAll_eq
  have hmutations := (Lane.mk (p.storeScope .mutations) .listener c.mutations).compileAll_eq
  have hbacks := (Lane.mk (p.storeScope .emitBacks) .emitBack c.emitBacks).compileAll_eq
  simp only [wireStore, hactions, hmutations, hbacks] at hwire
  split at hwire
  · cases hwire
  obtain ⟨rfl, hwired⟩ := Prod.mk.inj hwire
  obtain rfl := Except.ok.inj hwired
  exact exactly_of_lanes _ _ _ _ _ _ (by simp [Lane.Apart, Pass.storeScope]) hopened
    (fun _ _ hw hrole => attachListener_warned hw hrole _ _ _)
    (fun _ _ hw hrole => attachListener_warned hw hrole _ _ _)
    (fun _ _ hw hrole => attachEmitBack_fastens hw hrole)

/-! ### Failures -/

theorem exists_missingSource {t : Tree} {backs : List Binding} :
    (∃ source, missingSource t backs = some source) ↔
      ∃ b ∈ backs, t.contains b.sourceOrAction = false := by
  rw [← Option.isSome_iff_exists]
  simp [missingSource]

theorem wireNamespace_fails (w : World) (p : Pass) (c : NamespaceConfig) :
    (∃ e, (w.wireNamespace p c).2 = .error e) ↔
      ∃ b ∈ (Lane.mk p.componentScope .emitBack c.emitBacks).compiled,
        (w.tree (.component p.owner)).contains b.sourceOrAction = false := by
  have hbacks := (Lane.mk p.componentScope .emitBack c.emitBacks).compileAll_eq
  rw [← exists_missingSource]
  simp only [wireNamespace, hbacks]
  split <;> simp_all

/-- An emitBack that is registered already needs no source. -/
theorem wireStore_fails (w : World) (p : Pass) (c : StoreWiring) :
    (∃ e, (w.wireStore p c).2 = .error e) ↔
      ∃ b ∈ (Lane.mk (p.storeScope .emitBacks) .emitBack c.emitBacks).compiled,
        w.registry.contains (p.storeScope .emitBacks) .emitBack b.action = false ∧
          w.store.tree.contains b.sourceOrAction = false := by
  have hbacks := (Lane.mk (p.storeScope .emitBacks) .emitBack c.emitBacks).compileAll_eq
  have hnew : (∃ b ∈ (Lane.mk (p.storeScope .emitBacks) .emitBack c.emitBacks).compiled,
      w.registry.contains (p.storeScope .emitBacks) .emitBack b.action = false ∧
        w.store.tree.contains b.sourceOrAction = false) ↔
      ∃ b ∈ (Lane.mk (p.storeScope .emitBacks) .emitBack c.emitBacks).compiled.filter
        (fun b => !w.registry.contains (p.storeScope .emitBacks) .emitBack b.action),
          w.store.tree.contains b.sourceOrAction = false := by
    simp [and_assoc]
  rw [hnew, ← exists_missingSource]
  simp only [wireStore, hbacks]
  split <;> simp_all

/-- A wiring pass is exact. It fails if and only if an emitBack that it needs has nothing to
watch, and then it leaves the world as it was, in which the request fails. Else each lane attaches
the first binding of each action that its scope did not have, and these are all that is registered,
heard, watched and called from then on; each entry is attached, skipped or a duplicate. -/
theorem wiring_pass_exact (w : World) (p : Pass) (hopened : w.Opened p.channel.connection) :
    (∀ c : NamespaceConfig,
      ((∃ e, (w.wireNamespace p c).2 = .error e) ↔
        ∃ b ∈ (Lane.mk p.componentScope .emitBack c.emitBacks).compiled,
          (w.tree (.component p.owner)).contains b.sourceOrAction = false) ∧
      (∀ w' e, w.wireNamespace p c = (w', .error e) →
        w' = w ∧ ∀ request : Connecting, request.pass = p → request.resolved.namespaceConfig = c →
          w.connectNamespace request = w.failConnect request (.binding e)) ∧
      ∀ w' wired, w.wireNamespace p c = (w', .ok wired) →
        Exactly p (.component p.owner) (namespaceLanes p c) w w' wired) ∧
    (∀ c : StoreWiring,
      ((∃ e, (w.wireStore p c).2 = .error e) ↔
        ∃ b ∈ (Lane.mk (p.storeScope .emitBacks) .emitBack c.emitBacks).compiled,
          w.registry.contains (p.storeScope .emitBacks) .emitBack b.action = false ∧
            w.store.tree.contains b.sourceOrAction = false) ∧
      (∀ w' e, w.wireStore p c = (w', .error e) →
        w' = w ∧ ∀ request : Connecting, request.pass = p → request.resolved.store = c →
          w.connectStore request = w.failConnect request (.binding e)) ∧
      ∀ w' wired, w.wireStore p c = (w', .ok wired) →
        Exactly p .store (storeLanes p c) w w' wired) := by
  refine ⟨fun c => ⟨wireNamespace_fails w p c, ?_, fun _ _ => wireNamespace_exactly hopened⟩,
    fun c => ⟨wireStore_fails w p c, ?_, fun _ _ => wireStore_exactly hopened⟩⟩
  · intro w' e hfails
    refine ⟨wireNamespace_of_error hfails, ?_⟩
    rintro request rfl rfl
    exact connectNamespace_of_error hfails
  · intro w' e hfails
    refine ⟨wireStore_of_error hfails, ?_⟩
    rintro request rfl rfl
    exact connectStore_of_error hfails

/-- A component with one value, on a connection. -/
def bench : World :=
  { settings := {}
    connections := [{ url := "http://home", namespaceName := "/" }]
    components := [("a", { data := .ofJson (.obj [("level", .str "low")]) })] }

def benchPass : Pass := ⟨⟨1, "home", none⟩, ⟨"a"⟩, 0, true⟩

/-- Entries of which one does not compile and one comes twice. -/
def benchConfig : NamespaceConfig :=
  { emitters := [.str "ask --> answer"]
    listeners := [.str "news", .str "a + + b", .str "news --> level"]
    emitBacks := [.str "report <-- level"] }

/-- On the bench the first of each is attached. -/
theorem bench_pass_exact : bench.Opened 1 ∧ ∃ w' wired,
    bench.wireNamespace benchPass benchConfig = (w', .ok wired) ∧
      wired.bindings = [⟨.emitter, "ask", none, some "answer", none, none⟩,
        .bareListener "news", ⟨.emitBack, "report", some "level", none, none, none⟩] ∧
      wired.skipped.map (·.raw) = [.str "a + + b"] ∧
        (w'.listenersOn 1).map (·.event) = ["news"] := by
  have hopened : bench.Opened 1 := ⟨_, rfl⟩
  obtain ⟨w', wired, hwire⟩ :
    ∃ w' wired, bench.wireNamespace benchPass benchConfig = (w', .ok wired) :=
    ⟨_, _, rfl⟩
  have hpass := ((wiring_pass_exact bench benchPass hopened).1 benchConfig).2.2 w' wired hwire
  have hbindings : wired.bindings = [⟨.emitter, "ask", none, some "answer", none, none⟩,
      .bareListener "news", ⟨.emitBack, "report", some "level", none, none, none⟩] := by
    rw [hpass.bindings]
    rfl
  obtain ⟨new, hnew, hevents, -⟩ := hpass.adds.heard
  have hheard : w'.listenersOn 1 = new := hnew
  refine ⟨hopened, w', wired, hwire, hbindings, ?_, ?_⟩
  · rw [hpass.skipped]
    rfl
  · rw [hheard, hevents, hbindings]
    rfl

end World

end Patchbay
