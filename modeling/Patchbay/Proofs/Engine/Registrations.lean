import Patchbay.Proofs.Engine.Attaching

/-! What a wiring pass registers: an entry for each binding that was free, and it takes none
back. -/

namespace Patchbay

theorem Registry.contains_of_subset {reg reg' : Registry} {scope : Scope} {role : Role}
    {action : String} (hlog : reg.log ⊆ reg'.log) (h : reg.contains scope role action = true) :
    reg'.contains scope role action = true := by
  obtain ⟨r, hr, hholds⟩ := contains_iff.1 h
  exact contains_iff.2 ⟨r, hlog hr, hholds⟩

namespace World

variable {p : Pass} {scope : Scope} {via : ConnectionId} {S : Scope → Prop}
  {held items : List Detach} {w w' w'' : World}

/-- The registry has gained entries by that connection in such scopes, and lost none. -/
def Gains (via : ConnectionId) (S : Scope → Prop) (w w' : World) : Prop :=
  ∃ more, w'.registry.log = w.registry.log ++ more ∧ ∀ r ∈ more, r.via = via ∧ S r.scope

namespace Gains

theorem none (h : w'.registry = w.registry) : Gains via S w w' :=
  ⟨[], by rw [h, List.append_nil], fun _ hr => absurd hr List.not_mem_nil⟩

theorem trans (h : Gains via S w w') (h' : Gains via S w' w'') : Gains via S w w'' := by
  obtain ⟨more, hlog, hmore⟩ := h
  obtain ⟨more', hlog', hmore'⟩ := h'
  refine ⟨more ++ more', by rw [hlog', hlog, List.append_assoc], ?_⟩
  intro r hr
  rcases List.mem_append.1 hr with hr | hr
  · exact hmore r hr
  · exact hmore' r hr

theorem mem (h : Gains via S w w') {r : Registration} (hr : r ∈ w.registry.log) :
    r ∈ w'.registry.log := by
  obtain ⟨more, hlog, -⟩ := h
  rw [hlog]
  exact List.mem_append_left _ hr

/-- In another scope nothing has come. -/
theorem contains_eq (h : Gains via S w w') (hscope : ¬ S scope) (role : Role) (action : String) :
    w'.registry.contains scope role action = w.registry.contains scope role action := by
  obtain ⟨more, hlog, hmore⟩ := h
  have hnone : (more.any fun r => decide (Registry.Holds scope role action r)) = false := by
    refine List.any_eq_false.2 ?_
    intro r hr hholds
    exact hscope ((of_decide_eq_true hholds).1 ▸ (hmore r hr).2)
  simp only [Registry.contains_eq_any, hlog, List.any_append, hnone, Bool.or_false]

end Gains

theorem register_gains (w : World) (b : Binding) (hscope : S scope) :
    Gains via S w (w.apply (.register scope b via)) := by
  refine ⟨_, Registry.log_register w.registry scope b via, ?_⟩
  intro r hr
  split at hr
  · cases hr
  · rw [List.mem_singleton.1 hr]
    exact ⟨rfl, hscope⟩

theorem apply_registry_of_quiet (w : World) {ch : Change} (hch : ch.Quiet) :
    (w.apply ch).registry = w.registry :=
  apply_registry w (by rintro _ _ _ rfl; exact hch) (by rintro _ rfl; exact hch)

theorem Makes.registry_of_quiet (h : Makes Change.Quiet w w') : w'.registry = w.registry :=
  h.keeps (I := fun w' => w'.registry = w.registry)
    (fun w' _ hch hw => (apply_registry_of_quiet w' hch).trans hw) rfl

theorem Attaches.gains (h : Attaches p S held w items w') : Gains p.id S w w' := by
  induction h with
  | nothing => exact .none rfl
  | quiet _ _ hch ih => exact ih.trans (.none (apply_registry_of_quiet _ hch))
  | claim b _ hscope ih => exact ih.trans (register_gains _ b hscope)
  | hear _ _ _ _ ih => exact ih.trans (.none (apply_registry _ (by simp) (by simp)))
  | employ _ _ _ ih => exact ih.trans (.none (apply_registry _ (by simp) (by simp)))
  | send _ _ _ ih => exact ih.trans (.none (apply_registry _ (by simp) (by simp)))

/-- What may claim nothing registers nothing. -/
theorem Attaches.registry_eq (h : Attaches p (fun _ => False) held w items w') :
    w'.registry = w.registry := by
  induction h with
  | nothing => rfl
  | quiet _ _ hch ih => exact (apply_registry_of_quiet _ hch).trans ih
  | claim _ _ hscope => exact hscope.elim
  | hear _ _ _ _ ih => exact (apply_registry _ (by simp) (by simp)).trans ih
  | employ _ _ _ ih => exact (apply_registry _ (by simp) (by simp)).trans ih
  | send _ _ _ ih => exact (apply_registry _ (by simp) (by simp)).trans ih

/-- An area of the store registers in the scope of that area. -/
theorem wireArea_gains (hopened : w.Opened p.channel.connection) (c : StoreWiring)
    (area : StoreArea) : Gains p.id (· = p.storeScope area) w (w.wireArea p c area).1 := by
  have hstart : Attaches p (· = p.storeScope area) [] w [] w := .nothing hopened
  exact (hstart.wireArea c rfl).gains

/-- What is registered takes no other role and action. -/
theorem free_of_concat {reg reg' : Registry} {id : ConnectionId} {role : Role} {action : String}
    {b : Binding} (hlog : reg'.log = reg.log ++ [⟨scope, b, id⟩])
    (hfree : reg.contains scope role action = false)
    (hother : ¬ (role = b.role ∧ action = b.action)) :
    reg'.contains scope role action = false := by
  rw [Registry.contains_eq_any] at hfree
  simp only [Registry.contains_eq_any, hlog, List.any_append, Bool.or_eq_false_iff]
  refine ⟨hfree, ?_⟩
  simp only [List.any_cons, List.any_nil, Bool.or_false, decide_eq_false_iff_not]
  rintro ⟨-, hrole, haction⟩
  exact hother ⟨hrole.symm, haction.symm⟩

section Claims

variable {attach : World → Binding → World × List (Subscription Detach)}

/-- Of bindings of one role the first of each action that was free is registered, and what comes of
its attachment lasts. -/
theorem attachAll_claims {E : World → List Detach → Binding → Prop} {I : World → Prop}
    (hattacher : Attacher p attach) (hopened : ∀ w, I w → w.Opened p.channel.connection)
    (hI : ∀ w ch, ch.Wires → I w → I (w.apply ch))
    (hE : ∀ w items b ch, E w items b → E (w.apply ch) items b)
    (hmono : ∀ w items more b, items ⊆ more → E w items b → E w more b)
    (hattach : ∀ w b, I w → E (attach w b).1 ((attach w b).2.filterMap (·.undo)) b)
    (hw : I w) {role : Role} {bindings : List Binding} (hroles : ∀ b ∈ bindings, b.role = role) :
    ∀ b ∈ bindings, w.registry.contains scope role b.action = false →
      ∃ first, bindings.find? (·.action == b.action) = some first ∧
        ⟨scope, first, p.id⟩ ∈ (w.attachAll p scope attach bindings).1.registry.log ∧
        E (w.attachAll p scope attach bindings).1 (w.attachAll p scope attach bindings).2.items
          first := by
  induction bindings generalizing w with
  | nil => exact fun _ hb => absurd hb List.not_mem_nil
  | cons b rest ih =>
    obtain ⟨hrole, hrest⟩ := List.forall_mem_cons.1 hroles
    unfold attachAll
    split
    · rename_i refused hclaim
      obtain ⟨rfl, htaken⟩ := claim_refused hclaim
      rw [hrole] at htaken
      intro b' hb' hfree
      have hne : ¬ (b.action == b'.action) = true := by
        intro hsame
        rw [← eq_of_beq hsame, htaken] at hfree
        cases hfree
      rcases List.mem_cons.1 hb' with rfl | hb'
      · exact absurd (beq_self_eq_true _) hne
      · obtain ⟨first, hfound, hmade⟩ := ih hw hrest b' hb' hfree
        refine ⟨first, ?_, hmade⟩
        rw [List.find?_cons, Bool.eq_false_iff.2 hne]
        exact hfound
    · rename_i claimed hclaim
      have hclaimed : I claimed := claim_eq hclaim ▸ hI w _ trivial hw
      have hfirst : Attaches p (fun _ => False) [] claimed _ (attach claimed b).1 :=
        hattacher b (.nothing (hopened claimed hclaimed))
      have hattached : I (attach claimed b).1 := hfirst.makes.keeps hI hclaimed
      have hlog : (attach claimed b).1.registry.log = w.registry.log ++ [⟨scope, b, p.id⟩] := by
        rw [hfirst.registry_eq, (claim_granted hclaim).2]
      have hstart : Attaches p (· = scope) [] (attach claimed b).1 [] (attach claimed b).1 :=
        .nothing (hopened _ hattached)
      have hmore := hstart.attachAll hattacher rfl rest
      dsimp only
      intro b' hb' hfree
      by_cases hsame : (b.action == b'.action) = true
      · refine ⟨b, List.find?_cons_of_pos hsame, hmore.gains.mem ?_, ?_⟩
        · rw [hlog]
          exact List.mem_append_right _ List.mem_cons_self
        · have hlasts : E ((attach claimed b).1.attachAll p scope attach rest).1 _ b :=
            hmore.makes.keeps (I := fun w => E w _ b) (fun w ch _ hw => hE w _ b ch hw)
              (hattach claimed b hclaimed)
          refine hmono _ _ _ b ?_ hlasts
          rw [Wired.items_append]
          exact List.subset_append_left _ _
      · have hb'' : b' ∈ rest := by
          rcases List.mem_cons.1 hb' with rfl | hb'
          · exact absurd (beq_self_eq_true _) hsame
          · exact hb'
        have hother : ¬ (role = b.role ∧ b'.action = b.action) := fun hboth =>
          hsame (beq_iff_eq.2 hboth.2.symm)
        obtain ⟨first, hfound, hregistered, hevidence⟩ :=
          ih hattached hrest b' hb'' (free_of_concat hlog hfree hother)
        refine ⟨first, ?_, hregistered, hmono _ _ _ first ?_ hevidence⟩
        · rw [List.find?_cons, Bool.eq_false_iff.2 hsame]
          exact hfound
        · rw [Wired.items_append]
          exact List.subset_append_right _ _

end Claims

end World

end Patchbay
