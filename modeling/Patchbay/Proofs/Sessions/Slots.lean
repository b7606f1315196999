import Patchbay.Proofs.Engine.Connections

/-!
Connections and the slots they are kept in. A connection that is closed stays closed, and a slot
is given up only once its connection is closed; both hold of every change but the opening of a
connection and the handling of slots by a connect request.
-/

namespace Patchbay

/-- A change that opens no connection and fills or clears no slot. -/
def Change.Holds : Change → Prop
  | .dial .. | .keep .. | .evict _ => False
  | _ => True

theorem Change.Among.holds {c : Change} (h : c.Among (Kind.but [.dial, .keep, .evict])) :
    c.Holds := by
  cases c <;> first | exact trivial | exact h.elim

theorem Change.Basic.holds {c : Change} (h : c.Basic) : c.Holds := Among.holds (h.mono rfl)

theorem Change.Wires.holds {c : Change} (h : c.Wires) : c.Holds := Among.holds (h.among.mono rfl)

theorem Change.Undoes.holds {c : Change} (h : c.Undoes) : c.Holds := Among.holds (h.mono rfl)

theorem Change.Pursues.holds {c : Change} (h : c.Pursues) : c.Holds :=
  Among.holds (h.among.mono rfl)

/-- A command may also open a connection. -/
theorem Change.Commands.holds {c : Change} (h : c.Commands) :
    c.Holds ∨ ∃ url namespaceName, c = .dial url namespaceName := by
  rcases h with hasks | hundoes
  · cases c with
    | dial url namespaceName => exact .inr ⟨url, namespaceName, rfl⟩
    | _ => first | exact hasks.elim | exact .inl trivial
  · exact .inl hundoes.holds

theorem Job.May.holds {job : Job} {c : Change} (h : job.May c)
    (hjob : ∀ ticket name owner opts, job ≠ .connect ticket name owner opts) : c.Holds :=
  Change.Among.holds ((h.among_of_ne_connect hjob).mono rfl)

namespace World

/-- No connection comes or comes back, and no slot of a live one goes. -/
structure Loosens (w w' : World) : Prop where
  length : w'.connections.length = w.connections.length
  connected : ∀ n, w'.isConnected n = true → w.isConnected n = true
  kept : w'.persisted.Sublist w.persisted
  live : ∀ entry ∈ w.persisted, w'.isConnected entry.2 = true → entry ∈ w'.persisted

namespace Loosens

variable {w w' w₁ : World}

theorem same (hconnections : w'.connections = w.connections)
    (hpersisted : w'.persisted = w.persisted) :
    Loosens w w' where
  length := by rw [hconnections]
  connected n h := by rwa [isConnected_congr hconnections] at h
  kept := hpersisted ▸ List.Sublist.refl _
  live entry h _ := by rwa [hpersisted]

theorem woken (h : Loosens w w₁) (hwoken : Woken w₁ w') : Loosens w w' := by
  obtain ⟨ready, parked, rfl, -, -⟩ := hwoken
  exact ⟨h.length, h.connected, h.kept, h.live⟩

/-- A change of one connection that does not open it again. -/
theorem adjust (w : World) (serial : Nat) {f : Connection → Connection}
    (hf : ∀ c, (f c).connected = true → c.connected = true) : Loosens w (w.adjust serial f) where
  length := by
    unfold World.adjust
    by_cases hserial : serial = 0 <;> simp [hserial]
  connected n h := by
    unfold isConnected at h ⊢
    rw [connection?_adjust] at h
    cases hc : w.connection? n with
    | none => simp [hc] at h
    | some c =>
      rw [hc] at h
      by_cases hn : n = serial
      · simp only [hn, ↓reduceIte, Option.map_some] at h
        exact hf c h
      · simpa [hn] using h
  kept := List.Sublist.refl _
  live entry h _ := h

theorem forget (w : World) (serial : Nat) : Loosens w (w.apply (.forget serial)) where
  length := rfl
  connected n h := h
  kept := by
    simp only [apply]
    split
    · exact List.Sublist.refl _
    · exact List.filter_sublist
  live entry h hlive := by
    have hconnected : w.isConnected entry.2 = true := hlive
    simp only [apply]
    split
    · exact h
    · rename_i hdown
      refine List.mem_filter.2 ⟨h, ?_⟩
      have hne : entry.2 ≠ serial := by
        rintro rfl
        exact hdown hconnected
      simpa using hne

end Loosens

theorem effect_persisted (w : World) {c : Change} (hc : c.Plants) :
    (w.effect c).persisted = w.persisted := by
  obtain ⟨_, _, _, _, _, _, heq⟩ := effect_plants w hc
  rw [heq]

theorem apply_loosens (w : World) {c : Change} (hc : c.Holds) : Loosens w (w.apply c) := by
  refine Loosens.woken ?_ (apply_woken w c)
  cases c with
  | dial => exact hc.elim
  | keep => exact hc.elim
  | evict => exact hc.elim
  | listen serial => exact Loosens.adjust w serial fun _ h => h
  | hush serial out =>
    obtain ⟨hlength, hconnected, hkept, hlive⟩ :=
      Loosens.adjust w serial (f := fun c => { c with listeners := (c.listeners.remove out).2 })
        fun _ h => h
    exact ⟨hlength, hconnected, hkept, hlive⟩
  | spend serial => exact Loosens.adjust w serial fun _ h => h
  | expect serial => exact Loosens.adjust w serial fun _ h => h
  | settle serial key =>
    obtain ⟨hlength, hconnected, hkept, hlive⟩ :=
      Loosens.adjust w serial (f := fun c => { c with waiting := c.waiting.filter (·.1 != key) })
        fun _ h => h
    exact ⟨hlength, hconnected, hkept, hlive⟩
  | attachWorker worker serial =>
    obtain ⟨hlength, hconnected, hkept, hlive⟩ :=
      Loosens.adjust { w with workers := w.workers ++ [worker] } serial
        (f := fun c => { c with listeners :=
          (c.listeners.add worker.event (.enqueue w.workers.length worker.token) false).1 })
        fun _ h => h
    exact ⟨hlength, hconnected, hkept, hlive⟩
  | shut serial =>
    obtain ⟨hlength, hconnected, hkept, hlive⟩ :=
      Loosens.adjust w serial (f := fun c => { c with connected := false, waiting := [] })
        fun _ h => absurd h nofun
    exact ⟨hlength, hconnected, hkept, hlive⟩
  | forget serial => exact Loosens.forget w serial
  | set | touch | attachBack | poll | unwatch =>
    exact .same (effect_connections w trivial) (effect_persisted w trivial)
  | track s =>
    simp only [effect, apply, track]
    split <;> exact .same rfl rfl
  | _ => exact .same rfl rfl

/-- Only a request that opens a connection fills a slot. -/
theorem persisted_apply_subset (w : World) {ch : Change} (hkeep : ∀ slot n, ch ≠ .keep slot n) :
    (w.apply ch).persisted ⊆ w.persisted := by
  cases ch with
  | keep slot n => exact absurd rfl (hkeep slot n)
  | dial url namespaceName => exact List.Subset.refl _
  | evict slot => exact List.filter_sublist.subset
  | _ =>
    refine (apply_loosens w ?_).kept.subset
    trivial

end World

end Patchbay
