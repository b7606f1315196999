import Patchbay.Proofs.Engine.Run

/-!
What a change does to the connections, the registry and the settings. A connection keeps the
address and the namespace it was opened with and is not opened again, a listener keeps its number,
and the settings never change.
-/

namespace Patchbay

namespace Change

/-- What a change makes of the connection of that number. -/
def reshape (w : World) (n : Nat) : Change → Connection → Connection
  | .listen serial event action once, c =>
    if n = serial then { c with listeners := (c.listeners.add event action once).1 } else c
  | .hush serial out, c =>
    if n = serial then { c with listeners := (c.listeners.remove out).2 } else c
  | .spend serial event, c =>
    if n = serial then { c with listeners := (c.listeners.deliver event).2 } else c
  | .expect serial cell, c =>
    if n = serial then
      { c with waiting := c.waiting ++ [(c.nextKey, cell)], nextKey := c.nextKey + 1 }
    else c
  | .settle serial key _, c =>
    if n = serial then { c with waiting := c.waiting.filter (·.1 != key) } else c
  | .shut serial, c => if n = serial then { c with connected := false, waiting := [] } else c
  | .attachWorker worker serial, c =>
    if n = serial then
      { c with listeners :=
        (c.listeners.add worker.event (.enqueue w.workers.length worker.token) false).1 }
    else c
  | _, c => c

variable (w : World) (n : Nat) (ch : Change) (c : Connection)

@[simp] theorem reshape_url : (ch.reshape w n c).url = c.url := by
  cases ch <;> simp only [reshape] <;> split <;> rfl

@[simp] theorem reshape_namespaceName : (ch.reshape w n c).namespaceName = c.namespaceName := by
  cases ch <;> simp only [reshape] <;> split <;> rfl

/-- A change may add one listener, under the next number, or take some off. -/
theorem reshape_listeners :
    (∃ l, l.id = c.listeners.next ∧ (ch.reshape w n c).listeners =
      ⟨c.listeners.entries ++ [l], c.listeners.next + 1⟩) ∨
    ((ch.reshape w n c).listeners.next = c.listeners.next ∧
      (ch.reshape w n c).listeners.entries ⊆ c.listeners.entries) := by
  have hsame {c' : Connection} (h : c'.listeners = c.listeners) : c'.listeners.next =
      c.listeners.next ∧ c'.listeners.entries ⊆ c.listeners.entries := by
    rw [h]
    exact ⟨rfl, List.Subset.refl _⟩
  cases ch with
  | listen serial event action once =>
    simp only [reshape]
    split
    · exact .inl ⟨⟨c.listeners.next, event, action, once⟩, rfl, rfl⟩
    · exact .inr (hsame rfl)
  | attachWorker worker serial =>
    simp only [reshape]
    split
    · exact .inl ⟨⟨c.listeners.next, worker.event, _, false⟩, rfl, rfl⟩
    · exact .inr (hsame rfl)
  | hush serial out =>
    simp only [reshape]
    split
    · exact .inr ⟨rfl, List.filter_sublist.subset⟩
    · exact .inr (hsame rfl)
  | spend serial event =>
    simp only [reshape]
    split
    · exact .inr ⟨rfl, List.filter_sublist.subset⟩
    · exact .inr (hsame rfl)
  | expect => exact .inr (hsame (by simp only [reshape]; split <;> rfl))
  | settle => exact .inr (hsame (by simp only [reshape]; split <;> rfl))
  | shut => exact .inr (hsame (by simp only [reshape]; split <;> rfl))
  | _ => exact .inr (hsame rfl)

theorem connected_of_reshape (h : (ch.reshape w n c).connected = true) : c.connected = true := by
  cases ch <;> simp only [reshape] at h <;> (try split at h) <;> first | exact h | cases h

/-- Only shutting a connection closes it. -/
theorem connected_reshape (h : ch ≠ .shut n) : (ch.reshape w n c).connected = c.connected := by
  cases ch with
  | shut m =>
    have hne : n ≠ m := fun heq => h (heq ▸ rfl)
    simp only [reshape, if_neg hne]
  | _ => simp only [reshape] <;> (try split) <;> rfl

end Change

namespace World

variable {w w' : World}

theorem Woken.connections (h : Woken w w') : w'.connections = w.connections := by
  rw [h.eq]

theorem Woken.registry (h : Woken w w') : w'.registry = w.registry := by
  rw [h.eq]

theorem Woken.settings (h : Woken w w') : w'.settings = w.settings := by
  rw [h.eq]

theorem effect_connections (w : World) {ch : Change} (hch : ch.Plants) :
    (w.effect ch).connections = w.connections := by
  obtain ⟨_, _, _, _, _, _, heq⟩ := effect_plants w hch
  rw [heq]

theorem connection?_congr (h : w'.connections = w.connections) (n : Nat) :
    w'.connection? n = w.connection? n := by
  simp only [connection?, h]

theorem connection?_append {c : Connection} {n : Nat} (h : w.connection? n = some c)
    (hw : ∃ more, w'.connections = w.connections ++ more) : w'.connection? n = some c := by
  obtain ⟨more, hmore⟩ := hw
  unfold connection? at h ⊢
  split at h
  · cases h
  · rename_i hn
    have hlt := (List.getElem?_eq_some_iff.1 h).1
    rw [if_neg hn, hmore, List.getElem?_append_left hlt, h]

/-- A connection is reshaped by a change or left alone, and only opening makes a new one. -/
theorem connection?_apply_of_ne {ch : Change} (hdial : ∀ url name, ch ≠ .dial url name) (n : Nat) :
    (w.apply ch).connection? n = (w.connection? n).map (ch.reshape w n) := by
  have hsame {w' : World} (hfield : w'.connections = w.connections) :
      w'.connection? n = (w.connection? n).map id := by
    rw [Option.map_id_fun, id, connection?_congr hfield]
  have hadjusted (serial : Nat) (f : Connection → Connection) : (w.adjust serial f).connection? n =
      (w.connection? n).map fun c => if n = serial then f c else c := by
    rw [connection?_adjust]
    split <;> simp
  rw [connection?_congr (apply_woken w ch).connections]
  cases ch with
  | listen serial event action once => exact hadjusted serial _
  | hush serial out => exact hadjusted serial _
  | spend serial event => exact hadjusted serial _
  | expect serial cell => exact hadjusted serial _
  | settle serial key v => exact hadjusted serial _
  | shut serial => exact hadjusted serial _
  | attachWorker worker serial => exact hadjusted serial _
  | dial url name => exact absurd rfl (hdial url name)
  | set | touch | attachBack | poll | unwatch => exact hsame (effect_connections w trivial)
  | track s => exact hsame (by simp only [effect, apply, track]; split <;> rfl)
  | _ => exact hsame rfl

/-- A connection that is there stays there, as the change reshapes it. -/
theorem connection?_apply {n : Nat} {c : Connection} (h : w.connection? n = some c) (ch : Change) :
    (w.apply ch).connection? n = some (ch.reshape w n c) := by
  by_cases hdial : ∃ url name, ch = .dial url name
  · obtain ⟨url, name, rfl⟩ := hdial
    exact connection?_append h ⟨_, rfl⟩
  · rw [connection?_apply_of_ne (fun url name heq => hdial ⟨url, name, heq⟩) n, h, Option.map_some]

/-- What is there after a change was there before it, or is new: nobody listens and nothing
waits. -/
theorem connection?_of_apply {n : Nat} {c : Connection} {ch : Change}
    (h : (w.apply ch).connection? n = some c) :
    (∃ c', w.connection? n = some c' ∧ c = ch.reshape w n c') ∨
      (w.connection? n = none ∧ c.listeners = {} ∧ c.waiting = []) := by
  by_cases hdial : ∃ url name, ch = .dial url name
  · obtain ⟨url, name, rfl⟩ := hdial
    cases hc : w.connection? n with
    | some c' =>
      rw [connection?_apply hc] at h
      exact .inl ⟨c', rfl, (Option.some.inj h).symm⟩
    | none =>
      refine .inr ⟨rfl, ?_⟩
      unfold connection? at h hc
      split at h
      · cases h
      · rename_i hn
        rw [if_neg hn] at hc
        have hlast := List.getElem?_append_right (List.getElem?_eq_none_iff.1 hc) ▸ h
        have hmem := List.mem_of_getElem? hlast
        rw [List.mem_singleton.1 hmem]
        exact ⟨rfl, rfl⟩
  · rw [connection?_apply_of_ne (fun url name heq => hdial ⟨url, name, heq⟩) n] at h
    obtain ⟨c', hc', rfl⟩ := Option.map_eq_some_iff.1 h
    exact .inl ⟨c', hc', rfl⟩

/-- A new connection is open, and the others are as they were. -/
theorem isConnected_dial (w : World) (url namespaceName : String) (n : Nat) :
    (w.apply (.dial url namespaceName)).isConnected n =
      if n = w.connections.length + 1 then true else w.isConnected n := by
  simp only [apply, isConnected, connection?]
  by_cases hzero : n = 0
  · simp [hzero]
  · rw [if_neg hzero, if_neg hzero]
    by_cases hnew : n = w.connections.length + 1
    · simp [hnew]
    · rw [if_neg hnew]
      by_cases hold : n - 1 < w.connections.length
      · rw [List.getElem?_append_left hold]
      · have hbeyond : w.connections.length + 1 ≤ n - 1 := by omega
        rw [List.getElem?_eq_none (by simpa using hbeyond), List.getElem?_eq_none (by omega)]

/-- The connection was opened, and may be closed by now. -/
def Opened (w : World) (n : Nat) : Prop := ∃ c, w.connection? n = some c

theorem opened_of_isConnected {n : Nat} (h : w.isConnected n = true) : w.Opened n := by
  unfold isConnected at h
  split at h
  · rename_i c hc
    exact ⟨c, hc⟩
  · cases h

theorem Opened.apply {n : Nat} (h : w.Opened n) (ch : Change) : (w.apply ch).Opened n := by
  obtain ⟨c, hc⟩ := h
  exact ⟨_, connection?_apply hc ch⟩

/-- A connection that is open now was open before. -/
theorem Opened.isConnected_of_apply {n : Nat} (h : w.Opened n) {ch : Change}
    (hlive : (w.apply ch).isConnected n = true) : w.isConnected n = true := by
  obtain ⟨c, hc⟩ := h
  simp only [isConnected, connection?_apply hc ch] at hlive
  simp only [isConnected, hc]
  exact Change.connected_of_reshape w n ch c hlive

theorem Opened.makes {P : Change → Prop} {n : Nat} (h : w.Opened n) (hmakes : Makes P w w') :
    w'.Opened n :=
  hmakes.keeps (I := fun w => w.Opened n) (fun _ ch _ hw => Opened.apply hw ch) h

theorem Opened.isConnected_of_makes {P : Change → Prop} {n : Nat} (h : w.Opened n)
    (hmakes : Makes P w w') (hlive : w'.isConnected n = true) : w.isConnected n = true := by
  induction hmakes with
  | nothing => exact hlive
  | more ch hbefore _ ih => exact ih ((h.makes hbefore).isConnected_of_apply hlive)

/-- A connection that is open later is open now, if it was opened by now. -/
theorem Run.isConnected_earlier {log : List Moment} {n : Nat} (h : Run w log w')
    (hopened : w.Opened n) (hlive : w'.isConnected n = true) : w.isConnected n = true := by
  have hback : w'.Opened n ∧ (w'.isConnected n = true → w.isConnected n = true) :=
    h.keeps (I := fun v => v.Opened n ∧ (v.isConnected n = true → w.isConnected n = true))
      (fun v ch hv => ⟨hv.1.apply ch, fun hlive => hv.2 (hv.1.isConnected_of_apply hlive)⟩)
      (fun _ _ _ _ _ hv => hv) ⟨hopened, fun hlive => hlive⟩
  exact hback.2 hlive

/-- The hub lists open connections. -/
def Listed (w : World) : Prop := ∀ n ∈ w.hub, w.isConnected n = true

theorem Woken.hub (h : Woken w w') : w'.hub = w.hub := by
  rw [h.eq]

/-- The hub forgets a connection that is shut, and learns of none but new ones. -/
theorem mem_hub_apply (w : World) {ch : Change} (hdial : ∀ url name, ch ≠ .dial url name)
    (n : Nat) :
    n ∈ (w.apply ch).hub ↔ n ∈ w.hub ∧ ch ≠ .shut n := by
  have hsame (hother : ch ≠ .shut n) (hhub : (w.effect ch).hub = w.hub) :
      n ∈ (w.effect ch).hub ↔ n ∈ w.hub ∧ ch ≠ .shut n := by
    simp [hhub, hother]
  rw [(apply_woken w ch).hub]
  by_cases hplants : ch.Plants
  · obtain ⟨_, _, _, _, _, _, heq⟩ := effect_plants w hplants
    exact hsame (by rintro rfl; exact hplants) (by rw [heq])
  · cases ch with
    | dial url name => exact absurd rfl (hdial url name)
    | shut m =>
      have hlisted : n ∈ (w.effect (.shut m)).hub ↔ n ∈ w.hub ∧ (n != m) = true := List.mem_filter
      rw [hlisted, bne_iff_ne]
      refine and_congr_right fun _ => ⟨fun hne heq => hne (Change.shut.inj heq).symm, ?_⟩
      rintro hne rfl
      exact hne rfl
    | track s => exact hsame (by simp) (by simp only [effect, apply, track]; split <;> rfl)
    | _ => first | exact hsame (by simp) rfl | exact absurd trivial hplants

/-- A connection is as open as it was, unless it is new or shut. -/
theorem isConnected_apply_of_ne {n : Nat} {ch : Change} (hdial : ∀ url name, ch ≠ .dial url name)
    (hshut : ch ≠ .shut n) : (w.apply ch).isConnected n = w.isConnected n := by
  unfold isConnected
  rw [connection?_apply_of_ne hdial]
  cases w.connection? n with
  | none => rfl
  | some c => exact Change.connected_reshape w n ch c hshut

/-- Only shutting a connection closes it. -/
theorem isConnected_apply {n : Nat} {ch : Change} (h : w.isConnected n = true)
    (hshut : ch ≠ .shut n) : (w.apply ch).isConnected n = true := by
  obtain ⟨c, hc⟩ := opened_of_isConnected h
  simp only [isConnected, hc] at h
  simp only [isConnected, connection?_apply hc ch, ch.connected_reshape w n c hshut, h]

/-- A connection that nothing shuts stays open. -/
theorem isConnected_later {P : Change → Prop} {n : Nat} (h : w.isConnected n = true)
    (hmakes : Makes P w w') (hshut : ¬ P (.shut n)) : w'.isConnected n = true := by
  refine hmakes.keeps (I := fun w => w.isConnected n = true) (fun w ch hch hw => ?_) h
  exact isConnected_apply hw (by rintro rfl; exact hshut hch)

theorem Listed.apply (h : w.Listed) (ch : Change) : (w.apply ch).Listed := by
  by_cases hdial : ∃ url name, ch = .dial url name
  · obtain ⟨url, name, rfl⟩ := hdial
    intro n hn
    rw [isConnected_dial]
    rcases List.mem_append.1 hn with hn | hn
    · simp [h n hn]
    · simp [List.mem_singleton.1 hn]
  · intro n hn
    obtain ⟨hold, hshut⟩ := (mem_hub_apply w (fun url name heq => hdial ⟨url, name, heq⟩) n).1 hn
    exact isConnected_apply (h n hold) hshut

theorem Listed.makes {P : Change → Prop} (h : w.Listed) (hmakes : Makes P w w') : w'.Listed :=
  hmakes.keeps (fun _ ch _ hw => hw.apply ch) h

/-- Only registration and release change the registry. -/
theorem apply_registry (w : World) {ch : Change}
    (hregister : ∀ scope b via, ch ≠ .register scope b via)
    (hrelease : ∀ serial, ch ≠ .releaseBindings serial) : (w.apply ch).registry = w.registry := by
  rw [(apply_woken w ch).registry]
  by_cases hplants : ch.Plants
  · obtain ⟨_, _, _, _, _, _, heq⟩ := effect_plants w hplants
    rw [heq]
  · cases ch with
    | register scope b via => exact absurd rfl (hregister scope b via)
    | releaseBindings serial => exact absurd rfl (hrelease serial)
    | track s => simp only [effect, apply, track]; split <;> rfl
    | _ => first | rfl | exact absurd trivial hplants

theorem registry_apply_subset (w : World) {ch : Change}
    (hregister : ∀ scope b via, ch ≠ .register scope b via) :
    (w.apply ch).registry.log ⊆ w.registry.log := by
  by_cases hrelease : ∃ serial, ch = .releaseBindings serial
  · obtain ⟨serial, rfl⟩ := hrelease
    simp only [apply]
    split
    · exact List.Subset.refl _
    · rw [Registry.log_release]
      exact List.filter_sublist.subset
  · rw [apply_registry w hregister fun serial heq => hrelease ⟨serial, heq⟩]
    exact List.Subset.refl _

/-- What an open connection has registered stays registered. -/
theorem mem_registry_apply {r : Registration} {n : Nat} (hr : r ∈ w.registry.log)
    (hvia : r.via = .opened n) (hlive : w.isConnected n = true) (ch : Change) :
    r ∈ (w.apply ch).registry.log := by
  have hsame (h : (w.apply ch).registry = w.registry) : r ∈ (w.apply ch).registry.log := by rwa [h]
  cases ch with
  | register scope b via =>
    simp only [apply, Registry.log_register]
    exact List.mem_append_left _ hr
  | releaseBindings serial =>
    simp only [apply]
    split
    · exact hr
    · rename_i hdown
      have hne : serial ≠ n := by
        rintro rfl
        exact hdown hlive
      rw [Registry.log_release]
      refine List.mem_filter.2 ⟨hr, ?_⟩
      simpa [hvia] using Ne.symm hne
  | _ => exact hsame (apply_registry w (by simp) (by simp))

theorem apply_settings (w : World) (ch : Change) : (w.apply ch).settings = w.settings := by
  rw [(apply_woken w ch).settings]
  by_cases hplants : ch.Plants
  · obtain ⟨_, _, _, _, _, _, heq⟩ := effect_plants w hplants
    rw [heq]
  · cases ch with
    | track s => simp only [effect, apply, track]; split <;> rfl
    | _ => first | rfl | exact absurd trivial hplants

end World

end Patchbay
