import Patchbay.Proofs.Sessions.Slots

/-!
The slots of kept connections against the connections that were opened under them. A live connection
that was opened under a slot is the one kept in it, so a request for the slot finds it; and a slot
with a closed connection is cleared before a new one is opened.
-/

namespace Patchbay

/-- A scope and a persistence key. -/
abbrev Slot := String × String

namespace Resolved

/-- The slot a request asks for. -/
def slot? (r : Resolved) : Option Slot := r.persistKey.map (r.scope, ·)

/-- The connection a request opens. -/
def dialled (r : Resolved) : Connection :=
  { url := r.url, namespaceName := if r.namespaceName.isEmpty then "/" else r.namespaceName }

/-- What a request opened under its slot, by what it got. -/
def opening (r : Resolved) : Except TransportError (Nat × Bool) → List (Slot × Nat)
  | .ok (serial, false) => r.slot?.toList.map (·, serial)
  | _ => []

end Resolved

namespace World

variable {w w' : World} {opened : List (Slot × Nat)} {r : Resolved} {slot : Slot}

/-- The slots against the connections that were opened under them. -/
structure Kept (opened : List (Slot × Nat)) (w : World) : Prop where
  live : ∀ entry ∈ opened, w.isConnected entry.2 = true → entry ∈ w.persisted
  origin : w.persisted ⊆ opened
  single : (w.persisted.map (·.1)).Nodup
  given : ∀ entry ∈ opened, entry.2 ≤ w.connections.length

namespace Kept

theorem loosens (h : Kept opened w) (hw : Loosens w w') : Kept opened w' where
  live entry hmem hlive := hw.live entry (h.live entry hmem (hw.connected _ hlive)) hlive
  origin := List.Subset.trans hw.kept.subset h.origin
  single := (hw.kept.map _).nodup h.single
  given entry hmem := by
    rw [hw.length]
    exact h.given entry hmem

theorem holds (h : Kept opened w) (hmakes : Makes Change.Holds w w') : Kept opened w' :=
  hmakes.keeps (fun w _ hc hw => hw.loosens (apply_loosens w hc)) h

/-- A new connection was not opened before. -/
theorem dial (h : Kept opened w) (url namespaceName : String) :
    Kept opened (w.apply (.dial url namespaceName)) where
  live entry hmem hlive := by
    have hold : entry.2 ≠ w.connections.length + 1 := by
      have := h.given entry hmem
      omega
    rw [isConnected_dial, if_neg hold] at hlive
    exact h.live entry hmem hlive
  origin := h.origin
  single := h.single
  given entry hmem := by
    have := h.given entry hmem
    simp only [apply, List.length_append, List.length_singleton]
    omega

theorem commands (h : Kept opened w) (hmakes : Makes Change.Commands w w') : Kept opened w' := by
  refine hmakes.keeps ?_ h
  intro w _ hc hw
  rcases hc.holds with hholds | ⟨url, namespaceName, rfl⟩
  · exact hw.loosens (apply_loosens w hholds)
  · exact hw.dial url namespaceName

/-- What is kept in a slot is found there. -/
theorem persistedAt {serial : Nat} (h : Kept opened w) (hmem : ((slot.1, slot.2), serial) ∈ opened)
    (hlive : w.isConnected serial = true) : w.persistedAt slot.1 slot.2 = some serial :=
  lookup_of_mem h.single (h.live _ hmem hlive)

theorem unique {serial serial' : Nat} (h : Kept opened w) (hmem : (slot, serial) ∈ opened)
    (hmem' : (slot, serial') ∈ opened) (hlive : w.isConnected serial = true)
    (hlive' : w.isConnected serial' = true) : serial = serial' :=
  Option.some.inj ((h.persistedAt hmem hlive).symm.trans (h.persistedAt hmem' hlive'))

/-- A slot may be cleared when what is kept in it is closed. -/
theorem evict (h : Kept opened w) (hdown : ∀ serial, (slot, serial) ∈ w.persisted →
    w.isConnected serial = false) : Kept opened (w.apply (.evict slot)) where
  live entry hmem hlive := by
    have hkept := h.live entry hmem hlive
    refine List.mem_filter.2 ⟨hkept, ?_⟩
    have hne : entry.1 ≠ slot := by
      rintro rfl
      have hconnected : w.isConnected entry.2 = true := hlive
      rw [hdown entry.2 hkept] at hconnected
      cases hconnected
    simpa using hne
  origin := List.Subset.trans List.filter_sublist.subset h.origin
  single := (List.filter_sublist.map _).nodup h.single
  given := h.given

/-- An empty slot takes a connection that was just opened. -/
theorem keep {serial : Nat} (h : Kept opened w) (hempty : ∀ n, (slot, n) ∉ w.persisted)
    (hgiven : serial ≤ w.connections.length) :
    Kept (opened ++ [(slot, serial)]) (w.apply (.keep slot serial)) := by
  have hfilter : w.persisted.filter (·.1 != slot) = w.persisted := by
    refine List.filter_eq_self.2 ?_
    intro entry hmem
    have hne : entry.1 ≠ slot := by
      rintro rfl
      exact hempty entry.2 hmem
    simpa using hne
  constructor
  · intro entry hmem hlive
    simp only [apply, hfilter]
    rcases List.mem_append.1 hmem with hmem | hmem
    · exact List.mem_append_left _ (h.live entry hmem hlive)
    · exact List.mem_append_right _ hmem
  · simp only [apply, hfilter]
    intro entry hmem
    rcases List.mem_append.1 hmem with hmem | hmem
    · exact List.mem_append_left _ (h.origin hmem)
    · exact List.mem_append_right _ hmem
  · simp only [apply, hfilter, List.map_append, List.map_singleton]
    refine List.nodup_append.2 ⟨h.single, by simp, ?_⟩
    intro a ha b hb heq
    obtain ⟨entry, hmem, rfl⟩ := List.mem_map.1 ha
    obtain rfl := List.mem_singleton.1 hb
    exact hempty entry.2 (heq ▸ hmem)
  · intro entry hmem
    rcases List.mem_append.1 hmem with hmem | hmem
    · exact h.given entry hmem
    · rw [List.mem_singleton.1 hmem]
      exact hgiven

end Kept

/-! Requests -/

theorem openFor_refused (w : World) (hurl : r.url.isEmpty = true) :
    w.openFor r = (.error (.connectFailed r.url "empty url"),
      w.record (.opened r.url r.namespaceName r.extra)) := by
  simp only [openFor, openConnection, hurl, ↓reduceIte]

/-- A request that opens a connection keeps it in the slot it asks for. -/
theorem openFor_opened (w : World) (hurl : r.url.isEmpty = false) :
    (w.openFor r).1 = .ok (w.connections.length + 1, false) ∧
      (w.openFor r).2 = r.slot?.elim id
        (fun slot w' => w'.apply (.keep slot (w.connections.length + 1)))
        ((w.record (.opened r.url r.namespaceName r.extra)).apply
          (.dial r.url r.namespaceName)) := by
  simp only [openFor, openConnection, hurl, Resolved.slot?]
  cases r.persistKey <;> exact ⟨rfl, rfl⟩

theorem openFor_connections (w : World) (hurl : r.url.isEmpty = false) :
    (w.openFor r).2.connections = w.connections ++ [r.dialled] := by
  rw [(openFor_opened w hurl).2]
  cases r.slot? <;> rfl

/-- At most the slot of the request is filled, with the connection that it opens. -/
theorem openFor_ok {serial : Nat} {reused : Bool} (h : (w.openFor r).1 = .ok (serial, reused)) :
    (w.openFor r).2.registry = w.registry ∧
      ∀ entry ∈ (w.openFor r).2.persisted, entry ∈ w.persisted ∨ entry.2 = serial := by
  cases hurl : r.url.isEmpty with
  | true =>
    rw [openFor_refused w hurl] at h
    cases h
  | false =>
    obtain ⟨hresult, hworld⟩ := openFor_opened w hurl
    rw [hresult] at h
    obtain ⟨rfl, -⟩ := Prod.mk.inj (Except.ok.inj h)
    rw [hworld]
    cases r.slot? with
    | none => exact ⟨rfl, fun entry hentry => .inl hentry⟩
    | some slot =>
      refine ⟨rfl, fun entry hentry => ?_⟩
      rcases List.mem_append.1 hentry with hold | hnew
      · exact .inl (List.mem_filter.1 hold).1
      · exact .inr (congrArg Prod.snd (List.mem_singleton.1 hnew))

theorem Kept.openFor (h : Kept opened w) (hempty : ∀ slot ∈ r.slot?, ∀ n, (slot, n) ∉ w.persisted) :
    Kept (opened ++ r.opening (w.openFor r).1) (w.openFor r).2 := by
  have hrecorded : Kept opened (w.record (.opened r.url r.namespaceName r.extra)) :=
    h.loosens (.same rfl rfl)
  cases hurl : r.url.isEmpty with
  | true =>
    rw [openFor_refused w hurl]
    simpa [Resolved.opening] using hrecorded
  | false =>
    obtain ⟨hresult, hworld⟩ := openFor_opened w hurl
    have hdialled := hrecorded.dial r.url r.namespaceName
    rw [hresult, hworld]
    cases hslot : r.slot? with
    | none => simpa [Resolved.opening, hslot] using hdialled
    | some slot =>
      have hgiven : w.connections.length + 1 ≤ ((w.record (.opened r.url r.namespaceName
          r.extra)).apply (.dial r.url r.namespaceName)).connections.length := by
        simp [apply, record]
      have hkept := hdialled.keep (hempty slot hslot) hgiven
      simpa [Resolved.opening, hslot] using hkept

/-- The slot of a request and what is kept in it. -/
theorem acquire_eq (w : World) (r : Resolved) :
    w.acquire r = match r.slot?.bind fun slot => w.persisted.lookup slot with
      | none => w.openFor r
      | some serial =>
        if w.isConnected serial then (.ok (serial, true), w)
        else ((w.apply (.evict (r.slot?.getD ("", "")))).releaseBindings serial).openFor r := by
  unfold acquire Resolved.slot?
  cases r.persistKey <;> rfl

theorem acquire_of_empty (hslot : r.slot? = some slot) (hnone : w.persisted.lookup slot = none) :
    w.acquire r = w.openFor r := by
  simp only [acquire_eq, hslot, Option.bind_some, hnone]

theorem acquire_of_live {serial : Nat} (hslot : r.slot? = some slot)
    (hsome : w.persisted.lookup slot = some serial) (hlive : w.isConnected serial = true) :
    w.acquire r = (.ok (serial, true), w) := by
  simp only [acquire_eq, hslot, Option.bind_some, hsome, hlive, ↓reduceIte]

theorem acquire_of_down {serial : Nat} (hslot : r.slot? = some slot)
    (hsome : w.persisted.lookup slot = some serial) (hdown : w.isConnected serial = false) :
    w.acquire r = ((w.apply (.evict slot)).releaseBindings serial).openFor r := by
  simp [acquire_eq, hslot, hsome, hdown]

/-- A request gets the live connection kept in its slot, or opens one. -/
theorem acquire_cases (w : World) (r : Resolved) :
    (∃ slot serial, r.slot? = some slot ∧ w.persisted.lookup slot = some serial ∧
      w.isConnected serial = true ∧ w.acquire r = (.ok (serial, true), w)) ∨
      ∃ start : World, Makes Change.Evicts w start ∧ start.connections = w.connections ∧
        w.acquire r = start.openFor r := by
  cases hslot : r.slot? with
  | none => exact .inr ⟨w, .nothing, rfl, by simp only [acquire_eq, hslot, Option.bind_none]⟩
  | some slot =>
    cases hlookup : w.persisted.lookup slot with
    | none => exact .inr ⟨w, .nothing, rfl, acquire_of_empty hslot hlookup⟩
    | some serial =>
      cases hlive : w.isConnected serial with
      | true =>
        exact .inl ⟨slot, serial, rfl, hlookup, hlive, acquire_of_live hslot hlookup hlive⟩
      | false =>
        have hreleased : (w.apply (.evict slot)).releaseBindings serial =
            (w.apply (.evict slot)).apply (.releaseBindings serial) := releaseBindings_eq hlive
        refine .inr ⟨(w.apply (.evict slot)).releaseBindings serial, ?_, rfl,
          acquire_of_down hslot hlookup hlive⟩
        rw [hreleased]
        exact .more (.releaseBindings serial) (.one (.evict slot) trivial) trivial

/-- The transport refuses an empty address only. -/
theorem openFor_cases (w : World) (r : Resolved) :
    (r.url.isEmpty = true ∧ (w.openFor r).1 = .error (.connectFailed r.url "empty url") ∧
        (w.openFor r).2.connections = w.connections) ∨
      (r.url.isEmpty = false ∧ (w.openFor r).1 = .ok (w.connections.length + 1, false) ∧
        (w.openFor r).2.connections = w.connections ++ [r.dialled]) := by
  cases hurl : r.url.isEmpty with
  | true =>
    rw [openFor_refused w hurl]
    exact .inl ⟨rfl, rfl, rfl⟩
  | false => exact .inr ⟨rfl, (openFor_opened w hurl).1, openFor_connections w hurl⟩

/-- What a request gets is the live connection kept in its slot, or a new one. -/
theorem acquire_ok {serial : Nat} {reused : Bool} (h : (w.acquire r).1 = .ok (serial, reused)) :
    (reused = true ∧ (w.acquire r).2 = w ∧ w.isConnected serial = true ∧
        ∃ slot, r.slot? = some slot ∧ (slot, serial) ∈ w.persisted) ∨
      (reused = false ∧ serial = w.connections.length + 1 ∧
        (w.acquire r).2.connections = w.connections ++ [r.dialled]) := by
  rcases acquire_cases w r with ⟨slot, kept, hslot, hlookup, hlive, heq⟩ | ⟨start, -, hlist, heq⟩
  · rw [heq] at h ⊢
    cases h
    exact .inl ⟨rfl, rfl, hlive, slot, hslot, mem_of_lookup hlookup⟩
  · rw [heq, ← hlist]
    rw [heq] at h
    rcases openFor_cases start r with ⟨-, hrefused, -⟩ | ⟨-, hopened, happend⟩
    · rw [hrefused] at h
      cases h
    · rw [hopened] at h
      cases h
      exact .inr ⟨rfl, rfl, happend⟩

theorem isConnected_of_append {c : Connection} (h : w'.connections = w.connections ++ [c])
    (hc : c.connected = true) : w'.isConnected (w.connections.length + 1) = true := by
  simp [isConnected, connection?, h, hc]

/-- What a request gets is open. -/
theorem isConnected_acquire {serial : Nat} {reused : Bool}
    (h : (w.acquire r).1 = .ok (serial, reused)) : (w.acquire r).2.isConnected serial = true := by
  rcases acquire_ok h with ⟨-, hsame, hlive, -⟩ | ⟨-, rfl, hlist⟩
  · rw [hsame]
    exact hlive
  · exact isConnected_of_append hlist rfl

theorem acquired_opened {acquired : World} {serial : Nat} {reused : Bool}
    (h : w.acquire r = (.ok (serial, reused), acquired)) : acquired.Opened serial := by
  have hlive := isConnected_acquire (congrArg Prod.fst h)
  rw [h] at hlive
  exact opened_of_isConnected hlive

theorem not_mem_evict (w : World) (slot : Slot) (n : Nat) :
    (slot, n) ∉ (w.apply (.evict slot)).persisted := by
  intro hmem
  simpa using (List.mem_filter.1 hmem).2

namespace Kept

theorem evict_down {serial : Nat} (h : Kept opened w)
    (hsome : w.persisted.lookup slot = some serial) (hdown : w.isConnected serial = false) :
    Kept opened ((w.apply (.evict slot)).releaseBindings serial) := by
  have hevicted : Kept opened (w.apply (.evict slot)) := by
    refine h.evict ?_
    intro n hmem
    rw [lookup_of_mem h.single hmem] at hsome
    rwa [Option.some.inj hsome]
  exact hevicted.loosens (.same rfl rfl)

/-- Whatever a request gets, the slots stay as they should be. -/
theorem acquire (h : Kept opened w) (r : Resolved) :
    Kept (opened ++ r.opening (w.acquire r).1) (w.acquire r).2 := by
  cases hslot : r.slot? with
  | none =>
    have hopen : w.acquire r = w.openFor r := by simp only [acquire_eq, hslot, Option.bind_none]
    rw [hopen]
    exact h.openFor (by simp [hslot])
  | some slot =>
    cases hlookup : w.persisted.lookup slot with
    | none =>
      rw [acquire_of_empty hslot hlookup]
      refine h.openFor ?_
      intro slot' hslot' n hmem
      rw [hslot] at hslot'
      obtain rfl := Option.some.inj hslot'
      rw [lookup_of_mem h.single hmem] at hlookup
      cases hlookup
    | some serial =>
      cases hlive : w.isConnected serial with
      | true =>
        rw [acquire_of_live hslot hlookup hlive]
        simpa [Resolved.opening] using h
      | false =>
        rw [acquire_of_down hslot hlookup hlive]
        refine (h.evict_down hlookup hlive).openFor ?_
        intro slot' hslot' n hmem
        rw [hslot] at hslot'
        obtain rfl := Option.some.inj hslot'
        exact not_mem_evict w slot n hmem

/-- A request whose slot has a live connection gets that one, and nothing else happens. -/
theorem acquire_live {serial : Nat} (h : Kept opened w) (hslot : r.slot? = some slot)
    (hmem : (slot, serial) ∈ opened) (hlive : w.isConnected serial = true) :
    w.acquire r = (.ok (serial, true), w) :=
  acquire_of_live hslot (h.persistedAt hmem hlive) hlive

/-- A request whose slot has none opens one, unless the transport refuses. -/
theorem acquire_fresh (h : Kept opened w) (hslot : r.slot? = some slot)
    (hdown : ∀ serial, (slot, serial) ∈ opened → w.isConnected serial = false) :
    (r.url.isEmpty = true ∧ (w.acquire r).1 = .error (.connectFailed r.url "empty url") ∧
        (w.acquire r).2.connections = w.connections) ∨
      (r.url.isEmpty = false ∧ (w.acquire r).1 = .ok (w.connections.length + 1, false) ∧
        (w.acquire r).2.connections = w.connections ++ [r.dialled]) := by
  rcases acquire_cases w r with ⟨slot', serial, hslot', hlookup, hlive, -⟩ | ⟨start, -, hlist, heq⟩
  · obtain rfl : slot = slot' := Option.some.inj (hslot.symm.trans hslot')
    rw [hdown serial (h.origin (mem_of_lookup hlookup))] at hlive
    cases hlive
  · rw [heq, ← hlist]
    exact openFor_cases start r

end Kept

end World

end Patchbay
