import Patchbay.Proofs.Sessions.Actions

/-!
What a label stands for among the connections that are kept. It is compared with the scopes and with
the persistence keys of all slots, so two open connections may answer to one label, and then the
order in which the slots are gone through decides.
-/

namespace Patchbay

/-- A label stands for a slot by its scope or by its persistence key. -/
def Slot.Named (slot : Slot) (label : String) : Prop := slot.1 = label ∨ slot.2 = label

instance (slot : Slot) (label : String) : Decidable (slot.Named label) :=
  inferInstanceAs (Decidable (_ ∨ _))

namespace World

variable {w₀ w w' : World} {log : List Moment} {label : String}
  {entry entry' : Slot × Nat} {n : Nat} {slots : List (Slot × Nat)}

/-- An open connection that is kept in a slot for which the label stands. -/
structure Responds (w : World) (label : String) (entry : Slot × Nat) : Prop where
  kept : entry ∈ w.persisted
  named : entry.1.Named label
  connected : w.isConnected entry.2 = true

/-- The same slots in another order. -/
def shuffle (w : World) (slots : List (Slot × Nat)) : World := { w with persisted := slots }

/-- In whatever order the slots are gone through, the label stands for one connection. -/
def Unambiguous (w : World) (label : String) : Prop :=
  ∀ slots, slots.Perm w.persisted →
    (w.shuffle slots).persistedForLabel label = w.persistedForLabel label

/-! Who answers to a label -/

/-- Whether a slot would be found by the label. -/
def hits (w : World) (label : String) (entry : Slot × Nat) : Bool :=
  (entry.1.1 == label || entry.1.2 == label) && w.isConnected entry.2

theorem persistedForLabel_eq (w : World) (label : String) :
    w.persistedForLabel label = (w.persisted.find? (w.hits label)).map (·.2) := by
  have hhits : w.hits label = fun entry => decide
      ((entry.1.1 == label || entry.1.2 == label) = true ∧ w.isConnected entry.2 = true) := by
    funext entry
    rw [hits, Bool.decide_and, Bool.decide_eq_true, Bool.decide_eq_true]
  rw [persistedForLabel, List.find?_map, List.find?_filter, hhits]
  rfl

theorem responds_iff :
    w.Responds label entry ↔ entry ∈ w.persisted ∧ w.hits label entry = true := by
  rw [hits, Bool.and_eq_true, Bool.or_eq_true, beq_iff_eq, beq_iff_eq]
  exact ⟨fun h => ⟨h.kept, h.named, h.connected⟩, fun h => ⟨h.1, h.2.1, h.2.2⟩⟩

theorem responds_shuffle (hperm : slots.Perm w.persisted) :
    (w.shuffle slots).Responds label entry ↔ w.Responds label entry :=
  ⟨fun h => ⟨hperm.subset h.kept, h.named, h.connected⟩,
    fun h => ⟨hperm.symm.subset h.kept, h.named, h.connected⟩⟩

/-- What a label stands for answers to it. -/
theorem responds_of_persistedForLabel (h : w.persistedForLabel label = some n) :
    ∃ entry, w.Responds label entry ∧ entry.2 = n := by
  rw [persistedForLabel_eq] at h
  obtain ⟨entry, hfind, hn⟩ := Option.map_eq_some_iff.1 h
  exact ⟨entry, responds_iff.2 ⟨List.mem_of_find?_eq_some hfind, List.find?_some hfind⟩, hn⟩

theorem persistedForLabel_of_first {rest : List (Slot × Nat)} (hfirst : w.persisted = entry :: rest)
    (h : w.Responds label entry) : w.persistedForLabel label = some entry.2 := by
  rw [persistedForLabel_eq, hfirst, List.find?_cons_of_pos (responds_iff.1 h).2]
  rfl

theorem persistedForLabel_of_responds (h : w.Responds label entry)
    (hunique : ∀ entry', w.Responds label entry' → entry' = entry) :
    w.persistedForLabel label = some entry.2 := by
  cases hfound : w.persistedForLabel label with
  | none =>
    rw [persistedForLabel_eq, Option.map_eq_none_iff] at hfound
    exact absurd (responds_iff.1 h).2 (List.find?_eq_none.1 hfound entry h.kept)
  | some n =>
    obtain ⟨entry', hresponds, rfl⟩ := responds_of_persistedForLabel hfound
    rw [hunique entry' hresponds]

/-- At most one that answers is found in any order. -/
theorem unambiguous_of_unique
    (hunique : ∀ entry entry', w.Responds label entry → w.Responds label entry' → entry = entry') :
    w.Unambiguous label := by
  intro slots hperm
  by_cases hsome : ∃ entry, w.Responds label entry
  · obtain ⟨entry, hresponds⟩ := hsome
    rw [persistedForLabel_of_responds hresponds fun entry' h' => hunique entry' entry h' hresponds]
    refine persistedForLabel_of_responds ((responds_shuffle hperm).2 hresponds) fun entry' h' => ?_
    exact hunique entry' entry ((responds_shuffle hperm).1 h') hresponds
  · have hnone (w' : World) (hnobody : ¬ ∃ entry, w'.Responds label entry) :
        w'.persistedForLabel label = none := by
      refine Option.eq_none_iff_forall_ne_some.2 fun n hn => ?_
      obtain ⟨entry, hresponds, -⟩ := responds_of_persistedForLabel hn
      exact hnobody ⟨entry, hresponds⟩
    rw [hnone w hsome]
    refine hnone _ fun ⟨entry, hresponds⟩ => hsome ⟨entry, (responds_shuffle hperm).1 hresponds⟩

/-- Of two that answer either can come first. -/
theorem Unambiguous.same_connection (h : w.Unambiguous label) (hresponds : w.Responds label entry)
    (hresponds' : w.Responds label entry') : entry.2 = entry'.2 := by
  have hfirst {entry : Slot × Nat} (hresponds : w.Responds label entry) :
      w.persistedForLabel label = some entry.2 := by
    have hperm := (List.perm_cons_erase hresponds.kept).symm
    rw [← h _ hperm]
    exact persistedForLabel_of_first rfl ((responds_shuffle hperm).2 hresponds)
  exact Option.some.inj ((hfirst hresponds).symm.trans (hfirst hresponds'))

/-- No connection is kept in two slots. -/
theorem Kept.slot_eq (h : Kept (openings log) w) (hgranted : Granted (grants log) w)
    (hentry : entry ∈ w.persisted) (hentry' : entry' ∈ w.persisted) (hsame : entry.2 = entry'.2) :
    entry = entry' := by
  obtain ⟨o, ho, hfresh, hserial, hslot⟩ := exists_of_mem_openings (h.origin hentry)
  obtain ⟨o', ho', hfresh', hserial', hslot'⟩ := exists_of_mem_openings (h.origin hentry')
  have hserials : o.serial = o'.serial := hserial.trans (hsame.trans hserial'.symm)
  obtain rfl := hgranted.single o ho o' ho' hfresh hfresh' hserials
  exact Prod.ext (Option.some.inj (hslot.symm.trans hslot')) hsame

/-- What is kept in one slot is one connection. -/
theorem Kept.entry_eq {opened : List (Slot × Nat)} (h : Kept opened w)
    (hentry : entry ∈ w.persisted)
    (hentry' : entry' ∈ w.persisted) (hslot : entry.1 = entry'.1) : entry = entry' := by
  have hfound := lookup_of_mem h.single hentry
  rw [hslot, lookup_of_mem h.single hentry'] at hfound
  exact Prod.ext hslot (Option.some.inj hfound).symm

/-- A label stands for an open connection that is kept under it as a scope or as a persistence key.
It stands for the same one, whatever the order in which the slots are gone through, if and only if
no two of these are open; then an action with that label goes to that connection. That is so as long
as all requests of the run that the label could mean have asked for one slot. -/
theorem label_unambiguous_iff (hfresh : w₀.Fresh) (hrun : Run w₀ log w) (label : String) :
    (∀ n, w.persistedForLabel label = some n → ∃ entry, w.Responds label entry ∧ entry.2 = n) ∧
    (w.Unambiguous label ↔
      ∀ entry entry', w.Responds label entry → w.Responds label entry' → entry = entry') ∧
    (w.Unambiguous label → ∀ a slots, a.label = some label → slots.Perm w.persisted →
      (w.shuffle slots).actionChannel none a = w.actionChannel none a) ∧
    ((∀ g ∈ grants log, ∀ g' ∈ grants log, ∀ slot ∈ g.resolved.slot?, ∀ slot' ∈ g'.resolved.slot?,
        slot.Named label → slot'.Named label → slot = slot') → w.Unambiguous label) := by
  have hkept := hrun.kept hfresh
  refine ⟨fun n => responds_of_persistedForLabel, ⟨fun h entry entry' ha ha' => ?_,
    unambiguous_of_unique⟩, fun h a slots hlabel hperm => ?_, fun hone => ?_⟩
  · exact hkept.slot_eq (hrun.granted hfresh) ha.kept ha'.kept (h.same_connection ha ha')
  · simp only [actionChannel, hlabel, Option.bind_some, h slots hperm]
    rfl
  · refine unambiguous_of_unique fun entry entry' ha ha' => hkept.entry_eq ha.kept ha'.kept ?_
    obtain ⟨o, ho, -, -, hslot⟩ := exists_of_mem_openings (hkept.origin ha.kept)
    obtain ⟨o', ho', -, -, hslot'⟩ := exists_of_mem_openings (hkept.origin ha'.kept)
    exact hone o ho o' ho' entry.1 hslot entry'.1 hslot' ha.named ha'.named

/-- Two namespaces in which a connection is kept under one key. -/
def chats : List Moment × World :=
  lobby.play [.command 0 (.connect "x" ⟨"a"⟩ { channel := some "/index", persist := .key "chat" }),
    .steps 10,
    .command 1 (.connect "y" ⟨"a"⟩ { channel := some "/dynamic", persist := .key "chat" }),
    .steps 10]

theorem chats_kept : chats.2.persisted =
    [(("home/index", "chat"), 1), (("home/dynamic", "chat"), 2)] := rfl

theorem chats_unambiguous_by_scope : chats.2.persistedForLabel "home/index" = some 1 ∧
    chats.2.Unambiguous "home/index" := by
  have hrun : Run lobby chats.1 chats.2 := .of_play lobby rfl
  refine ⟨rfl, (label_unambiguous_iff lobby_fresh hrun "home/index").2.1.2 ?_⟩
  have honly : ∀ entry, chats.2.Responds "home/index" entry →
      entry = (("home/index", "chat"), 1) := by
    intro entry hresponds
    have hmem := hresponds.kept
    rw [chats_kept] at hmem
    rcases List.mem_cons.1 hmem with rfl | hmem
    · rfl
    · rw [List.mem_singleton.1 hmem] at hresponds
      exact absurd hresponds.named (by decide)
  exact fun entry entry' ha ha' => (honly entry ha).trans (honly entry' ha').symm

/-- Under its key neither is preferred but for the order of the slots. -/
theorem chats_ambiguous_by_key : ¬ ∀ (w₀ w : World) (log : List Moment) (label : String), w₀.Blank →
    Run w₀ log w → w.Unambiguous label := by
  intro h
  have hshuffled := h lobby chats.2 chats.1 "chat" lobby_blank (.of_play lobby rfl)
    [(("home/dynamic", "chat"), 2), (("home/index", "chat"), 1)] (List.Perm.swap ..)
  have hfirst : chats.2.persistedForLabel "chat" = some 1 := rfl
  have hother :
      (chats.2.shuffle [(("home/dynamic", "chat"), 2),
        (("home/index", "chat"), 1)]).persistedForLabel "chat" = some 2 := rfl
  rw [hfirst, hother] at hshuffled
  exact absurd hshuffled (by decide)

end World

end Patchbay
