import Mathlib.Data.List.Sort
import Patchbay.Registry

/-!
The registry as a log. What its map stands for is the list of its registrations, oldest first. Each
answer that the map gives is one of that list, and what a call does to the map it does to the list:
a registration comes last, and a release takes out what came through its connection.
-/

namespace Patchbay

structure Registration where
  scope : Scope
  binding : Binding
  via : ConnectionId
deriving DecidableEq, Repr

namespace Registry

def Entry.registration (e : Entry) : Registration := ⟨e.key.scope, e.binding, e.via⟩

/-- The registrations by their numbers. -/
def log (reg : Registry) : List Registration :=
  (reg.entries.insertionSort fun a b => a.seq ≤ b.seq).map (·.registration)

def Holds (scope : Scope) (role : Role) (action : String) (r : Registration) : Prop :=
  r.scope = scope ∧ r.binding.role = role ∧ r.binding.action = action

instance (scope : Scope) (role : Role) (action : String) (r : Registration) :
    Decidable (Holds scope role action r) := by
  unfold Holds
  infer_instance

variable {reg reg' : Registry} {scope : Scope} {role : Role} {action : String} {b : Binding}
  {via : ConnectionId}

section Order

instance : Std.Total (fun a b : Entry => a.seq ≤ b.seq) := ⟨fun a b => Nat.le_total a.seq b.seq⟩

instance : IsTrans Entry (fun a b : Entry => a.seq ≤ b.seq) := ⟨fun _ _ _ => Nat.le_trans⟩

/-- There is one way to list entries by their numbers. -/
theorem eq_of_ordered {listing listing' : List Entry} (hsame : listing.Perm listing')
    (hseqs : (listing.map (·.seq)).Nodup) (h : listing.Pairwise fun a b => a.seq ≤ b.seq)
    (h' : listing'.Pairwise fun a b => a.seq ≤ b.seq) : listing = listing' := by
  refine List.Perm.eq_of_pairwise ?_ h h' hsame
  intro a b ha hb hab hba
  exact List.inj_on_of_nodup_map hseqs ha (hsame.mem_iff.2 hb) (Nat.le_antisymm hab hba)

theorem ordered_insertionSort (entries : List Entry) :
    (entries.insertionSort fun a b => a.seq ≤ b.seq).Pairwise fun a b => a.seq ≤ b.seq :=
  List.pairwise_insertionSort _ entries

/-- However the entries are put in the order of their numbers, it is the log. -/
theorem log_of_listing (reg : Registry) {listing : List Entry} (hsame : listing.Perm reg.entries)
    (hordered : listing.Pairwise fun a b => a.seq ≤ b.seq) :
    reg.log = listing.map (·.registration) := by
  have hsorted : reg.entries.insertionSort (fun a b => a.seq ≤ b.seq) = listing := by
    refine eq_of_ordered ((List.perm_insertionSort _ _).trans hsame.symm) ?_
      (ordered_insertionSort _) hordered
    exact ((List.perm_insertionSort _ _).map _).nodup_iff.2 reg.wellFormed.seqs
  rw [log, hsorted]

theorem exists_listing (reg : Registry) : ∃ listing : List Entry, listing.Perm reg.entries ∧
    listing.Pairwise (fun a b => a.seq ≤ b.seq) ∧ reg.log = listing.map (·.registration) :=
  ⟨_, List.perm_insertionSort _ _, ordered_insertionSort _, rfl⟩

end Order

section Answers

theorem mem_log {r : Registration} : r ∈ reg.log ↔ ∃ e ∈ reg.entries, e.registration = r := by
  simp only [log, List.mem_map, List.mem_insertionSort]

theorem size_eq (reg : Registry) : reg.size = reg.log.length := by
  rw [size, log, List.length_map, List.length_insertionSort]

theorem Entry.key_eq_iff {e : Entry} (he : e ∈ reg.entries) :
    e.key = ⟨scope, role, action⟩ ↔ Holds scope role action e.registration := by
  obtain ⟨hrole, haction⟩ := reg.wellFormed.named e he
  rw [Holds, Entry.registration, ← hrole, ← haction, Key.mk.injEq]

theorem contains_iff :
    reg.contains scope role action = true ↔ ∃ r ∈ reg.log, Holds scope role action r := by
  simp only [contains, List.contains_iff_mem, List.mem_map, mem_log]
  constructor
  · rintro ⟨e, he, hkey⟩
    exact ⟨_, ⟨e, he, rfl⟩, (Entry.key_eq_iff he).1 hkey⟩
  · rintro ⟨_, ⟨e, he, rfl⟩, hholds⟩
    exact ⟨e, he, (Entry.key_eq_iff he).2 hholds⟩

theorem contains_eq_any (reg : Registry) (scope : Scope) (role : Role) (action : String) :
    reg.contains scope role action = reg.log.any fun r => decide (Holds scope role action r) := by
  rw [Bool.eq_iff_iff, contains_iff, List.any_eq_true]
  simp only [decide_eq_true_eq]

/-- To sort the entries of a scope is to take those of the scope from the log. -/
theorem bindingsFor_eq (reg : Registry) (scope : Scope) : reg.bindingsFor scope
    = (reg.log.filter fun r => decide (r.scope = scope)).map (·.binding) := by
  obtain ⟨listing, hsame, hordered, hlog⟩ := reg.exists_listing
  have hfound : (reg.entries.filter fun e => decide (e.key.scope = scope)).mergeSort
      (fun a b => decide (a.seq ≤ b.seq)) =
        listing.filter fun e => decide (e.key.scope = scope) := by
    refine eq_of_ordered ((List.mergeSort_perm _ _).trans (hsame.symm.filter _)) ?_ ?_
      (hordered.filter _)
    · refine ((List.mergeSort_perm _ _).map _).nodup_iff.2 ?_
      exact reg.wellFormed.seqs.sublist (List.filter_sublist.map _)
    · refine (List.pairwise_mergeSort ?_ ?_ _).imp of_decide_eq_true
      · intro a b c hab hbc
        exact decide_eq_true (Nat.le_trans (of_decide_eq_true hab) (of_decide_eq_true hbc))
      · intro a b
        simpa using Nat.le_total a.seq b.seq
  rw [bindingsFor, hfound, hlog, List.filter_map, List.map_map]
  rfl

end Answers

section Calls

theorem contains_eq_false : reg.contains scope b.role b.action = false
    ↔ .ofBinding scope b ∉ reg.entries.map (·.key) := by
  rw [contains, ← Bool.not_eq_true, List.contains_iff_mem]
  rfl

theorem register_of_contains (h : reg.contains scope b.role b.action = true) :
    reg.register scope b via = (reg, .error (.duplicate scope.text b.role b.action)) :=
  dif_neg (mt contains_eq_false.2 (by simp [h]))

/-- A registration that is granted comes last. -/
theorem register_of_free (h : reg.contains scope b.role b.action = false) (via : ConnectionId) :
    ∃ reg', reg.register scope b via = (reg', .ok ()) ∧
      reg'.log = reg.log ++ [⟨scope, b, via⟩] := by
  refine ⟨_, dif_pos (contains_eq_false.1 h), ?_⟩
  obtain ⟨listing, hsame, hordered, hlog⟩ := reg.exists_listing
  let new : Entry := ⟨.ofBinding scope b, b, via, reg.next⟩
  have hnew : (listing ++ [new]).Pairwise fun a b => a.seq ≤ b.seq := by
    refine List.pairwise_append.2 ⟨hordered, List.pairwise_singleton _ _, ?_⟩
    intro e he last hlast
    rw [List.mem_singleton.1 hlast]
    exact Nat.le_of_lt (reg.wellFormed.behind e (hsame.mem_iff.1 he))
  rw [hlog, log_of_listing _ ((List.perm_append_singleton new listing).trans (hsame.cons new)) hnew,
    List.map_append]
  rfl

theorem register_ok_iff : (reg.register scope b via).2 = .ok ()
    ↔ reg.contains scope b.role b.action = false := by
  cases h : reg.contains scope b.role b.action with
  | true => simp [register_of_contains h]
  | false =>
    obtain ⟨reg', hmade, -⟩ := register_of_free h via
    simp [hmade]

/-- What a call does to the log: a registration that is refused leaves it alone. -/
theorem log_register (reg : Registry) (scope : Scope) (b : Binding) (via : ConnectionId) :
    (reg.register scope b via).1.log =
      reg.log ++ if reg.contains scope b.role b.action then [] else [⟨scope, b, via⟩] := by
  cases h : reg.contains scope b.role b.action with
  | true => simp [register_of_contains h]
  | false =>
    obtain ⟨reg', hmade, hlog⟩ := register_of_free h via
    simp [hmade, hlog]

theorem log_release (reg : Registry) (via : ConnectionId) :
    (reg.release via).log = reg.log.filter fun r => decide (r.via ≠ via) := by
  obtain ⟨listing, hsame, hordered, hlog⟩ := reg.exists_listing
  rw [log_of_listing (reg.release via) (hsame.filter _) (hordered.filter _), hlog,
    List.filter_map]
  rfl

/-- By how much a release shrinks the map is how many came through its connection. -/
theorem countVia_eq (reg : Registry) (via : ConnectionId) :
    reg.countVia via = (reg.log.filter fun r => decide (r.via = via)).length := by
  have hsplit : reg.log.length = reg.log.countP (fun r => decide (r.via = via)) +
      reg.log.countP (fun r => decide (r.via ≠ via)) := by
    simpa using List.length_eq_countP_add_countP (l := reg.log) fun r => decide (r.via = via)
  rw [countVia, size_eq, size_eq, log_release, ← List.countP_eq_length_filter,
    ← List.countP_eq_length_filter, hsplit, Nat.add_sub_cancel]

theorem countVia_add_size (reg : Registry) (via : ConnectionId) :
    reg.countVia via + (reg.release via).size = reg.size :=
  Nat.sub_add_cancel (List.length_filter_le _ _)

end Calls

section Reordering

theorem WellFormed.perm {entries entries' : List Entry} {next : Nat}
    (h : WellFormed entries next) (hsame : entries.Perm entries') : WellFormed entries' next where
  keys := (hsame.map _).nodup_iff.1 h.keys
  named e he := h.named e (hsame.mem_iff.2 he)
  seqs := (hsame.map _).nodup_iff.1 h.seqs
  behind e he := h.behind e (hsame.mem_iff.2 he)

/-- The same map, though its entries may lie in another order. -/
structure Same (reg reg' : Registry) : Prop where
  entries : reg.entries.Perm reg'.entries
  next : reg.next = reg'.next

/-- A call on the same map gives the same answer and the same map. -/
theorem Same.register (h : Same reg reg') :
    (reg.register scope b via).2 = (reg'.register scope b via).2 ∧
      Same (reg.register scope b via).1 (reg'.register scope b via).1 := by
  have hkeys : .ofBinding scope b ∉ reg.entries.map (·.key) ↔
      .ofBinding scope b ∉ reg'.entries.map (·.key) :=
    not_congr (h.entries.map (·.key)).mem_iff
  by_cases hfree : .ofBinding scope b ∉ reg.entries.map (·.key)
  · simp only [Registry.register, dif_pos hfree, dif_pos (hkeys.1 hfree)]
    refine ⟨trivial, ?_, congrArg (· + 1) h.next⟩
    show (⟨.ofBinding scope b, b, via, reg.next⟩ :: reg.entries).Perm
      (⟨.ofBinding scope b, b, via, reg'.next⟩ :: reg'.entries)
    rw [h.next]
    exact h.entries.cons _
  · simp only [Registry.register, dif_neg hfree, dif_neg (mt hkeys.2 hfree)]
    exact ⟨trivial, h⟩

theorem Same.release (h : Same reg reg') (via : ConnectionId) :
    Same (reg.release via) (reg'.release via) := ⟨h.entries.filter _, h.next⟩

/-- What a map answers does not depend on the order of its entries. -/
theorem Same.log (h : Same reg reg') : reg.log = reg'.log := by
  obtain ⟨listing, hsame, hordered, hlog⟩ := reg'.exists_listing
  rw [hlog, log_of_listing _ (hsame.trans h.entries.symm) hordered]

end Reordering

end Registry

end Patchbay
