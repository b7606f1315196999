import Mathlib.Data.List.Basic

/-!
Histories of calls that give something and take back what earlier ones gave. What stands after
such a history was given at some place of it and not taken since; it stands in the order in which
it was given.
-/

namespace Patchbay

structure Holdings (Call Entry : Type) where
  /-- What a call gives that comes after these. -/
  gives : List Call → Call → Option Entry
  takes : Call → Entry → Bool

namespace Holdings

variable {Call Entry : Type} (H : Holdings Call Entry) {calls : List Call} {c : Call} {e : Entry}
  {n : Nat}

def given (calls : List Call) (n : Nat) : Option Entry := calls[n]?.bind (H.gives (calls.take n))

/-- What was given at place `n`, if no later call has taken it. -/
def kept (calls : List Call) (n : Nat) : Option Entry :=
  (H.given calls n).filter fun e => (calls.drop (n + 1)).all fun c => !H.takes c e

def standing (calls : List Call) : List Entry := (List.range calls.length).filterMap (H.kept calls)

/-- What was given stays given, whatever comes later. -/
theorem given_append_of_lt (hn : n < calls.length) (later : List Call) :
    H.given (calls ++ later) n = H.given calls n := by
  rw [given, given, List.getElem?_append_left hn, List.take_append_of_le_length (Nat.le_of_lt hn)]

theorem given_take_of_lt {k : Nat} (hn : n < k) : H.given (calls.take k) n = H.given calls n := by
  rw [given, given, List.getElem?_take_of_lt hn, List.take_take, Nat.min_eq_left (Nat.le_of_lt hn)]

theorem given_last (calls : List Call) (c : Call) :
    H.given (calls ++ [c]) calls.length = H.gives calls c := by
  rw [given, List.getElem?_concat_length, List.take_left, Option.bind_some]

theorem lt_of_given (h : H.given calls n = some e) : n < calls.length := by
  obtain ⟨c, hc, -⟩ := Option.bind_eq_some_iff.1 h
  exact (List.getElem?_eq_some_iff.1 hc).1

theorem kept_concat_of_lt (hn : n < calls.length) :
    H.kept (calls ++ [c]) n = (H.kept calls n).filter fun e => !H.takes c e := by
  rw [kept, kept, given_append_of_lt H hn, List.drop_append_of_le_length hn, Option.filter_filter]
  simp only [List.all_append, List.all_cons, List.all_nil, Bool.and_true]

theorem kept_last (calls : List Call) (c : Call) :
    H.kept (calls ++ [c]) calls.length = H.gives calls c := by
  have hlater : (calls ++ [c]).drop (calls.length + 1) = [] := List.drop_eq_nil_of_le (by simp)
  rw [kept, given_last, hlater]
  cases H.gives calls c <;> rfl

/-- One more call takes what it takes, and what it gives comes last. -/
theorem standing_concat (calls : List Call) (c : Call) : H.standing (calls ++ [c])
    = ((H.standing calls).filter fun e => !H.takes c e) ++ (H.gives calls c).toList := by
  have hearlier : (List.range calls.length).filterMap (H.kept (calls ++ [c]))
      = (H.standing calls).filter fun e => !H.takes c e := by
    rw [standing, List.filter_filterMap]
    exact List.filterMap_congr fun n hn => H.kept_concat_of_lt (List.mem_range.1 hn)
  rw [standing, List.length_append, List.length_singleton, List.range_succ, List.filterMap_append,
    hearlier]
  cases h : H.gives calls c <;> simp [kept_last, h]

theorem mem_standing : e ∈ H.standing calls ↔
    ∃ n, H.given calls n = some e ∧ ∀ k c, n < k → calls[k]? = some c → H.takes c e = false := by
  have hlater (n : Nat) : ((calls.drop (n + 1)).all fun c => !H.takes c e) = true ↔
      ∀ k c, n < k → calls[k]? = some c → H.takes c e = false := by
    simp only [List.all_eq_true, List.mem_iff_getElem?, List.getElem?_drop, Bool.not_eq_true']
    constructor
    · intro h k c hk hc
      exact h c ⟨k - (n + 1), by rw [← hc]; congr 1; omega⟩
    · rintro h c ⟨i, hi⟩
      exact h (n + 1 + i) c (by omega) hi
  simp only [standing, List.mem_filterMap, List.mem_range, kept, Option.filter_eq_some_iff, hlater]
  constructor
  · rintro ⟨n, -, hgiven, hkept⟩
    exact ⟨n, hgiven, hkept⟩
  · rintro ⟨n, hgiven, hkept⟩
    exact ⟨n, H.lt_of_given hgiven, hgiven, hkept⟩

/-- What stood at an earlier time. -/
theorem mem_standing_take {k : Nat} : e ∈ H.standing (calls.take k) ↔
    ∃ n < k, H.given calls n = some e ∧
      ∀ j c, n < j → j < k → calls[j]? = some c → H.takes c e = false := by
  rw [mem_standing]
  constructor
  · rintro ⟨n, hgiven, hkept⟩
    have hn : n < k := Nat.lt_of_lt_of_le (H.lt_of_given hgiven) (List.length_take_le ..)
    refine ⟨n, hn, (H.given_take_of_lt hn).symm.trans hgiven, fun j c hj hjk hc => hkept j c hj ?_⟩
    rw [List.getElem?_take_of_lt hjk, hc]
  · rintro ⟨n, hn, hgiven, hkept⟩
    refine ⟨n, (H.given_take_of_lt hn).trans hgiven, fun j c hj hc => ?_⟩
    have hjk : j < k :=
      Nat.lt_of_lt_of_le (List.getElem?_eq_some_iff.1 hc).1 (List.length_take_le ..)
    exact hkept j c hj hjk ((List.getElem?_take_of_lt hjk).symm.trans hc)

end Holdings

end Patchbay
