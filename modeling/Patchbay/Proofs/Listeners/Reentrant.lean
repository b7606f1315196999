import Mathlib.Data.List.Induction
import Patchbay.Engine.Deliveries
import Patchbay.Proofs.Engine.Connections
import Patchbay.Proofs.Holdings

/-!
Deliveries to the listeners of one connection, whatever their handlers do. Who is called in a
delivery follows from the history up to its start alone, and the connections of an engine keep to
such histories.
-/

namespace Patchbay

namespace Listeners

variable {α : Type}

/-- Who hears an event now. -/
def hearers (l : Listeners α) (event : String) : List (Listener α) :=
  l.entries.filter (·.event == event)

theorem deliver_fst (l : Listeners α) (event : String) : (l.deliver event).1 = l.hearers event :=
  rfl

/-! Histories -/

namespace Act

def adds : Act α → Bool
  | .add .. => true
  | _ => false

/-- The act removes that listener, if it is there. -/
def takes : Act α → Listener α → Bool
  | .off event, l => l.event == event
  | .offListener id, l => l.id == id
  | .offAll, _ => true
  | .deliver event _ _, l => l.once && l.event == event
  | .add .., _ | .call, _ => false

end Act

/-- A listener has the number of its registration. -/
def holdings : Holdings (Act α) (Listener α) where
  gives before
    | .add event action once => some ⟨before.countP Act.adds + 1, event, action, once⟩
    | _ => none
  takes := Act.takes

/-- The listeners that were added and not removed yet, oldest first. -/
def present (acts : List (Act α)) : List (Listener α) := holdings.standing acts

variable {acts : List (Act α)} {a : Act α} {l l' : Listener α} {c : Call α} {event : String}
  {payload : Json} {ack : Option CellId} {i j k n : Nat}

theorem after_concat (acts : List (Act α)) (a : Act α) :
    after (acts ++ [a]) = (after acts).act a := by
  simp [after]

theorem clock_after (acts : List (Act α)) : (after acts).clock = acts.length := by
  induction acts using List.reverseRecOn with
  | nil => rfl
  | append_singleton acts a ih =>
    rw [after_concat, List.length_append, List.length_singleton, ← ih]
    cases a with
    | call =>
      simp only [Scene.act]
      split <;> rfl
    | _ => rfl

/-- The listeners are those that were added and not removed. -/
theorem listeners_after (acts : List (Act α)) :
    (after acts).listeners = ⟨present acts, acts.countP Act.adds + 1⟩ := by
  induction acts using List.reverseRecOn with
  | nil => rfl
  | append_singleton acts a ih =>
    rw [after_concat, present, Holdings.standing_concat, List.countP_append]
    cases a with
    | call =>
      simp only [Scene.act]
      split <;> simp [ih, holdings, Act.takes, Act.adds, present]
    | _ => simp [Scene.act, ih, holdings, Act.takes, Act.adds, present, add, remove, deliver]

theorem entries_after (acts : List (Act α)) : (after acts).listeners.entries = present acts := by
  rw [listeners_after]

/-- Calls that nothing interrupts are made in turn. -/
theorem after_calls (acts : List (Act α)) (m : Nat) :
    (after (acts ++ List.replicate m .call)).made = (after acts).made ++ (after acts).due.take m ∧
      (after (acts ++ List.replicate m .call)).due = (after acts).due.drop m ∧
      (after (acts ++ List.replicate m .call)).listeners = (after acts).listeners := by
  induction m with
  | zero => simp
  | succ m ih =>
    obtain ⟨hmade, hdue, hlisteners⟩ := ih
    rw [List.replicate_succ', ← List.append_assoc, after_concat]
    have htake : (after acts).due.take (m + 1)
        = (after acts).due.take m ++ ((after acts).due.drop m).take 1 := List.take_add ..
    have hdrop : (after acts).due.drop (m + 1) = ((after acts).due.drop m).drop 1 := by
      rw [List.drop_drop]
    rw [htake, hdrop, ← hdue]
    cases hcase : (after (acts ++ List.replicate m .call)).due with
    | nil => simp [Scene.act, hcase, hmade, hlisteners]
    | cons c rest => simp [Scene.act, hcase, hmade, hlisteners]

/-! Calls -/

theorem listeners_of_calls (start : Nat) (payload : Json) (ack : Option CellId)
    (ls : List (Listener α)) : (calls start payload ack ls).map (·.listener) = ls := by
  induction ls generalizing ack with
  | nil => rfl
  | cons l rest ih => rw [calls, List.map_cons, ih]

theorem length_calls (start : Nat) (payload : Json) (ack : Option CellId) (ls : List (Listener α)) :
    (calls start payload ack ls).length = ls.length := by
  rw [← List.length_map (f := Call.listener), listeners_of_calls]

theorem calls_eq_nil {ls : List (Listener α)} : calls k payload ack ls = [] ↔ ls = [] := by
  rw [← List.length_eq_zero_iff, length_calls, List.length_eq_zero_iff]

theorem start_of_mem_calls {ls : List (Listener α)} (hc : c ∈ calls k payload ack ls) :
    c.start = k := by
  induction ls generalizing ack with
  | nil => cases hc
  | cons l rest ih =>
    rcases List.mem_cons.1 hc with rfl | hc
    · rfl
    · exact ih hc

theorem of_getElem?_calls {ls : List (Listener α)} (hc : (calls k payload ack ls)[i]? = some c) :
    c.payload = payload ∧ c.ack = if i = 0 then ack else none := by
  induction ls generalizing ack i with
  | nil => simp [calls] at hc
  | cons l rest ih =>
    cases i with
    | zero =>
      obtain rfl := Option.some.inj hc
      exact ⟨rfl, rfl⟩
    | succ i =>
      obtain ⟨hpayload, hack⟩ := ih (hc : (calls k payload none rest)[i]? = some c)
      exact ⟨hpayload, by simpa using hack⟩

/-- The calls of the delivery that an act starts, if it does. -/
def started (acts : List (Act α)) : Act α → List (Call α)
  | .deliver event payload ack =>
    calls acts.length payload ack ((present acts).filter (·.event == event))
  | _ => []

theorem of_mem_started (hc : c ∈ started acts a) :
    c.start = acts.length ∧ ∃ event payload ack, a = .deliver event payload ack := by
  cases a with
  | deliver event payload ack => exact ⟨start_of_mem_calls hc, event, payload, ack, rfl⟩
  | _ => cases hc

theorem all_concat (acts : List (Act α)) (a : Act α) :
    (after (acts ++ [a])).all = (after acts).made ++ (started acts a ++ (after acts).due) := by
  rw [after_concat]
  cases a with
  | deliver event payload ack =>
    simp only [Scene.all, Scene.act, clock_after, deliver_fst, hearers, entries_after, started]
  | call => cases hdue : (after acts).due <;> simp [Scene.act, Scene.all, started, hdue]
  | _ => rfl

theorem mem_all_concat :
    c ∈ (after (acts ++ [a])).all ↔ c ∈ (after acts).all ∨ c ∈ started acts a := by
  rw [all_concat]
  simp only [Scene.all, List.mem_append]
  rw [or_assoc, @or_comm (c ∈ started acts a)]

/-- A call is of a delivery. -/
theorem start_of_mem_all (hc : c ∈ (after acts).all) :
    ∃ event payload ack, acts[c.start]? = some (.deliver event payload ack) := by
  induction acts using List.reverseRecOn with
  | nil => cases hc
  | append_singleton acts a ih =>
    rcases mem_all_concat.1 hc with hc | hc
    · obtain ⟨event, payload, ack, hstart⟩ := ih hc
      have hlt := (List.getElem?_eq_some_iff.1 hstart).1
      exact ⟨event, payload, ack, (List.getElem?_append_left hlt).trans hstart⟩
    · obtain ⟨hstart, event, payload, ack, rfl⟩ := of_mem_started hc
      exact ⟨event, payload, ack, by rw [hstart, List.getElem?_concat_length]⟩

theorem start_lt (hc : c ∈ (after acts).all) : c.start < acts.length := by
  obtain ⟨_, _, _, hstart⟩ := start_of_mem_all hc
  exact (List.getElem?_eq_some_iff.1 hstart).1

/-- The calls of the delivery at place `k`. -/
def Scene.of (s : Scene α) (k : Nat) : List (Call α) := s.all.filter fun c => decide (c.start = k)

/-- They are settled when it starts, and then no more. -/
theorem of_concat (acts : List (Act α)) (a : Act α) (k : Nat) : (after (acts ++ [a])).of k
    = if k = acts.length then started acts a else (after acts).of k := by
  rw [Scene.of, all_concat, List.filter_append, List.filter_append]
  by_cases hk : k = acts.length
  · -- Whatever was called or due until now is of deliveries that started earlier.
    have hnew : (started acts a).filter (fun c => decide (c.start = k)) = started acts a :=
      List.filter_eq_self.2 fun c hc => by simpa [hk] using (of_mem_started hc).1
    have hnone (cs : List (Call α)) (hcs : ∀ c ∈ cs, c ∈ (after acts).all) :
        cs.filter (fun c => decide (c.start = k)) = [] :=
      List.filter_eq_nil_iff.2 fun c hc => by simpa [hk] using Nat.ne_of_lt (start_lt (hcs c hc))
    rw [if_pos hk, hnew, hnone _ fun _ => List.mem_append_left _,
      hnone _ fun _ => List.mem_append_right _, List.nil_append, List.append_nil]
  · have hother : (started acts a).filter (fun c => decide (c.start = k)) = [] :=
      List.filter_eq_nil_iff.2 fun c hc => by simpa [(of_mem_started hc).1] using Ne.symm hk
    rw [if_neg hk, hother, List.nil_append, ← List.filter_append]
    rfl

/-- A delivery calls those who were there when it started. -/
theorem of_delivery (hk : acts[k]? = some (.deliver event payload ack)) :
    (after acts).of k = calls k payload ack
      ((present (acts.take k)).filter (·.event == event)) := by
  induction acts using List.reverseRecOn with
  | nil => cases hk
  | append_singleton acts a ih =>
    rw [of_concat]
    by_cases hlast : k = acts.length
    · subst hlast
      rw [List.getElem?_concat_length] at hk
      obtain rfl := Option.some.inj hk
      rw [if_pos rfl, List.take_left, started]
    · have hlt : k < acts.length := by
        have hlt := (List.getElem?_eq_some_iff.1 hk).1
        simp only [List.length_append, List.length_singleton] at hlt
        omega
      rw [List.getElem?_append_left hlt] at hk
      rw [if_neg hlast, List.take_append_of_le_length (Nat.le_of_lt hlt), ih hk]

/-! Numbers -/

theorem added (h : holdings.given acts i = some l) :
    (∃ action once, acts[i]? = some (.add l.event action once)) ∧
      l.id = (acts.take i).countP Act.adds + 1 := by
  obtain ⟨a, ha, hgives⟩ := Option.bind_eq_some_iff.1 h
  cases a with
  | add event action once =>
    obtain rfl := Option.some.inj hgives
    exact ⟨⟨action, once, ha⟩, rfl⟩
  | _ => cases hgives

/-- Numbers are given once and grow. -/
theorem id_lt (h : holdings.given acts i = some l) (h' : holdings.given acts j = some l')
    (hij : i < j) :
    l.id < l'.id := by
  obtain ⟨⟨action, once, hadd⟩, hid⟩ := added h
  -- The registration at `i` counts for the one at `j`, but not for itself.
  have hcount : (acts.take (i + 1)).countP Act.adds = (acts.take i).countP Act.adds + 1 := by
    rw [List.take_add_one, hadd, List.countP_append]
    rfl
  have hmono : (acts.take (i + 1)).countP Act.adds ≤ (acts.take j).countP Act.adds :=
    (List.take_sublist_take_left hij).countP_le
  rw [hid, (added h').2]
  omega

theorem eq_of_id_eq (h : holdings.given acts i = some l) (h' : holdings.given acts j = some l')
    (hid : l.id = l'.id) : i = j ∧ l = l' := by
  have hij : i = j := by
    rcases Nat.lt_trichotomy i j with hlt | rfl | hlt
    · exact absurd hid (Nat.ne_of_lt (id_lt h h' hlt))
    · rfl
    · exact absurd hid.symm (Nat.ne_of_lt (id_lt h' h hlt))
  subst hij
  exact ⟨rfl, Option.some.inj (h.symm.trans h')⟩

theorem ids_increase (acts : List (Act α)) : (present acts).Pairwise fun l l' => l.id < l'.id := by
  refine List.Pairwise.filterMap _ (fun i j hij l hl l' hl' => ?_) List.pairwise_lt_range
  exact id_lt (Option.filter_eq_some_iff.1 hl).1 (Option.filter_eq_some_iff.1 hl').1 hij

/-- Who was removed is not there later. -/
theorem id_ne_of_taken (hl : l ∈ present (acts.take k)) (hk : acts[k]? = some a)
    (htakes : a.takes l = true) (hn : k < n) : ∀ l' ∈ present (acts.take n), l'.id ≠ l.id := by
  intro l' hl' hid
  obtain ⟨i, hi, hgiven, -⟩ := holdings.mem_standing_take.1 hl
  obtain ⟨j, -, hgiven', hkept⟩ := holdings.mem_standing_take.1 hl'
  obtain ⟨rfl, rfl⟩ := eq_of_id_eq hgiven' hgiven hid
  exact nomatch htakes.symm.trans (hkept k a hi hn hk)

/-- Who is called was there when the delivery started, and listened to its event. -/
theorem of_mem_all (hc : c ∈ (after acts).all) : ∃ event payload ack,
    acts[c.start]? = some (.deliver event payload ack) ∧
      c.listener ∈ present (acts.take c.start) ∧ c.listener.event = event := by
  obtain ⟨event, payload, ack, hstart⟩ := start_of_mem_all hc
  have hmem : c ∈ (after acts).of c.start := List.mem_filter.2 ⟨hc, by simp⟩
  rw [of_delivery hstart] at hmem
  have hlistener := List.mem_map_of_mem (f := Call.listener) hmem
  rw [listeners_of_calls] at hlistener
  obtain ⟨hpresent, hevent⟩ := List.mem_filter.1 hlistener
  exact ⟨event, payload, ack, hstart, hpresent, by simpa using hevent⟩

/-- A delivery calls nobody twice. -/
theorem of_pairwise (acts : List (Act α)) (k : Nat) :
    ((after acts).of k).Pairwise fun c c' => c.listener.id ≠ c'.listener.id := by
  cases hof : (after acts).of k with
  | nil => exact .nil
  | cons c rest =>
    have hc : c ∈ (after acts).all ∧ c.start = k := by
      have hmem : c ∈ (after acts).of k := by rw [hof]; exact List.mem_cons_self
      simpa [Scene.of] using hmem
    obtain ⟨event, payload, ack, hstart⟩ := start_of_mem_all hc.1
    rw [hc.2] at hstart
    have hids : (((after acts).of k).map (·.listener)).Pairwise fun l l' => l.id ≠ l'.id := by
      rw [of_delivery hstart, listeners_of_calls]
      exact ((ids_increase _).filter _).imp Nat.ne_of_lt
    rw [← hof]
    exact (List.pairwise_map (R := fun l l' : Listener α => l.id ≠ l'.id)).1 hids

/-- A listener that hears once is gone when the delivery that calls it starts. -/
theorem id_ne_of_once (hc : c ∈ (after acts).all) (honce : c.listener.once = true)
    (hn : c.start < n) :
    ∀ l ∈ present (acts.take n), l.id ≠ c.listener.id := by
  obtain ⟨event, payload, ack, hstart, hpresent, hevent⟩ := of_mem_all hc
  exact id_ne_of_taken hpresent hstart (by simp [Act.takes, honce, hevent]) hn

/-- So it is called in one delivery only. -/
theorem start_eq_of_once {c' : Call α} (hc : c ∈ (after acts).all) (hc' : c' ∈ (after acts).all)
    (honce : c.listener.once = true) (hid : c.listener.id = c'.listener.id) :
    c.start = c'.start := by
  obtain ⟨_, _, _, -, hpresent, -⟩ := of_mem_all hc
  obtain ⟨_, _, _, -, hpresent', -⟩ := of_mem_all hc'
  obtain ⟨i, -, hgiven, -⟩ := holdings.mem_standing_take.1 hpresent
  obtain ⟨j, -, hgiven', -⟩ := holdings.mem_standing_take.1 hpresent'
  have hsame := (eq_of_id_eq hgiven hgiven' hid).2
  rcases Nat.lt_trichotomy c.start c'.start with hlt | heq | hlt
  · exact absurd hid.symm (id_ne_of_once hc honce hlt _ hpresent')
  · exact heq
  · exact absurd hid (id_ne_of_once hc' (hsame ▸ honce) hlt _ hpresent)

/-! The law -/

/-- How deliveries and listeners go together in a history of one connection. -/
structure Lawful (acts : List (Act α)) : Prop where
  /-- The listeners are those that were added and not removed, oldest first. -/
  present : ∀ l, l ∈ (after acts).listeners.entries ↔ ∃ i, holdings.given acts i = some l ∧
    ∀ j a, i < j → acts[j]? = some a → a.takes l = false
  oldest_first : (after acts).listeners.entries.Pairwise fun l l' => l.id < l'.id
  unique : ∀ i j l l', holdings.given acts i = some l → holdings.given acts j = some l' →
    l.id = l'.id → i = j
  /-- A delivery calls the listeners of its event that are there when it starts, once each and in
  order, and gives the payload to all and the responder to the first. -/
  delivers : ∀ k event payload ack, acts[k]? = some (.deliver event payload ack) →
    ((after acts).of k).map (·.listener) = (after (acts.take k)).listeners.hearers event ∧
      ∀ i c, ((after acts).of k)[i]? = some c →
        c.payload = payload ∧ c.ack = if i = 0 then ack else none
  /-- There are no other calls. -/
  called : ∀ c ∈ (after acts).all,
    ∃ event payload ack, acts[c.start]? = some (.deliver event payload ack)
  /-- What is due is called in turn. -/
  goes_on : ∀ m, (after (acts ++ List.replicate m .call)).made
    = (after acts).made ++ (after acts).due.take m
  once : (after acts).all.Pairwise fun c c' =>
    c.listener.once = true → c.listener.id ≠ c'.listener.id
  /-- A listener that hears once is gone when it is called. -/
  spent : ∀ c ∈ (after acts).all, c.listener.once = true →
    ∀ l ∈ (after acts).listeners.entries, l.id ≠ c.listener.id
  /-- From its registration on, until it is removed, a listener is called in each delivery. -/
  hears : ∀ i k l payload ack, holdings.given acts i = some l → i < k →
    acts[k]? = some (.deliver l.event payload ack) →
    (∀ j a, i < j → j < k → acts[j]? = some a → a.takes l = false) →
    ∃ c ∈ (after acts).of k, c.listener = l
  /-- By its number a listener is removed and no other. -/
  off : ∀ id, (after (acts ++ [.offListener id])).listeners.entries
      = (after acts).listeners.entries.filter (fun l => decide (l.id ≠ id)) ∧
    (after acts).listeners.entries.countP (fun l => decide (l.id = id)) ≤ 1

theorem countP_id_le (acts : List (Act α)) (id : Nat) :
    (after acts).listeners.entries.countP (fun l => decide (l.id = id)) ≤ 1 := by
  have hids : ((after acts).listeners.entries.filter fun l => decide (l.id = id)).Pairwise
      fun l l' => l.id < l'.id := by
    rw [entries_after]
    exact (ids_increase acts).filter _
  rw [List.countP_eq_length_filter]
  cases hfilter : (after acts).listeners.entries.filter fun l => decide (l.id = id) with
  | nil => exact Nat.zero_le _
  | cons l rest =>
    cases rest with
    | nil => exact Nat.le_refl _
    | cons l' rest =>
      have hsame : ∀ x ∈ l :: l' :: rest, x.id = id := by
        intro x hx
        rw [← hfilter] at hx
        simpa using (List.mem_filter.1 hx).2
      rw [hfilter] at hids
      have hlt := (List.pairwise_cons.1 hids).1 l' List.mem_cons_self
      rw [hsame l (by simp), hsame l' (by simp)] at hlt
      exact absurd hlt (Nat.lt_irrefl id)

theorem lawful (acts : List (Act α)) : Lawful acts where
  present l := by
    rw [entries_after, Listeners.present, holdings.mem_standing]
    rfl
  oldest_first := by
    rw [entries_after]
    exact ids_increase acts
  unique i j l l' h h' hid := (eq_of_id_eq h h' hid).1
  delivers k event payload ack hk := by
    rw [of_delivery hk, listeners_of_calls, hearers, entries_after]
    exact ⟨rfl, fun i c hc => of_getElem?_calls hc⟩
  called c hc := start_of_mem_all hc
  goes_on m := (after_calls acts m).1
  once := by
    refine List.pairwise_iff_forall_sublist.2 fun {c c'} hsub honce hid => ?_
    have hc : c ∈ (after acts).all := hsub.subset (by simp)
    have hc' : c' ∈ (after acts).all := hsub.subset (by simp)
    have hstart := start_eq_of_once hc hc' honce hid
    have hboth : [c, c'].Sublist ((after acts).of c.start) := by
      simpa [Scene.of, hstart] using hsub.filter fun x => decide (x.start = c.start)
    exact List.pairwise_iff_forall_sublist.1 (of_pairwise acts c.start) hboth hid
  spent c hc honce := by
    have hnow := id_ne_of_once hc honce (start_lt hc)
    rwa [List.take_length, ← entries_after] at hnow
  hears i k l payload ack hgiven hik hk hkept := by
    have hthere : l ∈ Listeners.present (acts.take k) :=
      holdings.mem_standing_take.2 ⟨i, hik, hgiven, hkept⟩
    have hmem : l ∈ ((after acts).of k).map (·.listener) := by
      rw [of_delivery hk, listeners_of_calls]
      exact List.mem_filter.2 ⟨hthere, by simp⟩
    simpa using hmem
  off id := by
    refine ⟨?_, countP_id_le acts id⟩
    rw [after_concat]
    exact List.filter_congr fun l _ => by by_cases hid : l.id = id <;> simp [hid]

/-- An act on a connection. A delivery makes all its calls. -/
def Act.perform (n : Nat) (w : World) : Act Reaction → World
  | .add event action once => (w.listen n event action once).1
  | .off event => w.off n event
  | .offListener id => w.offListener n id
  | .offAll => w.offAll n
  | .deliver event payload ack => w.deliver n event payload ack
  | .call => w

/-- An act with the calls it makes when nothing comes in between. -/
def Act.whole (l : Listeners α) : Act α → List (Act α)
  | .deliver event payload ack =>
    .deliver event payload ack :: List.replicate (l.hearers event).length .call
  | a => [a]

/-- Nothing is left to call. -/
theorem after_whole (hdue : (after acts).due = []) (a : Act α) :
    (after (acts ++ a.whole (after acts).listeners)).due = [] ∧
      (after (acts ++ a.whole (after acts).listeners)).listeners =
        ((after acts).act a).listeners := by
  cases a with
  | deliver event payload ack =>
    let deed : Act α := .deliver event payload ack
    have hcalls := after_calls (acts ++ [deed]) ((after acts).listeners.hearers event).length
    have hwhole : acts ++ deed.whole (after acts).listeners =
        (acts ++ [deed]) ++
          List.replicate ((after acts).listeners.hearers event).length .call := by
      rw [List.append_assoc]
      rfl
    rw [hwhole]
    refine ⟨?_, by rw [hcalls.2.2, after_concat]⟩
    rw [hcalls.2.1, after_concat]
    simp only [deed, Scene.act, hdue, List.append_nil, deliver_fst]
    rw [← length_calls]
    exact List.drop_length
  | call => simp [Act.whole, after_concat, Scene.act, hdue]
  | _ => simp [Act.whole, after_concat, Scene.act, hdue]

end Listeners

/-- What a handler does, as a change. -/
def Change.Reacts : Change → Prop
  | .answer .. | .enqueue .. | .set .. | .spawn _ | .record _ | .signal _ | .abandon _ => True
  | _ => False

theorem Change.Stirs.reacts {c : Change} (h : c.Stirs) : c.Reacts := by
  cases c with
  | listen serial event action once => cases action <;> exact h.elim
  | _ => first | exact trivial | exact h.elim

theorem Change.Reacts.reshape_eq {ch : Change} (h : ch.Reacts) (w : World) (n : Nat)
    (c : Connection) :
    ch.reshape w n c = c := by
  cases ch <;> first | rfl | exact h.elim

namespace World

open Listeners

variable {w w' : World} {n : Nat} {acts : List (Act Reaction)} {c : Connection}

theorem Makes.connection?_of_reacts (h : Makes Change.Reacts w w') (n : Nat) :
    w'.connection? n = w.connection? n := by
  refine h.keeps (I := fun v => v.connection? n = w.connection? n) (fun v ch hch hv => ?_) rfl
  rw [connection?_apply_of_ne (by rintro url name rfl; exact hch), ← hv]
  cases v.connection? n with
  | none => rfl
  | some c => rw [Option.map_some, hch.reshape_eq]

theorem abandonIf_reacts (w : World) (ack : Option CellId) :
    Makes Change.Reacts w (w.abandonIf ack) := by
  cases ack with
  | none => exact .nothing
  | some cell => exact .one (.abandon cell) trivial

theorem answerIf_reacts (w : World) (ack : Option CellId) (v : Json) :
    Makes Change.Reacts w (w.answerIf ack v) := by
  cases ack with
  | none => exact .nothing
  | some cell => exact .one (.answer cell v) trivial

theorem react_reacts (w : World) (action : Reaction) (payload : Json) (ack : Option CellId) :
    Makes Change.Reacts w (w.react action payload ack) := by
  cases action with
  | enqueue worker token =>
    simp only [react]
    split
    · exact abandonIf_reacts ..
    · exact (Makes.more (.signal (.queue worker)) (.one (.enqueue worker payload) trivial)
        trivial).trans (abandonIf_reacts ..)
  | status owner path token =>
    simp only [react]
    split
    · exact abandonIf_reacts ..
    · exact (Makes.one (.set (.component owner) path payload) trivial).trans (abandonIf_reacts ..)
  | apiEvent owner paths token =>
    simp only [react]
    split
    · exact abandonIf_reacts ..
    · exact (Makes.foldl (fun _ path => .one (.set (.component owner) path payload) trivial) paths
        w).trans (answerIf_reacts ..)
  | serve hook token =>
    simp only [react]
    split
    · exact abandonIf_reacts ..
    · exact .one (.spawn _) trivial
  | publish descriptor => exact answerIf_reacts ..
  | probe name answer =>
    have hheard : Makes Change.Reacts w (w.record (.heard name payload ack.isSome)) :=
      .one (.record _) trivial
    cases answer with
    | none => exact hheard.trans (abandonIf_reacts ..)
    | some v => exact hheard.trans (answerIf_reacts ..)
  | await cell => exact (Makes.one (.answer cell payload) trivial).trans (abandonIf_reacts ..)

/-- The calls of a delivery, made one after the other. -/
def makeCalls (w : World) (called : List (Call Reaction)) : World :=
  called.foldl (fun w c => w.react c.listener.action c.payload c.ack) w

theorem makeCalls_reacts (w : World) (called : List (Call Reaction)) :
    Makes Change.Reacts w (w.makeCalls called) := by
  unfold makeCalls
  exact Makes.foldl (fun _ _ => react_reacts ..) called w

theorem reactAll_eq (w : World) (start : Nat) (payload : Json) (ack : Option CellId)
    (ls : List (Listener Reaction)) : w.reactAll payload ack (ls.map (·.action))
      = if ls = [] then w.abandonIf ack else w.makeCalls (calls start payload ack ls) := by
  cases ls with
  | nil => rfl
  | cons first rest =>
    have hrest (w : World) :
        (rest.map (·.action)).foldl (fun w action => w.react action payload none) w
        = w.makeCalls (calls start payload none rest) := by
      induction rest generalizing w with
      | nil => rfl
      | cons l rest ih => exact ih _
    simp only [List.map_cons, reactAll, hrest, if_neg (List.cons_ne_nil first rest)]
    rfl

/-- Those that were to hear an event once are off the connection. -/
def spend (w : World) (n : Nat) (event : String) : World := w.apply (.spend n event)

/-- On an open connection a delivery makes the calls of who hears its event. -/
theorem deliver_eq (hc : w.connection? n = some c) (hlive : c.connected = true) (start : Nat)
    (event : String) (payload : Json) (ack : Option CellId) : w.deliver n event payload ack
      = if c.listeners.hearers event = [] then (w.spend n event).abandonIf ack
        else (w.spend n event).makeCalls (calls start payload ack (c.listeners.hearers event)) := by
  rw [← reactAll_eq, spend, ← updateConnection_spend hc]
  simp only [deliver, hc, hlive, Bool.not_true, Bool.false_eq_true, ↓reduceIte]
  rfl

theorem connection?_perform (hc : w.connection? n = some c) (hlive : c.connected = true)
    {s : Scene Reaction} (hs : c.listeners = s.listeners) (a : Act Reaction) :
    (a.perform n w).connection? n = some { c with listeners := (s.act a).listeners } := by
  have hremoved (out : Listener Reaction → Bool) : (w.removeListeners n out).connection? n
      = some { c with listeners := (s.listeners.remove out).2 } := by
    have hrest := (removeListeners_eq w n out).mono fun _ hch => hch.reacts
    rw [hrest.connection?_of_reacts, connection?_apply hc, ← hs]
    simp [Change.reshape]
  cases a with
  | add event action once =>
    rw [Act.perform, listen_eq, connection?_apply hc, Scene.act, ← hs]
    simp [Change.reshape]
  | off event => exact hremoved _
  | offListener id => exact hremoved _
  | offAll => exact hremoved _
  | deliver event payload ack =>
    have hspent : (w.spend n event).connection? n
        = some { c with listeners := (s.listeners.deliver event).2 } := by
      rw [spend, connection?_apply hc, ← hs]
      simp [Change.reshape]
    rw [Act.perform, deliver_eq hc hlive 0]
    split
    · exact ((abandonIf_reacts ..).connection?_of_reacts n).trans hspent
    · exact ((makeCalls_reacts ..).connection?_of_reacts n).trans hspent
  | call =>
    have hsame : (s.act .call).listeners = s.listeners := by
      simp only [Scene.act]
      split <;> rfl
    rw [Act.perform, hc, hsame, ← hs]

/-- The connection is open, its listeners are what that history leaves, and all its calls are
made. -/
def OpenAfter (n : Nat) (acts : List (Act Reaction)) (w : World) : Prop :=
  (after acts).due = [] ∧
    ∃ c, w.connection? n = some c ∧ c.connected = true ∧ c.listeners = (after acts).listeners

theorem openAfter_of_open {url namespaceName : String} {extra : Fields Json}
    (h : w.openConnection url namespaceName extra = (.ok n, w')) : OpenAfter n [] w' := by
  simp only [openConnection] at h
  split at h
  · cases h
  · cases h
    exact ⟨rfl, _, List.getElem?_concat_length, rfl, rfl⟩

theorem OpenAfter.perform (h : OpenAfter n acts w) (a : Act Reaction) :
    OpenAfter n (acts ++ a.whole (after acts).listeners) (a.perform n w) := by
  obtain ⟨hdue, c, hc, hlive, hlisteners⟩ := h
  obtain ⟨hdue', hlisteners'⟩ := after_whole hdue a
  exact ⟨hdue', _, connection?_perform hc hlive hlisteners a, hlive, hlisteners'.symm⟩

/-- Deliveries are lawful, whatever is done between their calls; and the connections of an engine
keep the law: from the opening on their listeners are what the acts on them leave, and a
delivery makes the calls of its history. -/
theorem deliveries_lawful :
    (∀ (α : Type) (acts : List (Act α)), Lawful acts) ∧
      (∀ (w w' : World) (url namespaceName : String) (extra : Fields Json) (n : Nat),
        w.openConnection url namespaceName extra = (.ok n, w') → OpenAfter n [] w') ∧
      ∀ (w : World) (n : Nat) (acts : List (Act Reaction)), OpenAfter n acts w →
        (∀ a : Act Reaction, OpenAfter n (acts ++ a.whole (after acts).listeners) (a.perform n w)) ∧
        (∀ event action once, holdings.given (acts ++ [.add event action once]) acts.length
          = some ⟨(w.listen n event action once).2, event, action, once⟩) ∧
        ∀ event payload ack,
          let deed : Act Reaction := .deliver event payload ack
          let called := (after (acts ++ deed.whole (after acts).listeners)).of acts.length
          w.deliver n event payload ack = if called = [] then (w.spend n event).abandonIf ack
            else (w.spend n event).makeCalls called := by
  refine ⟨fun _ => lawful, fun _ _ _ _ _ _ => openAfter_of_open, fun w n acts h => ?_⟩
  obtain ⟨-, c, hc, hlive, hlisteners⟩ := id h
  refine ⟨h.perform, fun event action once => ?_, fun event payload ack => ?_⟩
  · rw [Holdings.given_last]
    simp [listen, hc, add, hlisteners, listeners_after, holdings]
  · intro deed called
    have hcalled : called = calls acts.length payload ack (c.listeners.hearers event) := by
      have hplace : (acts ++ deed.whole (after acts).listeners)[acts.length]? = some deed := by
        rw [List.getElem?_append_right (Nat.le_refl _), Nat.sub_self]
        rfl
      rw [hlisteners, hearers, entries_after]
      exact (of_delivery hplace).trans (by rw [List.take_left])
    rw [hcalled, deliver_eq hc hlive acts.length]
    simp only [calls_eq_nil]

/-- The first handler takes the second listener off and delivers again. -/
def interrupted : List (Act Nat) :=
  [.add "news" 0 true, .add "news" 1 false, .deliver "news" .null (some 7), .call, .offListener 2,
    .deliver "news" .null none, .call]

/-- The delivery that was under way still calls the second listener, and the new one calls
nobody. -/
theorem delivered_at_home :
    ((after interrupted).made.map fun c => (c.start, c.listener.id, c.ack))
        = [(2, 1, some 7), (2, 2, none)] ∧
      Lawful interrupted ∧
      ∃ opened, openConnection { settings := {} } "http://home" "/" [] = (.ok 1, opened) ∧
        OpenAfter 1 [] opened ∧
        let heard := (opened.listen 1 "news" (.probe "first" none) true).1
        let called : Call Reaction := ⟨1, ⟨1, "news", .probe "first" none, true⟩, .null, none⟩
        OpenAfter 1 [.add "news" (.probe "first" none) true] heard ∧
          heard.deliver 1 "news" .null none = (heard.spend 1 "news").makeCalls [called] := by
  have hopens := deliveries_lawful.2.1 { settings := {} } _ "http://home" "/" [] 1 rfl
  have hacts := deliveries_lawful.2.2 _ 1 [] hopens
  have hlistens := hacts.1 (.add "news" (.probe "first" none) true)
  have hdelivers := (deliveries_lawful.2.2 _ 1 _ hlistens).2.2 "news" .null none
  exact ⟨rfl, deliveries_lawful.1 Nat _, _, rfl, hopens, hlistens, hdelivers⟩

end World

end Patchbay
