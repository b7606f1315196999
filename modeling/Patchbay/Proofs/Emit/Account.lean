import Patchbay.Proofs.Emit.Settlement
import Patchbay.Proofs.Json.Ordered
import Patchbay.Proofs.State.Defaults

/-!
The account of an error that a post-hook is given. It is the recorded error, flattened: the message,
the event and the details are told by name. An answer can name a detail like the event; then the
event is not told.
-/

namespace Patchbay

namespace Fields

variable {α : Type} {fields : Fields α} {key other : String}

theorem erase_sublist (key : String) (fields : Fields α) :
    List.Sublist (fields.erase key) fields := by
  induction fields with
  | nil => exact List.Sublist.refl _
  | cons head rest ih =>
    unfold erase
    split
    · exact List.sublist_cons_self head rest
    · exact ih.cons_cons head

theorem sorted_erase (key : String) (h : fields.Sorted) : (fields.erase key).Sorted :=
  List.Pairwise.sublist (erase_sublist key fields) h

theorem get?_erase_self (h : fields.Sorted) (key : String) :
    (fields.erase key).get? key = none := by
  induction fields with
  | nil => rfl
  | cons head rest ih =>
    obtain ⟨hhead, hrest⟩ := List.pairwise_cons.1 h
    unfold erase
    split
    · rename_i heq
      exact get?_eq_none_of_lt fun entry hentry => heq ▸ hhead entry hentry
    · rename_i hne
      rw [get?, if_neg hne]
      exact ih hrest

theorem get?_erase_of_ne (h : other ≠ key) (fields : Fields α) :
    (fields.erase key).get? other = fields.get? other := by
  induction fields with
  | nil => rfl
  | cons head rest ih =>
    unfold erase
    split
    · rename_i heq
      rw [get?, if_neg (heq ▸ Ne.symm h)]
    · rw [get?, get?, ih]

end Fields

/-- A record of that event, with details in order of which none is named like the message. -/
structure ErrorRecord.Tidy (event : String) (record : ErrorRecord) : Prop where
  event : record.event = event
  sorted : record.details.Sorted
  free : record.details.get? Ack.errorKey = none

/-- However the error of an emit of that event is recorded, the record is tidy. -/
def EmitError.Tidy (event : String) (e : EmitError) : Prop :=
  ∀ msg now, (e.toRecord event msg now).Tidy event

namespace Ack

/-- The members of the account of a record, and what can be told from them. -/
structure Recounts (record : ErrorRecord) (members : Fields Json) : Prop where
  message : members.get? errorKey = some (.str record.message)
  others (key : String) (hmessage : key ≠ errorKey) (hevent : key ≠ "evt") :
    members.get? key = record.details.get? key
  /-- All is told unless a detail is named like the event. -/
  event (hnone : record.details.get? "evt" = none) : members.get? "evt" = some (.str record.event) ∧
    Fields.erase "evt" (members.erase errorKey) = record.details
  hidden (v : Json) (hsome : record.details.get? "evt" = some v) : members.get? "evt" = some v

theorem recounts_errorValue {event : String} {record : ErrorRecord} (h : record.Tidy event) :
    ∃ members, errorValue record = .obj members ∧ Recounts record members := by
  obtain ⟨-, hsorted, hfree⟩ := h
  let own : Fields Json :=
    Fields.ofList [(errorKey, .str record.message), ("evt", .str record.event)]
  have hget (key : String) : (own.overlay record.details).get? key =
      (record.details.get? key).or (own.get? key) := Fields.get?_overlay own hsorted key
  have hmembers : (own.overlay record.details).Sorted :=
    Fields.sorted_overlay record.details (Fields.sorted_ofList _)
  have hown (key : String) (hmessage : key ≠ errorKey) (hevent : key ≠ "evt") :
      own.get? key = none := by
    have hlast : own.get? key = (Fields.get? key [(errorKey, Json.str record.message)]) :=
      Fields.get?_insert_of_ne hevent _ _
    rw [hlast, Fields.get?, if_neg (Ne.symm hmessage)]
    rfl
  have hevent : own.get? "evt" = some (.str record.event) := Fields.get?_insert_self ..
  have hothers (key : String) (hmessage : key ≠ errorKey) (hevent : key ≠ "evt") :
      (own.overlay record.details).get? key = record.details.get? key := by
    rw [hget, hown key hmessage hevent, Option.or_none]
  refine ⟨own.overlay record.details, rfl, ?_, hothers, fun hnone => ⟨?_, ?_⟩, fun v hsome => ?_⟩
  · have hne : errorKey ≠ "evt" := by decide
    have hmessage : own.get? errorKey = some (.str record.message) :=
      (Fields.get?_insert_of_ne hne _ _).trans (Fields.get?_insert_self ..)
    rw [hget, hfree, hmessage]
    rfl
  · rw [hget, hnone, hevent]
    rfl
  · refine (Fields.sorted_erase "evt" (Fields.sorted_erase errorKey hmembers)).ext hsorted
      fun key => ?_
    by_cases hkey : key = "evt"
    · subst hkey
      rw [Fields.get?_erase_self (Fields.sorted_erase errorKey hmembers), hnone]
    · rw [Fields.get?_erase_of_ne hkey]
      by_cases hmessage : key = errorKey
      · subst hmessage
        rw [Fields.get?_erase_self hmembers, hfree]
      · rw [Fields.get?_erase_of_ne hmessage, hothers key hmessage hkey]
  · rw [hget, hsome]
    rfl

theorem tidy_of_settle {event now : String} {msg answer : Json} {e : EmitError}
    (h : settle event msg answer now = .error e) (hanswer : answer.Ordered) : e.Tidy event := by
  unfold settle at h
  split at h
  · rename_i fields
    split at h
    · cases h
    · cases h
      have hsorted : Fields.Sorted (Fields.erase errorKey fields) :=
        Fields.sorted_erase errorKey hanswer.sorted
      have hfree : Fields.get? errorKey (Fields.erase errorKey fields) = none :=
        Fields.get?_erase_self hanswer.sorted errorKey
      intro msg' now'
      split <;> exact ⟨rfl, hsorted, hfree⟩
  · cases h

end Ack

namespace EmitRun

/-- The answers that an emit comes to read are in order. -/
def ReadsOrdered (own : List Moment) : Prop :=
  ∀ m ∈ own, ∀ v, m.answer? = some v → v.Ordered

variable {run : EmitRun} {after : AfterEmit} {known : Option (Except EmitError EmitOutcome)}
  {e : EmitError} {own : List Moment} {onward : Onward}

/-- An error that an emit finds is recorded tidily. -/
theorem Finds.tidy {m : Moment} (h : run.Finds after m (.error e))
    (hanswers : ∀ v, m.answer? = some v → v.Ordered) : e.Tidy run.event := by
  generalize hresult : Except.error e = result at h
  cases h with
  | vetoed | sent => cases hresult
  | refused | disconnected | timeout =>
    cases hresult
    exact fun _ _ => ⟨rfl, .nil, rfl⟩
  | @answered v _ hanswer hsettled =>
    rw [← hresult] at hsettled
    cases hread : Ack.settle run.event run.payload v m.world.stamp with
    | ok v' =>
      rw [hread] at hsettled
      cases hsettled
    | error e' =>
      rw [hread] at hsettled
      cases hsettled
      exact Ack.tidy_of_settle hread (hanswers v hanswer)

/-- What the post-hook hears of an error. An emit that asked for an answer and was rejected leaves
one record, of its event, and its post-hook is given the account of that record: the message, and
the event and the details, unless one of these is named like the event and stands in its place. -/
theorem post_hook_hears_record {w₀ w₁ w : World} {log₁ log₂ : List Moment} {t : Nat}
    (hfresh : w₀.Fresh) (hreached : World.Run w₀ log₁ w₁) (hdue : ⟨t, .emit run after⟩ ∈ w₁.ready)
    (hrun : World.Run w₁ log₂ w) (hack : run.noAck = false)
    (hanswers : ReadsOrdered (log₂.filter (·.task.id == t))) :
    let seen := Seen.of (log₂.filter (·.task.id == t))
    ∀ e, .error e ∈ seen.outcomes → ∃ record stamp members,
      record = e.toRecord run.event run.msg stamp ∧ record.event = run.event ∧
      (∀ scope event, seen.recorded scope event =
        if scope = run.channel.scope ∧ event = run.event then [record] else []) ∧
      seen.posts = run.hooks.post.toList.map (·, .obj members) ∧ Ack.Recounts record members := by
  intro seen e herror
  have hcounted := hreached.counted hfresh.counted
  obtain ⟨onward, known, hran, -⟩ := World.Run.ran hcounted hdue hrun
  obtain ⟨m, hm, hfinds⟩ := hran.finds herror
  have htidy := hfinds.tidy (hanswers m hm)
  have hgiven : t ≤ w₁.started := hcounted.2 _ (List.mem_append_left _ hdue)
  obtain ⟨_, hstage, -⟩ := Stage.later .due hcounted hgiven (.of_ready hcounted hdue) hrun
  have hlawful : run.Lawful seen := hstage.lawful
  have hpassed : seen.vetoed = false := by
    refine eq_false_of_ne_true fun hveto => ?_
    exact nomatch (hlawful.veto hveto).2.2.2 _ herror
  obtain ⟨-, ⟨v, hacked, -⟩ | ⟨e', stamp, hsame, hrecorded, hposts⟩⟩ :=
    hlawful.acked hpassed hack _ herror
  · cases hacked
  · obtain rfl := Except.error.inj hsame
    obtain ⟨members, haccount, hrecounts⟩ := Ack.recounts_errorValue (htidy run.msg stamp)
    exact ⟨_, stamp, members, rfl, (htidy run.msg stamp).event, hrecorded, haccount ▸ hposts,
      hrecounts⟩

/-! Orders that a busy shop turns down -/

def busyAnswer (details : Fields Json) : Json :=
  .obj (Fields.insert Ack.errorKey (.str "busy") details)

def busyShop (details : Fields Json) : World :=
  { desk with servers := [{
      namespaceName := "/"
      event := "order"
      reply := fun _ _ => { answer := .value (busyAnswer details) } }] }

/-- An order of which only a note is taken. -/
def noted : EmitRun := { order with hooks := ⟨none, some ⟨⟨"desk"⟩, "note"⟩⟩ }

/-- The order is about to be made. -/
def busyReady (details : Fields Json) : List Moment × World :=
  (busyShop details).play [.command 0 (.openBare "h" "http://shop" "/" []),
    .command 1 (.emitHooks "h" ⟨⟨"desk"⟩, "order", some (.int 2), none, some "note", some 20,
      none, false, "shop/"⟩)]

def busyDone (details : Fields Json) : List Moment × World := (busyReady details).2.play [.steps 20]

/-- The steps of the order. -/
def busyOwn (details : Fields Json) : List Moment := (busyDone details).1.filter (·.task.id == 1)

theorem busy_fresh (details : Fields Json) : (busyShop details).Fresh :=
  .of_unwatched rfl (List.forall_mem_singleton.2 rfl)

theorem busy_reached (details : Fields Json) :
    World.Run (busyShop details) (busyReady details).1 (busyReady details).2 := .of_play _ rfl

theorem busy_due (details : Fields Json) :
    ⟨1, .emit noted (.outcome 1)⟩ ∈ (busyReady details).2.ready := .head _

theorem busy_run (details : Fields Json) :
    World.Run (busyReady details).2 (busyDone details).1 (busyDone details).2 := .of_play _ rfl

/-- The order reads the shop's answer. -/
theorem busy_reads {details : Fields Json} (hanswer : (busyAnswer details).Ordered)
    (hcells : (busyOwn details).map (·.world.cells) = [[], [], [.empty, .empty]] ++
      List.replicate 6 [.answered (busyAnswer details), .answered (busyAnswer details)]) :
    ReadsOrdered (busyOwn details) := by
  intro m hm v hread
  obtain ⟨cell, -, -, -, -, hcell⟩ := Moment.answer?_eq_some hread
  have hheld : Cell.answered v ∈ m.world.cells := by
    rw [World.cell, List.getD_eq_getElem?_getD] at hcell
    cases hget : m.world.cells[cell]? with
    | none =>
      rw [hget] at hcell
      cases hcell
    | some content =>
      rw [hget] at hcell
      obtain rfl : content = .answered v := hcell
      exact List.mem_of_getElem? hget
  have hmem : m.world.cells ∈ (busyOwn details).map (·.world.cells) := List.mem_map_of_mem hm
  rw [hcells] at hmem
  generalize m.world.cells = cells at hmem hheld
  have hsame : v = busyAnswer details := by
    simp only [List.cons_append, List.nil_append, List.mem_cons, List.mem_replicate] at hmem
    rcases hmem with rfl | rfl | rfl | ⟨-, rfl⟩
    · cases hheld
    · cases hheld
    · simp at hheld
    · simpa using hheld
  exact hsame ▸ hanswer

/-- An answer with one detail. -/
theorem ordered_busyAnswer (key : String) {v : Json} (hv : v.members? = none) :
    (busyAnswer [(key, v)]).Ordered := by
  have hdetails : (Json.obj [(key, v)]).Ordered := .insert Json.ordered_nil (.other hv) key
  exact .insert hdetails (.other rfl) Ack.errorKey

theorem note_hears_details : ∃ record members,
    (Seen.of (busyOwn [("left", .int 0)])).posts = [(⟨⟨"desk"⟩, "note"⟩, .obj members)] ∧
    Fields.get? "evt" members = some (.str "order") ∧ Ack.Recounts record members := by
  obtain ⟨record, _, members, hrecord, hevent, -, hposts, hrecounts⟩ :=
    post_hook_hears_record (busy_fresh _) (busy_reached _) (busy_due _)
      (busy_run [("left", .int 0)]) rfl
      (busy_reads (ordered_busyAnswer "left" rfl) rfl) _ (.head _)
  have hnone : Fields.get? "evt" record.details = none := by
    rw [hrecord]
    rfl
  have htold := (hrecounts.event hnone).1
  rw [hevent] at htold
  exact ⟨record, members, hposts, htold, hrecounts⟩

/-- So the post-hook does not always hear of the event. -/
theorem event_hidden_by_detail :
    ¬ ∀ (w₀ w₁ w : World) (log₁ log₂ : List Moment) (t : Nat) (run : EmitRun) (after : AfterEmit),
      w₀.Fresh → World.Run w₀ log₁ w₁ → ⟨t, .emit run after⟩ ∈ w₁.ready → World.Run w₁ log₂ w →
      run.noAck = false → ReadsOrdered (log₂.filter (·.task.id == t)) →
      ∀ e, .error e ∈ (Seen.of (log₂.filter (·.task.id == t))).outcomes →
      ∀ call ∈ (Seen.of (log₂.filter (·.task.id == t))).posts,
        call.2.get? "evt" = some (.str run.event) := by
  intro h
  have hheard := h _ _ _ _ _ 1 noted (.outcome 1) (busy_fresh _) (busy_reached _) (busy_due _)
    (busy_run [("evt", .str "other")]) rfl (busy_reads (ordered_busyAnswer "evt" rfl) rfl) _
      (.head _) _
    (.head _)
  have hother : "other" = "order" := Json.str.inj (Option.some.inj hheard)
  exact absurd hother (by decide)

end EmitRun

end Patchbay
