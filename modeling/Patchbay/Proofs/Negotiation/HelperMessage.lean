import Patchbay.Proofs.Negotiation.EmitHelpers
import Patchbay.Proofs.Negotiation.OwnValues

/-!
What the helper of a published event says. The publication fills the gaps of the event's value by
texts that are read as paths; a call reads the value back as an object and lays its own fields over
it. So the message is the defaults under the value under the fields where every name of a default is
read as itself and no other event writes below this one.
-/

namespace Patchbay

/-- A name that is read as itself in a path. -/
def Path.IsName (name : String) : Prop := name ≠ "" ∧ ∀ c ∈ name.toList, isSeparator c = false

instance : DecidablePred Path.IsName := fun name =>
  have : Decidable (∀ c ∈ name.toList, Path.isSeparator c = false) := List.decidableBAll _ _
  inferInstanceAs (Decidable (_ ∧ _))

theorem Path.IsName.ofString_eq {name : String} (h : IsName name) : ofString name = [name] := by
  rw [ofString_of_unseparated h.2, if_neg h.1]

/-- The defaults of an event are members of its value, and no other event writes below it. -/
structure Descriptor.Plain (d : Descriptor) (event : String) : Prop where
  names : ∀ entry ∈ (d.eventDefaults event).getD [], Path.IsName entry.1
  apart : ∀ other ∈ d.events.keys, other ≠ event → ∀ slot ∈ d.seeds other,
    ¬ (Path.ofString event).Below (.ofString slot.1)

namespace Tree

variable {t : Tree} {d : Descriptor} {event : String} {place : Path}
  {defaults members : Fields Json}

theorem exists_members_fill (hobject : ∃ members, t.root.at? place = some (.obj members))
    (slots : List (String × Json)) :
    ∃ members, (t.fill slots).root.at? place = some (.obj members) := by
  induction slots generalizing t with
  | nil => exact hobject
  | cons slot rest ih => exact ih (exists_members_setDefault hobject slot.1 slot.2)

theorem exists_members_seed (hobject : ∃ members, t.root.at? place = some (.obj members))
    (d : Descriptor) (event : String) :
    ∃ members, (t.seed d event).root.at? place = some (.obj members) := by
  unfold seed
  split
  · exact exists_members_fill hobject (d.seeds event)
  · exact hobject

theorem exists_members_seeds (hobject : ∃ members, t.root.at? place = some (.obj members))
    (d : Descriptor) (events : List String) :
    ∃ members, (events.foldl (fun t event => t.seed d event) t).root.at? place =
      some (.obj members) := by
  induction events generalizing t with
  | nil => exact hobject
  | cons event rest ih => exact ih (exists_members_seed hobject d event)

theorem contains_seed {path : String} (h : t.contains path = true) (d : Descriptor)
    (event : String) :
    (t.seed d event).contains path = true := by
  unfold seed
  split
  · exact contains_fill h (d.seeds event)
  · exact h

theorem contains_seeds {path : String} (h : t.contains path = true) (d : Descriptor)
    (events : List String) :
    (events.foldl (fun t event => t.seed d event) t).contains path = true := by
  induction events generalizing t with
  | nil => exact h
  | cons event rest ih => exact ih (contains_seed h d event)

/-- Whatever its name, each default of an event that has a value is where its path leads. -/
theorem contains_seeds_of_mem (hthere : t.contains event = true) {events : List String}
    (hevent : event ∈ events) {slot : String × Json} (hslot : slot ∈ d.seeds event) :
    (events.foldl (fun t event => t.seed d event) t).contains slot.1 = true := by
  induction events generalizing t with
  | nil => cases hevent
  | cons first rest ih =>
    rcases List.mem_cons.1 hevent with rfl | hrest
    · refine contains_seeds ?_ d rest
      simp only [seed, if_pos hthere]
      exact contains_fill_of_mem hslot
    · exact ih (contains_seed hthere d first) hrest

/-- Defaults with plain names fill the gaps of an event's object. -/
theorem fill_seeds (hnames : ∀ entry ∈ defaults, Path.IsName entry.1)
    (hheld : t.root.at? (.ofString event) = some (.obj members)) :
    (t.fill (seeds event defaults)).root.at? (.ofString event) =
      some (.obj (defaults.foldl Fields.fillGap members)) := by
  induction defaults generalizing t members with
  | nil => exact hheld
  | cons entry rest ih =>
    obtain ⟨hname, hrest⟩ := List.forall_mem_cons.1 hnames
    refine ih hrest (at?_setDefault_member hheld ?_ entry.2)
    rw [ofString_seed, hname.ofString_eq]

/-- An event that writes nothing below a place leaves what is there. -/
theorem seed_apart {v : Json} (hheld : t.root.at? place = some v)
    (hapart : ∀ slot ∈ d.seeds event, ¬ place.Below (.ofString slot.1)) :
    (t.seed d event).root.at? place = some v := by
  unfold seed
  split
  · refine ((Spares.untouched hheld).fill (d.seeds event)).kept ?_
    simpa using fun text v hmem => hapart (text, v) hmem
  · exact hheld

theorem seeds_apart {v : Json} {events : List String} (hheld : t.root.at? place = some v)
    (hapart : ∀ event ∈ events, ∀ slot ∈ d.seeds event, ¬ place.Below (.ofString slot.1)) :
    (events.foldl (fun t event => t.seed d event) t).root.at? place = some v := by
  induction events generalizing t with
  | nil => exact hheld
  | cons event rest ih =>
    obtain ⟨hevent, hrest⟩ := List.forall_mem_cons.1 hapart
    exact ih (seed_apart hheld hevent) hrest

/-- All events have filled their gaps; this one has its defaults under what it had. -/
theorem seeds_plain (hplain : d.Plain event) (hdefaults : d.eventDefaults event = some defaults)
    (hheld : t.root.at? (.ofString event) = some (.obj members)) :
    (d.events.keys.foldl (fun t event => t.seed d event) t).root.at? (.ofString event) =
      some (.obj (defaults.foldl Fields.fillGap members)) := by
  have hmem := World.mem_keys_of_eventDefaults (by rw [hdefaults]; rfl)
  have hnodup : d.events.keys.Nodup := World.nodup_names d.events
  obtain ⟨before, after, hkeys⟩ := List.append_of_mem hmem
  have hothers : ∀ other ∈ before ++ after, other ∈ d.events.keys ∧ other ≠ event := by
    rw [hkeys, List.perm_middle.nodup_iff, List.nodup_cons] at hnodup
    intro other hother
    refine ⟨?_, fun heq => hnodup.1 (heq ▸ hother)⟩
    rw [hkeys]
    exact List.perm_middle.mem_iff.2 (List.mem_cons_of_mem _ hother)
  obtain ⟨hbefore, hafter⟩ := List.forall_mem_append.1 hothers
  rw [hkeys, List.foldl_append, List.foldl_cons]
  refine seeds_apart ?_ fun other hother =>
    hplain.apart other (hafter other hother).1 (hafter other hother).2
  have hreached := seeds_apart hheld fun other hother =>
    hplain.apart other (hbefore other hother).1 (hbefore other hother).2
  have hthere : (before.foldl (fun t event => t.seed d event) t).contains event = true := by
    rw [contains, get?, hreached]
    rfl
  have hnames := hplain.names
  rw [hdefaults] at hnames
  rw [seed, if_pos hthere, Descriptor.seeds, hdefaults]
  exact fill_seeds hnames hreached

end Tree

/-! ### An emit without hooks -/

namespace EmitRun

variable {run : EmitRun} {after : AfterEmit} {seen : Seen} {e : Onward}

theorem Settles.not_vetoed {result : Except EmitError EmitOutcome} {argument : Json}
    (h : run.Settles seen result argument) : seen.vetoed = false := by
  cases h with
  | sent hgates | acked hgates | failed _ _ _ hgates => exact hgates.vetoed rfl

/-- What has no pre-hook is not vetoed. -/
theorem Stage.not_vetoed (h : run.Stage after seen e) (hpre : run.hooks.pre = none) :
    seen.vetoed = false := by
  have hasked {hook : Hook} (hsome : run.hooks.pre = some hook) : False := by
    rw [hpre] at hsome
    cases hsome
  cases h with
  | due => rfl
  | gate hgate | gated hgate | vetoed hgate => exact (hasked hgate).elim
  | passed hgates | refused _ hgates | awaiting hgates | answered hgates | rejected hgates =>
    exact hgates.vetoed rfl
  | post _ hsettles | posted _ hsettles | settled hsettles => exact hsettles.not_vetoed
  | ended hdone =>
    cases hdone with
    | vetoed hgate => exact (hasked hgate).elim
    | refused _ hgates => exact hgates.vetoed rfl
    | settled hsettles => exact hsettles.not_vetoed
    | gated hgate => exact (hasked hgate).elim
    | awaiting hgates => exact hgates.vetoed rfl
    | posted _ hsettles => exact hsettles.not_vetoed

/-- What has no hooks parks only to wait for its answer. -/
theorem Stage.parked {job : Job} {signals : List Signal} {due : Option Nat}
    (h : run.Stage after seen (.parks job signals due)) (hpre : run.hooks.pre = none)
    (hpost : run.hooks.post = none) : run.noAck = false ∧ ∃ cell, signals = [.cell cell] := by
  cases h with
  | gated hgate =>
    rw [hpre] at hgate
    cases hgate
  | posted hposted =>
    rw [hpost] at hposted
    cases hposted
  | awaiting _ hack _ he =>
    rcases he with he | he
    · cases he
    · cases he
      exact ⟨hack, _, rfl⟩

end EmitRun

namespace World

variable {p : Pass} {w v u : World} {d : Descriptor} {owner : ComponentId} {channel : Channel}
  {event : String} {ticket t n : Nat} {defaults members fields : Fields Json}
  {own log : List Moment} {e : Onward}

/-! ### The value of a published event -/

/-- Under an event there is an object still after the publication, with something where the paths of
the defaults lead: the defaults under what it was, as far as they are plain. -/
theorem exists_value_of_published (hdefaults : d.eventDefaults event = some defaults)
    (hheld : (w.tree (.component p.owner)).get? event = some (.obj members)) (published : String)
    (wired : Wired) :
    ∃ value, ((w.bindClientApi p d published wired).1.tree (.component p.owner)).get? event =
        some (.obj value) ∧
      (∀ entry ∈ defaults, ((Json.obj value).at? (.ofString entry.1)).isSome = true) ∧
      (d.Plain event → defaults.Sorted → members.Sorted → value = defaults.overlay members) := by
  obtain ⟨value, hvalue⟩ := Tree.exists_members_seeds ⟨members, hheld⟩ d d.events.keys
  refine ⟨value, ?_, fun entry hentry => ?_, fun hplain hsorted hsorted' => ?_⟩
  · rw [tree_bindClientApi]
    exact hvalue
  · have hthere : (w.tree (.component p.owner)).contains event = true := by
      rw [Tree.contains, hheld]
      rfl
    have hslot : (event ++ "." ++ entry.1, entry.2) ∈ d.seeds event := by
      rw [Descriptor.seeds, hdefaults]
      exact List.mem_map_of_mem
        (f := fun entry : String × Json => (event ++ "." ++ entry.1, entry.2)) hentry
    have hfilled := Tree.contains_seeds_of_mem hthere
      (mem_keys_of_eventDefaults (by rw [hdefaults]; rfl)) hslot
    rwa [Tree.contains, Tree.get?, Tree.ofString_seed, Json.at?_append, hvalue] at hfilled
  · rw [Tree.seeds_plain hplain hdefaults hheld, Fields.fillGaps_eq_overlay hsorted' hsorted]
      at hvalue
    exact (Json.obj.inj (Option.some.inj hvalue)).symm

/-! ### Calls -/

/-- The call asks for an answer. -/
def asksAck (fields : Fields Json) : Bool :=
  match Fields.get? "ack" fields with
  | some (.bool b) => b
  | _ => false

theorem asksAck_iff : asksAck fields = true ↔ Fields.get? "ack" fields = some (.bool true) := by
  unfold asksAck
  split
  · rename_i heq
    simp [heq]
  · rename_i hnone
    simpa using hnone true

/-- What a helper emits that finds this value and is given these fields. -/
def helperRun (channel : Channel) (event : String) (value : Option Json) (fields : Fields Json) :
    EmitRun :=
  { channel, event, noAck := !asksAck fields
    msg := some (.obj (Fields.overlay (objectOf value) (Fields.erase "ack" fields))) }

/-- How far a call of a helper has come. It reads the event's value in its first step. -/
inductive Saying (ticket : Nat) (owner : ComponentId) (channel : Channel) (event : String)
    (fields : Fields Json) : List Moment → Onward → Prop
  | called : Saying ticket owner channel event fields []
      (.resumes (.call ticket owner (.helper channel event) (some (.obj fields))))
  | sending {own : List Moment} {e : Onward} {m : Moment} (hm : m ∈ own)
    (hjob : m.job = .call ticket owner (.helper channel event) (some (.obj fields)))
    (hstage : (helperRun channel event ((m.world.tree (.component owner)).get? event) fields).Stage
      (.helper ticket) (.of own) e) : Saying ticket owner channel event fields own e

theorem Saying.leads {m : Moment} (h : Saying ticket owner channel event fields own e)
    (hjob : e.job? = some m.job) :
    ∃ mid e', (∃ Q, Makes Q m.world mid) ∧ mid.onward e' = m.after ∧
      Saying ticket owner channel event fields (own ++ [m]) e' := by
  cases h with
  | called =>
    obtain ⟨⟨t, job⟩, w⟩ := m
    obtain rfl : Job.call ticket owner (.helper channel event) (some (.obj fields)) = job :=
      Option.some.inj hjob
    let run := helperRun channel event ((w.tree (.component owner)).get? event) fields
    have hstarts : w.onward (.resumes (.emit run (.helper ticket))) =
        w.startCall ticket owner (.helper channel event) (some (.obj fields)) := rfl
    exact ⟨w, _, ⟨Change.Basic, .nothing⟩, hstarts,
      .sending (List.mem_append_right _ (.head _)) rfl (stage_of_call rfl hstarts)⟩
  | sending hm hcalled hstage =>
    obtain ⟨mid, e', hmakes, hafter, hnext⟩ := hstage.leads hjob
    refine ⟨mid, e', hmakes, hafter, .sending (List.mem_append_left _ hm) hcalled ?_⟩
    rwa [EmitRun.Seen.of_append]

/-- A connection that is open at the end of a run was open all along. -/
theorem Run.isConnected_at (h : Run v log u) (hopened : v.Opened n) (hlive : u.isConnected n = true)
    {m : Moment} (hm : m ∈ log) : m.world.isConnected n = true := by
  obtain ⟨before, after, rfl⟩ := List.append_of_mem hm
  obtain ⟨x, rest, hbefore, -, hworld, hlater⟩ := h.split
  have hreached : x.Opened n :=
    hbefore.keeps (I := fun w => w.Opened n) (fun _ ch hw => Opened.apply hw ch)
      (fun _ _ _ _ _ hw => hw) hopened
  have hbegun : m.world.Opened n := hworld ▸ hreached
  obtain ⟨mid, e, hmid, -, heq⟩ := exec_does m.world m.task.job
  have hconnections : m.after.connections = mid.connections := by
    rw [Moment.after, ← heq]
    cases e <;> rfl
  have hafter : m.after.Opened n := by
    obtain ⟨c, hc⟩ := hbegun.makes hmid
    exact ⟨c, by rw [← hc, connection?, connection?, hconnections]⟩
  have hlive' := hlater.isConnected_earlier hafter hlive
  rw [isConnected_congr hconnections] at hlive'
  exact hbegun.isConnected_of_makes hmid hlive'

/-- What a call of a helper has come to, by its own steps: one message, and if that asks for an
answer, the answer or a wait for it. -/
structure Says (n : Nat) (event : String) (message : Json) (wanted : Bool) (t : Nat)
    (own : List Moment) (u : World) : Prop where
  wire : (EmitRun.Seen.of own).emissions = [] ∨
    (EmitRun.Seen.of own).emissions = [.emitted n event message wanted]
  sent : u.ready = [] → u.isConnected n = true →
    (EmitRun.Seen.of own).emissions = [.emitted n event message wanted]
  waits : u.ready = [] → (EmitRun.Seen.of own).outcomes = [] →
    wanted = true ∧ ∃ p ∈ u.parked, p.task.id = t ∧ ∃ cell, p.signals = [.cell cell]
  asked : wanted = true → ∀ result ∈ (EmitRun.Seen.of own).outcomes,
    (∃ answer, result = .ok (.acked answer)) ∨ ∃ error, result = .error error
  unasked : wanted = false → ∀ result ∈ (EmitRun.Seen.of own).outcomes,
    result = .ok .sent ∨ ∃ error, result = .error (.transport error)

/-- An emit without hooks says what it is to say. -/
theorem says_of_stage {run : EmitRun} {after : AfterEmit} (hpre : run.hooks.pre = none)
    (hpost : run.hooks.post = none) (hstage : run.Stage after (.of own) e) (hstands : u.Stands t e)
    (haccepted : u.isConnected run.channel.connection = true →
      ∀ accepted ∈ (EmitRun.Seen.of own).attempts, accepted = true) :
    Says run.channel.connection run.event run.payload (!run.noAck) t own u := by
  have hlawful := hstage.lawful
  have hpassed := hstage.not_vetoed hpre
  have hattempts : (EmitRun.Seen.of own).attempts.length = 1 ∨
      (EmitRun.Seen.of own).attempts = [] ∧ u.ready ≠ [] := by
    refine (hstage.attempts hpre).imp_right ?_
    rintro ⟨hnone, job, rfl⟩
    exact ⟨hnone, List.ne_nil_of_mem hstands.ready_of_resumes⟩
  have hwire := hlawful.wire.2
  refine ⟨?_, ?_, ?_, ?_, ?_⟩
  · rw [hwire]
    rcases hattempts with hone | ⟨hnone, -⟩
    · obtain ⟨accepted, haccepted⟩ := List.length_eq_one_iff.1 hone
      rw [haccepted]
      cases accepted
      · exact .inl rfl
      · exact .inr rfl
    · rw [hnone]
      exact .inl rfl
  · intro hidle hlive
    obtain ⟨accepted, hone⟩ := List.length_eq_one_iff.1 (hattempts.resolve_right fun h => h.2 hidle)
    have hyes := haccepted hlive accepted (by rw [hone]; exact .head _)
    rw [hwire, hone, hyes]
    rfl
  · intro hidle hunsettled
    obtain ⟨job, hjob⟩ := hstage.goes_on hunsettled
    rcases hstands.ready_or_parked hjob with hready | ⟨signals, due, rfl, hparked⟩
    · rw [hidle] at hready
      cases hready
    · obtain ⟨hack, hcell⟩ := hstage.parked hpre hpost
      exact ⟨by rw [hack]; rfl, _, hparked, rfl, hcell⟩
  · intro hwanted result hresult
    obtain ⟨-, ⟨answer, hacked, -⟩ | ⟨error, -, herror, -⟩⟩ :=
      hlawful.acked hpassed (by simpa using hwanted) result hresult
    · exact .inl ⟨answer, hacked⟩
    · exact .inr ⟨error, herror⟩
  · intro hunwanted result hresult
    obtain ⟨-, -, hresults⟩ := hlawful.unacked hpassed (by simpa using hunwanted)
    exact (hresults result hresult).imp (fun h => h.2.1) fun h => h.2.1

/-- To call the helper while the event has that value is to send the value with the call's fields
laid over it, once, and to wait for an answer if the fields say so. -/
theorem says_of_helper (hcounted : Counted v.started v.tasks)
    (hopened : v.Opened channel.connection)
    (hhelper : v.callable? owner (helperName event) = some (.helper channel event))
    (hrun : Run (v.perform ticket (.call owner (helperName event) (some (.obj fields)))).1 log u)
    {value : Fields Json} (hvalue : ∀ m ∈ log, m.task =
        ⟨v.started + 1, .call ticket owner (.helper channel event) (some (.obj fields))⟩ →
      (m.world.tree (.component owner)).get? event = some (.obj value)) :
    Says channel.connection event (.obj (value.overlay (Fields.erase "ack" fields)))
      (asksAck fields) (v.started + 1) (log.filter (·.task.id == v.started + 1)) u := by
  have hsends := callSends_of_helper hcounted hhelper
  have htransmits := hsends.sends ticket (some (.obj fields)) log u hrun
  have hcounted' := (Run.start.command (c := .call owner (helperName event) (some (.obj fields)))
    ticket (by simp)).counted hcounted
  rw [hsends.starts] at hrun hcounted'
  let job := Job.call ticket owner (.helper channel event) (some (.obj fields))
  have hdue : ⟨v.started + 1, job⟩ ∈ (v.spawn job).ready :=
    List.mem_append_right _ List.mem_cons_self
  obtain ⟨e, hsaying, hstands⟩ : ∃ e, Saying ticket owner channel event fields
      (log.filter (·.task.id == v.started + 1)) e ∧ u.Stands (v.started + 1) e :=
    Run.follow hcounted' (Nat.le_refl _) (.of_ready hcounted' hdue) .called
      (fun _ _ _ h hjob => h.leads hjob) hrun
  have haccepted (hlive : u.isConnected channel.connection = true) : ∀ accepted ∈
      (EmitRun.Seen.of (log.filter (·.task.id == v.started + 1))).attempts, accepted = true := by
    intro accepted hmem
    rw [EmitRun.Seen.attempts_of] at hmem
    obtain ⟨m, hm, hattempt⟩ := List.mem_filterMap.1 hmem
    unfold Moment.attempt? at hattempt
    split at hattempt
    · rename_i run after hjob
      rw [(htransmits.addressed m hm run after hjob).1] at hattempt
      rw [← Option.some.inj hattempt]
      exact hrun.isConnected_at hopened hlive (List.mem_filter.1 hm).1
    · cases hattempt
  generalize hown : log.filter (·.task.id == v.started + 1) = own at hsaying haccepted ⊢
  cases hsaying with
  | called =>
    have hready : u.ready ≠ [] := List.ne_nil_of_mem hstands.ready_of_resumes
    exact ⟨.inl rfl, fun hidle => absurd hidle hready, fun hidle => absurd hidle hready,
      fun _ _ hresult => absurd hresult List.not_mem_nil,
      fun _ _ hresult => absurd hresult List.not_mem_nil⟩
  | @sending _ _ m hm hjob hstage =>
    rw [← hown] at hm
    obtain ⟨hlog, hid⟩ := List.mem_filter.1 hm
    have htask : m.task = ⟨v.started + 1, job⟩ := by
      obtain ⟨⟨id, job'⟩, world⟩ := m
      exact congr (congrArg Task.mk (by simpa using hid)) hjob
    rw [hvalue m hlog htask] at hstage
    have hsays := says_of_stage rfl rfl hstage hstands haccepted
    rwa [helperRun, Bool.not_not] at hsays

/-- The message of an emit helper. A publication leaves an object under each of its events that had
one before. A call of the event's helper that finds this object sends it with the call's fields laid
over it, but for `ack`; it sends one message, and waits for an answer if `ack` is `true`. Where the
event's defaults have plain names and no other event writes below it, the object is the defaults
under what there was before. -/
theorem helper_message_overlaid (hdefaults : d.eventDefaults event = some defaults)
    (hheld : (w.tree (.component p.owner)).get? event = some (.obj members)) (published : String)
    (wired : Wired) :
    ∃ value, ((w.bindClientApi p d published wired).1.tree (.component p.owner)).get? event =
        some (.obj value) ∧
      (∀ entry ∈ defaults, ((Json.obj value).at? (.ofString entry.1)).isSome = true) ∧
      (d.Plain event → defaults.Sorted → members.Sorted → value = defaults.overlay members) ∧
      ∀ (v u : World) (ticket : Nat) (fields : Fields Json) (log : List Moment),
        Counted v.started v.tasks → v.Opened p.channel.connection →
        v.callable? p.owner (helperName event) = some (.helper p.channel event) →
        Run (v.perform ticket (.call p.owner (helperName event) (some (.obj fields)))).1 log u →
        (∀ m ∈ log, m.task =
            ⟨v.started + 1, .call ticket p.owner (.helper p.channel event) (some (.obj fields))⟩ →
          (m.world.tree (.component p.owner)).get? event = some (.obj value)) →
        ∃ wanted, (wanted = true ↔ Fields.get? "ack" fields = some (.bool true)) ∧
          Says p.channel.connection event
            (.obj (Fields.overlay value (Fields.erase "ack" fields))) wanted
            (v.started + 1) (log.filter (·.task.id == v.started + 1)) u := by
  obtain ⟨value, hvalue, hfilled, hplain⟩ :=
    exists_value_of_published hdefaults hheld published wired
  refine ⟨value, hvalue, hfilled, hplain,
    fun v u ticket fields log hcounted hopened hhelper hrun hfound => ?_⟩
  exact ⟨asksAck fields, asksAck_iff, says_of_helper hcounted hopened hhelper hrun hfound⟩

/-- A component with a ping of its own. -/
def parlour : World :=
  { kiosk with components := [("a", { data := .ofJson (.obj [("ping", .obj [("y", .int 2)])]) })] }

/-- An own API of one event. -/
def offering (defaults : Fields Json) : Descriptor where
  label := none
  version := .null
  events := .ofList [("ping", ⟨some (.obj defaults), []⟩)]
  methods := .empty

/-- The component offers its event. -/
def parlourOpen (defaults : Fields Json) : World :=
  (parlour.bindClientApi kioskRequest.pass (offering defaults) "getClientAPI" {}).1

/-- Its helper is called. -/
def parlourCalled (defaults fields : Fields Json) : List Moment × World :=
  ((parlourOpen defaults).perform 1
    (.call ⟨"a"⟩ "pingEmit" (some (.obj fields)))).1.play [.steps 10]

def pingDefaults : Fields Json := [("x", .int 1), ("y", .int 0)]

def pingFields : Fields Json := [("ack", .bool true), ("z", .int 3)]

theorem ping_says_overlaid :
    (EmitRun.Seen.of
      ((parlourCalled pingDefaults pingFields).1.filter (·.task.id == 1))).emissions =
        [.emitted 1 "ping" (.obj [("x", .int 1), ("y", .int 2), ("z", .int 3)]) true] := by
  have hdefaults : (offering pingDefaults).eventDefaults "ping" = some pingDefaults := rfl
  have hheld : (parlour.tree (.component ⟨"a"⟩)).get? "ping" = some (.obj [("y", .int 2)]) := rfl
  have hnames : ∀ entry ∈ pingDefaults, Path.IsName entry.1 := by decide
  have hplain : (offering pingDefaults).Plain "ping" :=
    ⟨hnames, fun other hother hne => absurd (List.mem_singleton.1 hother) hne⟩
  obtain ⟨value, -, -, hoverlaid, hsays⟩ :=
    helper_message_overlaid (p := kioskRequest.pass) hdefaults
    hheld "getClientAPI" {}
  obtain rfl : value = [("x", .int 1), ("y", .int 2)] :=
    hoverlaid hplain (by unfold Fields.Sorted; decide) (by unfold Fields.Sorted; decide)
  have hfound : (parlourCalled pingDefaults pingFields).1.map
      (fun m => (m.world.tree (.component ⟨"a"⟩)).get? "ping") =
      List.replicate 4 (some (.obj [("x", .int 1), ("y", .int 2)])) := rfl
  have hrun : Run ((parlourOpen pingDefaults).perform 1
      (.call ⟨"a"⟩ (helperName "ping") (some (.obj pingFields)))).1
    (parlourCalled pingDefaults pingFields).1 (parlourCalled pingDefaults pingFields).2 :=
    .of_play _ rfl
  have hcounted : Counted (parlourOpen pingDefaults).started (parlourOpen pingDefaults).tasks :=
    ⟨List.nodup_nil, List.forall_mem_nil _⟩
  have hhelper : (parlourOpen pingDefaults).callable? ⟨"a"⟩ (helperName "ping") =
    some (.helper kioskRequest.pass.channel "ping") := rfl
  obtain ⟨wanted, hwanted, hlaw⟩ := hsays _ _ 1 _ _ hcounted ⟨_, rfl⟩ hhelper hrun
    fun m hm _ => List.eq_of_mem_replicate (by
      rw [← hfound]
      exact List.mem_map_of_mem hm)
  have hidle : (parlourCalled pingDefaults pingFields).2.ready = [] := rfl
  have hlive : (parlourCalled pingDefaults pingFields).2.isConnected 1 = true := rfl
  rw [hwanted.2 rfl] at hlaw
  exact hlaw.sent hidle hlive

/-- A default whose name is no plain one is sent under another. -/
theorem ping_says_other_name :
    (parlour.tree (.component ⟨"a"⟩)).get? "ping" = some (.obj [("y", .int 2)]) ∧
    parlour.callable? ⟨"a"⟩ "pingEmit" = none ∧
    (parlourOpen [("a.b", .int 1)]).callable? ⟨"a"⟩ "pingEmit" =
      some (.helper kioskRequest.pass.channel "ping") ∧
    (EmitRun.Seen.of ((parlourCalled [("a.b", .int 1)] []).1.filter (·.task.id == 1))).emissions =
      [.emitted 1 "ping" (.obj [("a", .obj [("b", .int 1)]), ("y", .int 2)]) false] ∧
    Fields.overlay (Fields.overlay [("a.b", .int 1)] [("y", .int 2)]) (Fields.erase "ack" []) =
      [("a.b", Json.int 1), ("y", .int 2)] := ⟨rfl, rfl, rfl, rfl, rfl⟩

end World

end Patchbay
