import Mathlib.Data.List.Basic
import Patchbay.Proofs.Answers.Cells
import Patchbay.Proofs.Descriptor
import Patchbay.Proofs.Negotiation.Callables
import Patchbay.Proofs.Negotiation.ServerApi

/-!
A component's own API on its way to the peer. One listener answers discovery with the written
descriptor; who gets that answer finds no error in it, and goes on with the descriptor that was
published.
-/

namespace Patchbay

namespace World

variable {p : Pass} {w w' w'' : World} {d : Descriptor}

/-! ### What is listened to -/

/-- These listeners came, each with its registration for the component, and no others. -/
structure Offers (p : Pass) (new : List (String × Reaction)) (w w' : World) : Prop where
  registry : w'.registry.log = w.registry.log ++
    new.map fun offer => ⟨p.componentScope, .bareListener offer.1, p.id⟩
  heard : ∃ listeners : List (Listener Reaction),
    w'.listenersOn p.channel.connection = w.listenersOn p.channel.connection ++ listeners ∧
      listeners.map (fun l => (l.event, l.action, l.once)) = new.map fun offer =>
        (offer.1, offer.2, false)
  unheard : ∀ n ≠ p.channel.connection, w'.listenersOn n = w.listenersOn n

namespace Offers

variable {new more : List (String × Reaction)}

theorem of_quiet (h : Makes Change.Quiet w w') : Offers p [] w w' where
  registry := by simp [h.registry_of_quiet]
  heard := ⟨[], by simp [h.listenersOn fun _ hch => hch.not_tunes], rfl⟩
  unheard n _ := h.listenersOn (fun _ hch => hch.not_tunes) n

theorem trans (h : Offers p new w w') (h' : Offers p more w' w'') :
    Offers p (new ++ more) w w'' where
  registry := by simp [h'.registry, h.registry]
  heard := by
    obtain ⟨listeners, hlisteners, hnew⟩ := h.heard
    obtain ⟨others, hothers, hmore⟩ := h'.heard
    exact ⟨listeners ++ others, by rw [hothers, hlisteners, List.append_assoc],
      by simp [hnew, hmore]⟩
  unheard n hn := (h'.unheard n hn).trans (h.unheard n hn)

theorem of_claim {name : String} (hopened : w.Opened p.channel.connection)
    (hclaim : w.claim p p.componentScope (.bareListener name) = (w', true)) (action : Reaction) :
    Offers p [(name, action)] w (w'.listen p.channel.connection name action).1 := by
  have hregistry := (claim_granted hclaim).2
  have hclaimed : w' = w.apply (.register p.componentScope (.bareListener name) p.id) :=
    claim_eq hclaim
  have hheard (n : Nat) : w'.listenersOn n = w.listenersOn n := by
    rw [hclaimed]
    exact listenersOn_apply id n
  obtain ⟨c, hc⟩ : w'.Opened p.channel.connection := hclaimed ▸ hopened.apply _
  have hlisten := listenersOn_listen hc name action false
  rw [listen_eq]
  exact {
    registry := hregistry
    heard := by
      rw [hlisten, if_pos rfl, hheard]
      exact ⟨_, rfl, rfl⟩
    unheard := fun n hn => by rw [hlisten, if_neg hn, List.append_nil, hheard] }

/-- What is claimed afterwards. -/
theorem contains (h : Offers p new w w') (name : String) :
    w'.registry.contains p.componentScope .listener name =
      (w.registry.contains p.componentScope .listener name ||
        (new.map Prod.fst).contains name) := by
  have hnew :
      (new.map fun offer => (⟨p.componentScope, .bareListener offer.1, p.id⟩ : Registration)).any
      (fun r => decide (Registry.Holds p.componentScope .listener name r)) =
        (new.map Prod.fst).contains name := by
    rw [List.contains_eq_any_beq, List.any_map, List.any_map]
    refine congrArg new.any (funext fun offer => ?_)
    simp [Registry.Holds, Binding.bareListener, eq_comm, Bool.beq_eq_decide_eq]
  simp only [Registry.contains_eq_any, h.registry, List.any_append, hnew]

end Offers

/-- The methods that are served: they have a handler and are not claimed. -/
def served (w : World) (p : Pass) (names : List String) : List (String × Reaction) :=
  names.filterMap fun name =>
    if w.registry.contains p.componentScope .listener name then none
    else (w.handler? p.owner name).map fun hook => (name, .serve hook p.token)

theorem served_cons (w : World) (p : Pass) (name : String) (rest : List String) :
    w.served p (name :: rest) = w.served p [name] ++ w.served p rest := by
  rw [← List.singleton_append, served, List.filterMap_append]
  rfl

theorem mem_of_served {names : List String} {offer : String × Reaction}
    (h : offer ∈ w.served p names) :
    offer.1 ∈ names := by
  obtain ⟨name, hname, hserved⟩ := List.mem_filterMap.1 h
  split at hserved
  · cases hserved
  · obtain ⟨hook, -, rfl⟩ := Option.map_eq_some_iff.1 hserved
    exact hname

theorem bindMethod_offers (acc : World × Wired) (hopened : acc.1.Opened p.channel.connection)
    (name : String) :
    Offers p (acc.1.served p [name]) acc.1 (bindMethod p acc name).1 := by
  cases hhandler : acc.1.handler? p.owner name with
  | none =>
    have hnone : acc.1.served p [name] = [] := by simp [served, hhandler]
    simp only [bindMethod, hhandler, hnone]
    exact .of_quiet (warnIf_quiet ..)
  | some hook =>
    rcases hclaim : acc.1.claim p p.componentScope (.bareListener name) with ⟨claimed, _ | _⟩
    · have htaken : acc.1.registry.contains p.componentScope .listener name = true :=
        (claim_refused hclaim).2
      obtain rfl := (claim_refused hclaim).1
      have hnone : acc.1.served p [name] = [] := by simp [served, htaken]
      simp only [bindMethod, hhandler, hclaim, hnone]
      exact .of_quiet .nothing
    · have hfree : acc.1.registry.contains p.componentScope .listener name = false :=
        (claim_granted hclaim).1
      have hone : acc.1.served p [name] = [(name, .serve hook p.token)] := by
        simp [served, hfree, hhandler]
      simp only [bindMethod, hhandler, hclaim, hone]
      exact .of_claim hopened hclaim _

theorem bindMethods_offers {names : List String} (hnames : names.Nodup) (acc : World × Wired)
    (hopened : acc.1.Opened p.channel.connection) :
    Offers p (acc.1.served p names) acc.1 (names.foldl (bindMethod p) acc).1 := by
  induction names generalizing acc with
  | nil => exact .of_quiet .nothing
  | cons name rest ih =>
    obtain ⟨hname, hrest⟩ := List.nodup_cons.1 hnames
    have hfirst := bindMethod_offers (p := p) acc hopened name
    have hmakes := bindMethod_makes p acc name
    -- The names differ, so to serve one method claims none of the others.
    have hleft : (bindMethod p acc name).1.served p rest = acc.1.served p rest := by
      refine List.filterMap_congr fun other hother => ?_
      have hnone : ((acc.1.served p [name]).map Prod.fst).contains other = false := by
        simp only [List.contains_eq_mem, decide_eq_false_iff_not, List.mem_map, not_exists, not_and]
        intro offer hoffer heq
        obtain rfl := List.mem_singleton.1 (mem_of_served hoffer)
        exact hname (heq ▸ hother)
      rw [hfirst.contains, hnone, Bool.or_false, hmakes.handler?_eq]
    have hmore := ih hrest (bindMethod p acc name) (hopened.makes hmakes)
    rw [hleft] at hmore
    rw [served_cons]
    exact hfirst.trans hmore

theorem publish_offers (hopened : w.Opened p.channel.connection) (d : Descriptor) (event : String)
    (wired : Wired) :
    Offers p (if w.registry.contains p.componentScope .listener event then []
      else [(event, .publish (write d))]) w (w.publish p d event wired).1 := by
  rcases hclaim : w.claim p p.componentScope (.bareListener event) with ⟨claimed, _ | _⟩
  · have htaken : w.registry.contains p.componentScope .listener event = true :=
      (claim_refused hclaim).2
    obtain rfl := (claim_refused hclaim).1
    simp only [publish, hclaim, htaken]
    exact .of_quiet .nothing
  · have hfree : w.registry.contains p.componentScope .listener event = false :=
      (claim_granted hclaim).1
    simp only [publish, hclaim, hfree]
    exact .of_claim hopened hclaim _

/-- What comes of a component's own API: its methods are served, and one listener answers
discovery with the descriptor, unless that event is claimed already or a method that is served has
its name. -/
def offers (w : World) (p : Pass) (d : Descriptor) (event : String) : List (String × Reaction) :=
  if d.isEmpty then []
  else
    let methods := w.served p d.methods.keys
    methods ++ if w.registry.contains p.componentScope .listener event ||
      (methods.map Prod.fst).contains event then [] else [(event, .publish (write d))]

theorem bindClientApi_offers (hopened : w.Opened p.channel.connection) (d : Descriptor)
    (event : String)
    (wired : Wired) : Offers p (w.offers p d event) w (w.bindClientApi p d event wired).1 := by
  cases hempty : d.isEmpty with
  | true =>
    rw [bindClientApi_of_isEmpty hempty, offers, if_pos hempty]
    exact .of_quiet .nothing
  | false =>
    let bound := d.methods.keys.foldl (bindMethod p) (w, wired)
    let filled := d.events.keys.foldl (bindHelper p d) bound.1
    have hmethods : Offers p (w.served p d.methods.keys) w bound.1 :=
      bindMethods_offers d.methods.sorted.nodup_keys (w, wired) hopened
    have hquiet : Makes Change.Quiet bound.1 filled :=
      Makes.foldl (bindHelper_quiet p d) d.events.keys bound.1
    have hbound : bound.1.Opened p.channel.connection :=
      Opened.makes (w := w) hopened (foldl_fst_makes (bindMethod_makes p) d.methods.keys (w, wired))
    have hpublished := publish_offers (hbound.makes hquiet) d event bound.2
    rw [hquiet.registry_of_quiet, hmethods.contains] at hpublished
    have hoffers : w.offers p d event = w.served p d.methods.keys ++
        if w.registry.contains p.componentScope .listener event ||
          ((w.served p d.methods.keys).map Prod.fst).contains event then []
        else [(event, .publish (write d))] := by
      simp only [offers, hempty]
      rfl
    have hall := ((hmethods.trans (.of_quiet hquiet)).trans hpublished).trans
      (.of_quiet (.one (.setClientApi p.channel.scope d) trivial))
    rw [bindClientApi_eq hempty]
    rwa [List.append_nil, List.append_nil, ← hoffers] at hall

/-! ### What is received -/

variable {t : Nat} {cell : CellId} {due : Option Nat} {c : Connecting} {discovery : Discovery}
  {rest : List Task} {answer : Json}

/-- Who asked a listener for the published descriptor has it in the cell. -/
theorem cell_react_publish (hempty : w.cell cell = .empty) (answer payload : Json) :
    (w.react (.publish answer) payload (some cell)).cell cell = .answered answer := by
  have hcells : (w.answer cell answer).cells = filled w.cells cell (.answered answer) :=
    (apply_woken w (.answer cell answer)).cells
  rw [react, answerIf, World.cell, hcells]
  exact getD_filled_self hempty

/-- A good answer to discovery gets to its request as it is. -/
theorem discovered_of_answer
    (hready : w.ready = ⟨t, .await cell due (discoveryRun c.pass discovery) (.discovery c)⟩ :: rest)
    (hcell : w.cell cell = .answered answer) (hgood : Ack.isError answer = false) :
    (w.steps 3).2 = { w with ready := rest, running := t }.discovered c answer := by
  have hfound (run : EmitRun) :
      { w with ready := rest, running := t }.awaitAnswer cell due run (.discovery c) =
      { w with ready := ⟨t, .settle (.ok answer) run (.discovery c)⟩ :: rest, running := t } := by
    have hheld : { w with ready := rest, running := t }.cell cell = .answered answer := hcell
    simp only [awaitAnswer, hheld, Ack.settle_of_not_isError hgood]
    rfl
  simp only [steps, hready, begin, exec, hfound]
  rfl

/-- How a descriptor gets from the component that publishes it to the request that asks for it. -/
structure Conveyed (d : Descriptor) : Prop where
  published : ∀ (w : World) (p : Pass) (event : String) (wired : Wired),
    w.Opened p.channel.connection → Offers p (w.offers p d event) w
      (w.bindClientApi p d event wired).1
  answered : ∀ (w : World) (cell : CellId) (payload : Json), w.cell cell = .empty →
    (w.react (.publish (write d)) payload (some cell)).cell cell = .answered (write d)
  /-- The answer is no error. -/
  good : ∀ event msg now, Ack.settle event msg (write d) now = .ok (write d)
  read : read? (write d) = some d
  received : ∀ (w : World) (t : Nat) (cell : CellId) (due : Option Nat) (c : Connecting)
    (discovery : Discovery) (rest : List Task),
      w.ready = ⟨t, .await cell due (discoveryRun c.pass discovery) (.discovery c)⟩ :: rest →
      w.cell cell = .answered (write d) →
      ∃ (w' : World) (wired : Wired), (w.steps 3).2 =
        w'.finishConnect { c with wired } (some ⟨c.pass.channel, c.pass.owner, d⟩)

/-- A descriptor is received as it was published. Whatever it was read from, the answer that its
listener gives is no error, and who asked for the API goes on with that same descriptor. -/
theorem published_api_received {v : Json} (hread : read? v = some d) : Conveyed d where
  published _ p event wired hopened := bindClientApi_offers hopened d event wired
  answered _ _ payload hempty := cell_react_publish hempty (write d) payload
  good event msg now := Ack.settle_of_not_isError d.isError_write event msg now
  read := Descriptor.read?_write hread
  received w t cell due c discovery rest hready hcell := by
    rw [discovered_of_answer hready hcell d.isError_write]
    simp only [discovered, Descriptor.read?_write hread]
    exact ⟨_, _, rfl⟩

/-- A descriptor by position, with nulls and with members that mean nothing. -/
def kioskListing : Json := .arr
  [.null, .int 2,
    .obj [("news", .arr [.null, .arr [.str "list"]]), ("tick", .obj [("data", .null)])],
    .obj [("list", .obj [("msg", .null), ("resp", .arr []), ("since", .int 1)])]]

theorem kiosk_listing_received : ∃ d, read? kioskListing = some d ∧ Conveyed d ∧
    write d = .obj
      [("evts", .obj [("news", .obj [("methods", .arr [.str "list"])]), ("tick", .obj [])]),
      ("methods", .obj [("list", .obj [("resp", .arr [])])]), ("version", .int 2)] := by
  have hread : read? kioskListing = some ((read? kioskListing).getD default : Descriptor) := rfl
  exact ⟨_, hread, published_api_received hread, rfl⟩

end World

end Patchbay
