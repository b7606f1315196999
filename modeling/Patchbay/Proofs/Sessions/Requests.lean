import Patchbay.Proofs.Engine.Attaching
import Patchbay.Proofs.Sessions.Kept

/-!
A connect request up to its first end. It gets a connection or fails; it wires what it gets; and
then it has failed, has become a session, or asks for the peer's API.
-/

namespace Patchbay

/-- The scopes that a pass registers in. -/
def Pass.Claims (p : Pass) (scope : Scope) : Prop :=
  scope = p.componentScope ∨ ∃ area, scope = p.storeScope area

theorem Change.Basic.acquires {c : Change} (h : c.Basic) : c.Acquires := h.mono rfl

theorem Change.Basic.evicts {c : Change} (h : c.Basic) : c.Evicts := h.mono rfl

theorem Change.Evicts.acquires {c : Change} (h : c.Evicts) : c.Acquires := h.mono rfl

namespace World

variable {w acquired : World} {opts : ConnectOptions} {r : Resolved} {serial : Nat} {reused : Bool}

/-! Warnings -/

theorem foldl_warn_eq (w : World) (warnings : List Warning) :
    warnings.foldl warn w = { w with trace := w.trace ++ warnings.map .warned } := by
  induction warnings generalizing w with
  | nil => simp
  | cons warning rest ih => simp [ih, warn, record]

/-- Warnings have no say in what a request gets. -/
theorem acquire_foldl_warn (w : World) (warnings : List Warning) (r : Resolved) :
    ((warnings.foldl warn w).acquire r).1 = (w.acquire r).1 ∧
      ((warnings.foldl warn w).acquire r).2.registry = (w.acquire r).2.registry ∧
      ((warnings.foldl warn w).acquire r).2.tokens = w.tokens := by
  have hopen (w w' : World) (hconnections : w'.connections = w.connections)
      (hregistry : w'.registry = w.registry) (htokens : w'.tokens = w.tokens) :
      (w'.openFor r).1 = (w.openFor r).1 ∧ (w'.openFor r).2.registry = (w.openFor r).2.registry ∧
        (w'.openFor r).2.tokens = w.tokens := by
    cases hurl : r.url.isEmpty with
    | true =>
      rw [openFor_refused w' hurl, openFor_refused w hurl]
      exact ⟨rfl, hregistry, htokens⟩
    | false =>
      obtain ⟨hresult, hworld⟩ := openFor_opened w hurl
      obtain ⟨hresult', hworld'⟩ := openFor_opened w' hurl
      rw [hresult, hresult', hworld, hworld', hconnections]
      cases r.slot? <;> exact ⟨rfl, hregistry, htokens⟩
  have hsame (trace : List Event) (n : Nat) :
      ({ w with trace } : World).isConnected n = w.isConnected n := rfl
  simp only [foldl_warn_eq, acquire_eq, hsame]
  split
  · exact hopen _ _ rfl rfl rfl
  · split
    · exact ⟨rfl, rfl, rfl⟩
    · exact hopen _ _ rfl rfl rfl

/-- A request warns and gets its connection, or is refused one. -/
theorem acquired_makes {warnings : List Warning} {result : Except TransportError (Nat × Bool)}
    (h : (warnings.foldl warn w).acquire r = (result, acquired)) :
    Makes Change.Acquires w acquired := by
  have hgot := acquire_makes (warnings.foldl warn w) r
  rw [h] at hgot
  exact ((foldl_warn_makes ..).mono fun _ hc => hc.acquires).trans hgot

/-- So a request gets with its warnings what it gets without them. -/
theorem acquired_of_acquire (warnings : List Warning) (h : (w.acquire r).1 = .ok (serial, reused)) :
    ∃ acquired, (warnings.foldl warn w).acquire r = (.ok (serial, reused), acquired) ∧
      acquired.registry = (w.acquire r).2.registry ∧ acquired.tokens = w.tokens ∧
      Makes Change.Acquires w acquired := by
  obtain ⟨hresult, hregistry, htokens⟩ := acquire_foldl_warn w warnings r
  exact ⟨_, Prod.ext (hresult.trans h) rfl, hregistry, htokens, acquired_makes (r := r) rfl⟩

/-- A request that is refused a connection has cleared its slot at most. -/
theorem acquire_refused {error : TransportError} (h : w.acquire r = (.error error, acquired)) :
    Makes Change.Evicts w acquired := by
  rcases acquire_cases w r with ⟨_, _, -, -, -, heq⟩ | ⟨start, hstart, -, heq⟩
  · rw [h] at heq
    cases heq
  · rw [h] at heq
    rcases openFor_cases start r with ⟨hurl, -⟩ | ⟨-, hok, -⟩
    · rw [openFor_refused start hurl] at heq
      obtain ⟨-, rfl⟩ := Prod.mk.inj heq
      exact .more (.record _) hstart trivial
    · rw [← heq] at hok
      cases hok

/-- It reports that and is over. -/
theorem startConnect_of_refused {error : TransportError}
    (hresolved : (Resolved.ofRequest w.settings w.runtimeSockets opts).1 = .ok r)
    (hacquired : ((Resolved.ofRequest w.settings w.runtimeSockets opts).2.foldl warn w).acquire r =
      (.error error, acquired)) (ticket : Nat) (name : String) (owner : ComponentId) :
    Makes Change.Evicts w (w.startConnect ticket name owner opts) := by
  have hwarned := (foldl_warn_makes w
    (Resolved.ofRequest w.settings w.runtimeSockets opts).2).mono fun _ hc => hc.evicts
  rw [startConnect_of_refusal hresolved hacquired]
  exact .more (.report _ _) (hwarned.trans (acquire_refused hacquired)) trivial

/-! Wiring -/

/-- A request that got a connection wires it until a source is missing, and goes on when none is. -/
theorem startConnect_attaches
    (hresolved : (Resolved.ofRequest w.settings w.runtimeSockets opts).1 = .ok r)
    (hacquired : ((Resolved.ofRequest w.settings w.runtimeSockets opts).2.foldl warn w).acquire r =
      (.ok (serial, reused), acquired)) (ticket : Nat) (name : String) (owner : ComponentId) :
    ∃ c mid, c.pass = ⟨⟨serial, r.scope, r.emitTimeout⟩, owner, acquired.tokens, r.warnings⟩ ∧
      c.resolved = r ∧ c.reused = reused ∧
      Attaches c.pass c.pass.Claims [] (acquired.enter r) c.wired.items mid ∧
      ((∃ error, w.startConnect ticket name owner opts = mid.failConnect c error) ∨
        w.startConnect ticket name owner opts = mid.askOrFinish c) := by
  rw [startConnect_of_acquired hresolved hacquired]
  let p : Pass := ⟨⟨serial, r.scope, r.emitTimeout⟩, owner, acquired.tokens, r.warnings⟩
  have hstatus : Attaches p p.Claims [] (acquired.enter r) _ _ :=
    .wireStatus ((acquired_opened hacquired).makes (enter_makes ..)) r.statusKey r.url
  obtain ⟨wired, mid, hattaches, hends⟩ :=
    Attaches.connectNamespace (c := ⟨ticket, name, r, p, reused, _⟩) hstatus (.inl rfl)
      fun area => .inr ⟨area, rfl⟩
  exact ⟨⟨ticket, name, r, p, reused, wired⟩, mid, rfl, rfl, rfl, hattaches, hends⟩

theorem Does.tokens {P : Change → Prop} {Q : Job → Prop} {w w' : World} (h : Does P Q w w') :
    w.tokens ≤ w'.tokens := by
  obtain ⟨mid, e, hmid, -, rfl⟩ := h
  cases e <;> exact hmid.tokens

/-- A request that got a connection has spent a token when its first job is done. -/
theorem startConnect_tokens
    (hresolved : (Resolved.ofRequest w.settings w.runtimeSockets opts).1 = .ok r)
    (hacquire : (w.acquire r).1 = .ok (serial, reused)) (ticket : Nat) (name : String)
    (owner : ComponentId) : w.tokens < (w.startConnect ticket name owner opts).tokens := by
  obtain ⟨acquired, hacquired, -, htokens, -⟩ := acquired_of_acquire _ hacquire
  obtain ⟨c, mid, -, -, -, hattaches, hends⟩ :=
    startConnect_attaches hresolved hacquired ticket name owner
  have hgiven : acquired.tokens < mid.tokens := hattaches.makes.tokens
  rw [htokens] at hgiven
  rcases hends with ⟨error, heq⟩ | heq
  · rw [heq]
    exact Nat.lt_of_lt_of_le hgiven (failConnect_makes ..).tokens
  · rw [heq]
    exact Nat.lt_of_lt_of_le hgiven (askOrFinish_does ..).tokens

/-- A connection that is opened for a request was not there before. -/
theorem not_opened_of_acquired {warnings : List Warning}
    (h : (warnings.foldl warn w).acquire r = (.ok (serial, false), acquired)) :
    ¬ w.Opened serial := by
  rintro ⟨c, hc⟩
  have hwarned : (warnings.foldl warn w).connections = w.connections := by rw [foldl_warn_eq]
  rcases acquire_ok (congrArg Prod.fst h) with ⟨hreused, -⟩ | ⟨-, rfl, -⟩
  · cases hreused
  · rw [hwarned] at hc
    simp [connection?] at hc

/-- A request gets no connection, or wires the one that it gets. -/
theorem startConnect_cases (w : World) (ticket : Nat) (name : String) (owner : ComponentId)
    (opts : ConnectOptions) :
    Makes Change.Evicts w (w.startConnect ticket name owner opts) ∨
      ∃ acquired r c mid, Makes Change.Acquires w acquired ∧
        acquired.Opened c.pass.channel.connection ∧ c.pass.token = acquired.tokens ∧
        (c.reused = false → ¬ w.Opened c.pass.channel.connection) ∧
        Attaches c.pass c.pass.Claims [] (acquired.enter r) c.wired.items mid ∧
        ((∃ error, w.startConnect ticket name owner opts = mid.failConnect c error) ∨
          w.startConnect ticket name owner opts = mid.askOrFinish c) := by
  cases hresolved : (Resolved.ofRequest w.settings w.runtimeSockets opts).1 with
  | error error =>
    exact .inl ((startConnect_of_error hresolved ticket name owner).mono fun _ hc => hc.evicts)
  | ok r =>
    cases hacquired : ((Resolved.ofRequest w.settings w.runtimeSockets opts).2.foldl warn
      w).acquire r with | mk result acquired
    have hmakes := acquired_makes hacquired
    cases result with
    | error error => exact .inl (startConnect_of_refused hresolved hacquired ticket name owner)
    | ok got =>
      obtain ⟨serial, reused⟩ := got
      obtain ⟨c, mid, hpass, -, hreused, hattaches, hends⟩ :=
        startConnect_attaches hresolved hacquired ticket name owner
      refine .inr ⟨acquired, r, c, mid, hmakes, ?_, ?_, ?_, hattaches, hends⟩
      · rw [hpass]
        exact acquired_opened hacquired
      · rw [hpass]
      · intro hfresh
        rw [← hreused, hfresh] at hacquired
        rw [hpass]
        exact not_opened_of_acquired hacquired

end World

end Patchbay
