import Patchbay.Proofs.Listeners.Deeds

/-!
What a worker does with one payload, step by step: its pre-hook may veto it, else it is applied, and
then the post-hook hears of it. A round is over when the worker looks for its next payload.
-/

namespace Patchbay

/-- A payload with what the pre-hook said to it; without a pre-hook nothing is said. -/
structure Round where
  payload : Json
  verdict : Option Verdict

namespace Round

def vetoed (r : Round) : Bool := r.verdict.any (·.isVeto)

/-- All that a worker does in a round. -/
def deeds (x : Worker) (r : Round) : List Deed :=
  (x.hooks.pre.toList.map (.asks · r.payload) ++ r.verdict.toList.map (.judged r.payload)) ++
    if r.vetoed then []
    else [.applies x.sink x.target r.payload, .applied r.payload] ++
      x.hooks.post.toList.flatMap fun hook => [.tells hook r.payload, .told]

/-- A worker with a pre-hook hears its verdict. -/
def Judged (x : Worker) (r : Round) : Prop := r.verdict.isSome = x.hooks.pre.isSome

/-- Only what is vetoed is not applied. -/
theorem given_deeds (x : Worker) (r : Round) :
    (r.deeds x).filterMap Deed.given? = if r.vetoed then [] else [r.payload] := by
  have hasked : (x.hooks.pre.toList.map (Deed.asks · r.payload)).filterMap Deed.given? = [] := by
    cases x.hooks.pre <;> rfl
  have hjudged : (r.verdict.toList.map (Deed.judged r.payload)).filterMap Deed.given? = [] := by
    cases r.verdict <;> rfl
  rw [deeds, List.filterMap_append, List.filterMap_append, hasked, hjudged]
  cases r.vetoed with
  | true => rfl
  | false => cases x.hooks.post <;> rfl

theorem given_row (x : Worker) (rounds : List Round) :
    (rounds.flatMap (deeds x)).filterMap Deed.given? =
      (rounds.filter fun r => !r.vetoed).map (·.payload) := by
  induction rounds with
  | nil => rfl
  | cons r rest ih =>
    rw [List.flatMap_cons, List.filterMap_append, given_deeds, ih, List.filter_cons]
    cases r.vetoed <;> rfl

end Round

/-- A called handler is about to return. -/
inductive Returns (verdict : Verdict) (after : AfterHook) : Job → Prop
  | done : Returns verdict after (.hookDone verdict after)
  | ending (hook : Hook) (reply : Reply) (h : reply.verdict = verdict) :
    Returns verdict after (.hookEnd hook reply after)

/-- A payload is on its way into its target, which may take the store any number of actions. -/
inductive Applying (i : Nat) (p : Json) : Job → Prop
  | dispatches (action : String) (payload : Json) :
      Applying i p (.dispatch action payload (.applied i p))
  | acts (action : String) (payload : Json) (plan : ActionPlan) :
    Applying i p (.actionEnd action payload plan (.applied i p))
  | returns (result : Except StoreError Json) : Applying i p (.actionDone result (.applied i p))
  | done : Applying i p (.applied i p)

section

variable (x : Worker) (i : Nat) (p : Json)

/-- The pre-hook lets the payload through, or there is none. -/
inductive Admits : List Deed → Option Verdict → Prop
  | free (hpre : x.hooks.pre = none) : Admits [] none
  | passed {hook : Hook} {verdict : Verdict} (hpre : x.hooks.pre = some hook)
    (hverdict : verdict.isVeto = false) : Admits [.asks hook p, .judged p verdict] (some verdict)

/-- How far a worker has come with a payload, by what was seen of it. -/
inductive Serves : List Deed → Job → Prop
  | asks {hook : Hook} (hpre : x.hooks.pre = some hook) : Serves [] (.hook hook p (.admitted i p))
  | asked {hook : Hook} {verdict : Verdict} {job : Job} (hpre : x.hooks.pre = some hook)
    (hjob : Returns verdict (.admitted i p) job) : Serves [.asks hook p] job
  | admitted {deeds : List Deed} {verdict : Option Verdict} (hdeeds : Admits x p deeds verdict) :
    Serves deeds (.apply i p)
  | applying {deeds : List Deed} {verdict : Option Verdict} {job : Job}
    (hdeeds : Admits x p deeds verdict) (hjob : Applying i p job) :
    Serves (deeds ++ [.applies x.sink x.target p]) job
  | tells {deeds : List Deed} {verdict : Option Verdict} {hook : Hook}
    (hdeeds : Admits x p deeds verdict) (hpost : x.hooks.post = some hook) :
    Serves (deeds ++ [.applies x.sink x.target p, .applied p]) (.hook hook p (.applied i))
  | told {deeds : List Deed} {verdict : Option Verdict} {hook : Hook} {said : Verdict} {job : Job}
    (hdeeds : Admits x p deeds verdict) (hpost : x.hooks.post = some hook)
    (hjob : Returns said (.applied i) job) :
    Serves (deeds ++ [.applies x.sink x.target p, .applied p, .tells hook p]) job

end

/-- How far a worker has come: it looks or waits for a payload, or has one in hand. -/
inductive Stage (x : Worker) (i : Nat) : List Deed → Option Json → Onward → Prop
  | looks : Stage x i [] none (.resumes (.work i))
  | waits : Stage x i [] none (.parks (.work i) [.queue i, .token x.token] none)
  | serves {p : Json} {deeds : List Deed} {job : Job} {e : Onward} (he : e.job? = some job)
    (h : Serves x i p deeds job) : Stage x i deeds (some p) e

variable {x : Worker} {i : Nat} {p : Json} {deeds : List Deed} {verdict : Option Verdict}
  {job : Job} {w : World}

/-! A round has its deeds in order -/

namespace Admits

theorem judged (h : Admits x p deeds verdict) : Round.Judged x ⟨p, verdict⟩ := by
  cases h with
  | free hpre => simp [Round.Judged, hpre]
  | passed hpre _ => simp [Round.Judged, hpre]

theorem deeds_eq (h : Admits x p deeds verdict) : Round.deeds x ⟨p, verdict⟩ =
    deeds ++ ([.applies x.sink x.target p, .applied p] ++
      x.hooks.post.toList.flatMap fun hook => [.tells hook p, .told]) := by
  cases h with
  | free hpre => simp [Round.deeds, Round.vetoed, hpre]
  | passed hpre hverdict => simp [Round.deeds, Round.vetoed, hpre, hverdict]

end Admits

/-- What a worker has done with the payload in hand begins a round. -/
theorem Serves.begins (h : Serves x i p deeds job) :
    ∃ r : Round, r.payload = p ∧ r.Judged x ∧ deeds <+: r.deeds x := by
  cases h with
  | asks hpre => exact ⟨⟨p, some (.ok .null)⟩, rfl, by simp [Round.Judged, hpre], List.nil_prefix⟩
  | @asked hook verdict job hpre hjob =>
    refine ⟨⟨p, some verdict⟩, rfl, by simp [Round.Judged, hpre], ?_⟩
    simp [Round.deeds, hpre]
  | @admitted deeds verdict hdeeds =>
    refine ⟨⟨p, verdict⟩, rfl, hdeeds.judged, ?_⟩
    rw [hdeeds.deeds_eq]
    exact List.prefix_append _ _
  | @applying deeds verdict job hdeeds hjob =>
    refine ⟨⟨p, verdict⟩, rfl, hdeeds.judged, ?_⟩
    rw [hdeeds.deeds_eq]
    simp
  | @tells deeds verdict hook hdeeds hpost =>
    refine ⟨⟨p, verdict⟩, rfl, hdeeds.judged, ?_⟩
    rw [hdeeds.deeds_eq]
    simp
  | @told deeds verdict hook said job hdeeds hpost hjob =>
    refine ⟨⟨p, verdict⟩, rfl, hdeeds.judged, ?_⟩
    rw [hdeeds.deeds_eq, hpost]
    simp

theorem Serves.worker? (h : Serves x i p deeds job) : job.worker? = some i := by
  cases h with
  | asked _ hjob => cases hjob <;> rfl
  | applying _ hjob => cases hjob <;> rfl
  | told _ _ hjob => cases hjob <;> rfl
  | _ => rfl

/-! One step of each stage -/

/-- What a step of a worker comes to: it goes on with the payload in hand, or has finished the
round. -/
inductive Works (x : Worker) (i : Nat) (p : Json) (deeds : List Deed) (w w' : World) : Prop
  | serves {mid : World} {e : Onward} {job : Job} (hmid : World.Makes Change.Basic w mid)
    (heq : mid.onward e = w') (he : e.job? = some job) (hdeaf : e.signals = [])
    (h : Serves x i p deeds job)
  | finishes {r : Round} {mid : World} (hmid : World.Makes Change.Basic w mid)
    (heq : mid.resume (.work i) = w') (hpayload : r.payload = p) (hjudged : r.Judged x)
    (hdeeds : deeds = r.deeds x)

namespace Works

theorem resumes {mid w' : World} (hmid : World.Makes Change.Basic w mid) (heq : mid.resume job = w')
    (h : Serves x i p deeds job) : Works x i p deeds w w' :=
  .serves (e := .resumes job) hmid heq rfl rfl h

/-- A hook that is called is about to return. -/
theorem starts {hook : Hook} {argument : Json} {after : AfterHook}
    (h : ∀ job, Returns (w.verdict hook argument) after job → Serves x i p deeds job) :
    Works x i p deeds w (w.startHook hook argument after) := by
  obtain ⟨mid, hmid, heq | ⟨reply, hreply, heq⟩⟩ := w.startHook_makes hook argument after
  · exact .resumes hmid heq.symm (h _ .done)
  · rw [heq, World.resumeAfter]
    split
    · exact .resumes hmid rfl (h _ (.ending hook reply hreply))
    · exact .serves (e := .parks ..) hmid rfl rfl rfl (h _ (.ending hook reply hreply))

/-- A handler's end is not seen by itself. -/
theorem ends {hook : Hook} {reply : Reply} {after : AfterHook}
    (h : Serves x i p deeds (.hookDone reply.verdict after)) :
    Works x i p deeds w (w.endHook hook reply after) := by
  obtain ⟨mid, hmid, heq⟩ := w.endHook_makes hook reply after
  exact .resumes hmid heq.symm h

end Works

variable {hook : Hook} {t : Nat}

theorem asked_works {said : Verdict} (hpre : x.hooks.pre = some hook)
    (hjob : Returns said (.admitted i p) job) :
    Works x i p ([.asks hook p] ++ (Moment.deed ⟨⟨t, job⟩, w⟩).toList) w (w.exec job) := by
  cases hjob with
  | ending hook' reply hreply =>
    subst hreply
    exact .ends (.asked hpre .done)
  | done =>
    have hdeed : Moment.deed ⟨⟨t, .hookDone said (.admitted i p)⟩, w⟩ = some (.judged p said) := rfl
    rw [hdeed]
    cases hveto : said.isVeto with
    | true =>
      refine .finishes (r := ⟨p, some said⟩) .nothing ?_ rfl (by simp [Round.Judged, hpre]) ?_
      · simp only [World.exec, World.finishHook, hveto, ↓reduceIte]
      · simp [Round.deeds, Round.vetoed, hpre, hveto]
    | false =>
      refine .resumes .nothing ?_ (.admitted (.passed hpre hveto))
      simp only [World.exec, World.finishHook, hveto]
      rfl

theorem admitted_works (hx : w.Employs i x) (hdeeds : Admits x p deeds verdict) :
    Works x i p (deeds ++ (Moment.deed ⟨⟨t, .apply i p⟩, w⟩).toList) w (w.exec (.apply i p)) := by
  obtain ⟨y, hy, heq⟩ := hx
  have hsink : y.sink = x.sink := by rw [heq]
  have htarget : y.target = x.target := by rw [heq]
  have hdeed : Moment.deed ⟨⟨t, .apply i p⟩, w⟩ = some (.applies x.sink x.target p) := by
    simp only [Moment.deed, Moment.job, hy, Option.map_some, hsink, htarget]
  have happlying {job : Job} (hjob : Applying i p job) :
      Serves x i p (deeds ++ (some (Deed.applies x.sink x.target p)).toList) job :=
    .applying hdeeds hjob
  rw [hdeed]
  simp only [World.exec, World.applyPayload, hy, hsink, htarget]
  split
  · exact .resumes (World.set_makes ..) rfl (happlying .done)
  · exact .resumes .nothing rfl (happlying (.dispatches ..))
  · split
    · rename_i hcommit
      exact .resumes (World.commit_makes hcommit) rfl (happlying .done)
    · exact .resumes (.one (.record (.warned _)) trivial) rfl (happlying .done)

theorem applying_works (hx : w.Employs i x) (hdeeds : Admits x p deeds verdict)
    (hjob : Applying i p job) :
    Works x i p (deeds ++ [.applies x.sink x.target p] ++ (Moment.deed ⟨⟨t, job⟩, w⟩).toList) w
      (w.exec job) := by
  have hgoes {job : Job} (hjob : Applying i p job) :
      Serves x i p (deeds ++ [.applies x.sink x.target p] ++ (none : Option Deed).toList) job := by
    rw [Option.toList_none, List.append_nil]
    exact .applying hdeeds hjob
  cases hjob with
  | dispatches action payload =>
    simp only [World.exec, World.startAction]
    split
    · exact .resumes .nothing rfl (hgoes (.returns _))
    · simp only [World.resumeAfter]
      split
      · exact .resumes (.one (.record (.acted _ _)) trivial) rfl (hgoes (.acts ..))
      · exact .serves (e := .parks ..) (.one (.record (.acted _ _)) trivial) rfl rfl rfl
          (hgoes (.acts ..))
  | acts action payload plan =>
    simp only [World.exec, World.endAction]
    cases plan.commit with
    | none =>
      dsimp only
      split
      · exact .resumes .nothing rfl (hgoes (.dispatches ..))
      · exact .resumes .nothing rfl (hgoes (.returns _))
      · exact .resumes .nothing rfl (hgoes (.returns _))
    | some mutation =>
      dsimp only
      split
      · exact .resumes .nothing rfl (hgoes (.returns _))
      · rename_i hcommit
        split
        · exact .resumes (World.commit_makes hcommit) rfl (hgoes (.dispatches ..))
        · exact .resumes (World.commit_makes hcommit) rfl (hgoes (.returns _))
        · exact .resumes (World.commit_makes hcommit) rfl (hgoes (.returns _))
  | returns result =>
    cases result with
    | ok v => exact .resumes .nothing rfl (hgoes .done)
    | error e => exact .resumes (.one (.record (.warned _)) trivial) rfl (hgoes .done)
  | done =>
    obtain ⟨y, hy, heq⟩ := hx
    have hhooks : y.hooks = x.hooks := by rw [heq]
    have hdeed : Moment.deed ⟨⟨t, .applied i p⟩, w⟩ = some (.applied p) := rfl
    have hsplit : deeds ++ [.applies x.sink x.target p] ++ (some (Deed.applied p)).toList =
        deeds ++ [.applies x.sink x.target p, .applied p] := by simp
    rw [hdeed, hsplit]
    simp only [World.exec, World.afterApply, hy, hhooks]
    cases hpost : x.hooks.post with
    | none =>
      refine .finishes .nothing rfl rfl hdeeds.judged ?_
      rw [hdeeds.deeds_eq, hpost]
      simp
    | some hook => exact .resumes .nothing rfl (.tells hdeeds hpost)

theorem told_works {said : Verdict} (hdeeds : Admits x p deeds verdict)
    (hpost : x.hooks.post = some hook) (hjob : Returns said (.applied i) job) :
    Works x i p (deeds ++ [.applies x.sink x.target p, .applied p, .tells hook p] ++
      (Moment.deed ⟨⟨t, job⟩, w⟩).toList) w (w.exec job) := by
  cases hjob with
  | ending hook' reply hreply =>
    subst hreply
    have hdeed : Moment.deed ⟨⟨t, .hookEnd hook' reply (.applied i)⟩, w⟩ = none := rfl
    rw [hdeed]
    exact .ends (by simpa using .told hdeeds hpost .done)
  | done =>
    have hdeed : Moment.deed ⟨⟨t, .hookDone said (.applied i)⟩, w⟩ = some .told := rfl
    rw [hdeed]
    refine .finishes .nothing rfl rfl hdeeds.judged ?_
    rw [hdeeds.deeds_eq, hpost]
    simp

/-- Every step of a worker with a payload in hand goes on with it or finishes the round. -/
theorem Serves.works (h : Serves x i p deeds job) (hx : w.Employs i x) :
    Works x i p (deeds ++ (Moment.deed? i ⟨⟨t, job⟩, w⟩).toList) w (w.exec job) := by
  have hdeed : Moment.deed? i ⟨⟨t, job⟩, w⟩ = Moment.deed ⟨⟨t, job⟩, w⟩ := if_pos h.worker?
  rw [hdeed]
  cases h with
  | asks hpre => exact .starts fun job hjob => .asked hpre hjob
  | asked hpre hjob => exact asked_works hpre hjob
  | admitted hdeeds => exact admitted_works hx hdeeds
  | applying hdeeds hjob => exact applying_works hx hdeeds hjob
  | @tells deeds verdict hook hdeeds hpost =>
    refine .starts fun job hjob => ?_
    have hdeed : Moment.deed ⟨⟨t, .hook hook p (.applied i)⟩, w⟩ = some (.tells hook p) := rfl
    rw [hdeed, Option.toList_some, List.append_assoc]
    exact .told hdeeds hpost hjob
  | told hdeeds hpost hjob => exact told_works hdeeds hpost hjob

/-- A worker that is fed and not stopped waits for a payload, or takes the one that waits
longest. -/
theorem World.work_stage {queue : List Json}
    (hx : w.workers[i]? = some { x with queue, fed := true })
    (hlive : w.isCancelled x.token = false) :
    (queue = [] ∧ w.onward (.parks (.work i) [.queue i, .token x.token] none) = w.work i) ∨
      ∃ p rest e, queue = p :: rest ∧ (w.apply (.dequeue i)).onward e = w.work i ∧ e.signals = [] ∧
        Stage x i [] (some p) e := by
  cases queue with
  | nil =>
    refine .inl ⟨rfl, ?_⟩
    simp only [work, hx, hlive]
    rfl
  | cons p rest =>
    have htake : w.workers.set i { x with queue := rest, fed := true } =
        w.workers.modify i fun y => { y with queue := y.queue.tail } :=
      set_eq_modify_of_getElem? hx rfl
    have hwork : w.work i = (w.apply (.dequeue i)).resumeHook x.hooks.pre p (.admitted i p)
        (.apply i p) := by
      simp only [work, hx, hlive, apply, ← htake]
      rfl
    refine .inr ⟨p, rest, ?_⟩
    cases hpre : x.hooks.pre with
    | none =>
      refine ⟨.resumes (.apply i p), rfl, ?_, rfl, .serves rfl (.admitted (.free hpre))⟩
      rw [hwork, hpre]
      rfl
    | some hook =>
      refine ⟨.resumes (.hook hook p (.admitted i p)), rfl, ?_, rfl, .serves rfl (.asks hpre)⟩
      rw [hwork, hpre]
      rfl

end Patchbay
