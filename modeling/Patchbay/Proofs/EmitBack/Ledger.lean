import Patchbay.Proofs.Engine.Run
import Patchbay.Proofs.Engine.Watches

/-!
The books of one emitBack. A change that was taken is a message the validator has yet to be asked
about, or one it was asked about; a message that passed is an emit that has yet to be made, or one
that was made. Every step of a task keeps both books even.
-/

namespace Patchbay

namespace EmitBack

variable (back : EmitBack)

/-- The message that a job has still to ask the validator about. -/
def unasked : Job → Option Json
  | .change b v => if b = back then some (World.changeMessage v) else none
  | .hook _ _ (.validated b msg) => if b = back then some msg else none
  | _ => none

/-- The emit that a job has still to make. -/
def unsent : Job → Option EmitRun
  | .hookEnd _ reply (.validated b msg) =>
    if b = back ∧ reply.verdict.rejects = false then some (World.emitBackRun back msg) else none
  | .hookDone verdict (.validated b msg) =>
    if b = back ∧ verdict.rejects = false then some (World.emitBackRun back msg) else none
  | .emit run (.change b) => if b = back then some run else none
  | _ => none

/-- The call of the validator: its argument and its verdict. -/
def asked (m : Moment) : Option (Json × Verdict) :=
  match m.job with
  | .hook hook argument (.validated b _) =>
    if b = back ∧ b.validator = some hook then some (argument, m.world.verdict hook argument)
    else none
  | _ => none

/-- The verdict on a message. Without a validator every message passes. -/
def judged (m : Moment) : Option (Json × Verdict) :=
  match m.job with
  | .change b v =>
    if b = back ∧ b.validator = none then some (World.changeMessage v, .ok .null) else none
  | _ => back.asked m

/-- The emit that is made. -/
def sent (m : Moment) : Option EmitRun :=
  match m.job with
  | .emit run (.change b) => if b = back then some run else none
  | _ => none

/-- The emits of the messages that passed. -/
def passed (verdicts : List (Json × Verdict)) : List EmitRun :=
  (verdicts.filter fun entry => !entry.2.rejects).map fun entry => World.emitBackRun back entry.1

theorem passed_append (first later : List (Json × Verdict)) :
    back.passed (first ++ later) = back.passed first ++ back.passed later := by
  simp [passed]

/-- What was due before a job is done or due after it. -/
structure Books (m : Moment) (next : Option Job) : Prop where
  messages : (back.unasked m.job).toList =
    (back.judged m).toList.map (·.1) ++ (next.bind back.unasked).toList
  emits : (back.unsent m.job).toList ++ back.passed (back.judged m).toList =
    (back.sent m).toList ++ (next.bind back.unsent).toList

variable {back : EmitBack}

@[simp] theorem unasked_watch (b : EmitBack) : back.unasked (.watch b) = none := rfl

@[simp] theorem unsent_watch (b : EmitBack) : back.unsent (.watch b) = none := rfl

theorem unasked_eq_none {job : Job} (h : job.back? ≠ some back) : back.unasked job = none := by
  unfold unasked
  split
  · rename_i b v
    exact if_neg fun heq => h (by rw [heq]; rfl)
  · rename_i b msg
    exact if_neg fun heq => h (by rw [heq]; rfl)
  · rfl

theorem unsent_eq_none {job : Job} (h : job.back? ≠ some back) : back.unsent job = none := by
  unfold unsent
  split
  · exact if_neg fun heq => h (by rw [heq.1]; rfl)
  · exact if_neg fun heq => h (by rw [heq.1]; rfl)
  · exact if_neg fun heq => h (by rw [heq]; rfl)
  · rfl

theorem asked_eq_none {m : Moment} (h : m.job.back? ≠ some back) : back.asked m = none := by
  unfold asked
  split
  · rename_i hjob
    exact if_neg fun heq => h (by rw [hjob, heq.1]; rfl)
  · rfl

theorem judged_eq_none {m : Moment} (h : m.job.back? ≠ some back) : back.judged m = none := by
  unfold judged
  split
  · rename_i hjob
    exact if_neg fun heq => h (by rw [hjob, heq.1]; rfl)
  · exact asked_eq_none h

theorem sent_eq_none {m : Moment} (h : m.job.back? ≠ some back) : back.sent m = none := by
  unfold sent
  split
  · rename_i hjob
    exact if_neg fun heq => h (by rw [hjob, heq]; rfl)
  · rfl

/-- A step that does not serve the emitBack leaves its books alone. -/
theorem books_of_ne {m : Moment} {next : Option Job} (h : m.job.back? ≠ some back)
    (hnext : ∀ job ∈ next, m.job.Leads job) : back.Books m next := by
  have hidle : ∀ job ∈ next, job.back? ≠ some back :=
    fun job hjob heq => h ((hnext job hjob).back back heq)
  have hunasked : next.bind back.unasked = none := by
    cases next with
    | none => rfl
    | some job => exact unasked_eq_none (hidle job rfl)
  have hunsent : next.bind back.unsent = none := by
    cases next with
    | none => rfl
    | some job => exact unsent_eq_none (hidle job rfl)
  constructor
  · rw [unasked_eq_none h, judged_eq_none h, hunasked]
    rfl
  · rw [unsent_eq_none h, judged_eq_none h, sent_eq_none h, hunsent]
    rfl

end EmitBack

/-- Who asks a validator asks the one of the emitBack, about the message that may then be sent. -/
def Job.Proper : Job → Prop
  | .hook asked argument (.validated back msg) => back.validator = some asked ∧ argument = msg
  | _ => True

theorem Job.proper_of_back? {job : Job} (h : job.back? = none) : job.Proper := by
  cases job with
  | hook hook argument after => cases after <;> first | exact trivial | cases h
  | _ => exact trivial

namespace World

/-- What a job comes to that keeps the books of all emitBacks even. -/
def Accounts (w : World) (task : Task) (w' : World) : Prop :=
  ∃ mid e, Makes Change.Foreign w mid ∧ mid.onward e = w' ∧
    (∀ job ∈ e.job?, task.job.Leads job ∧ job.Proper ∧ ∀ back, job ≠ .watch back) ∧
      ∀ back : EmitBack, back.Books ⟨task, w⟩ e.job?

/-- A step that serves an emitBack has the books of that one to keep. -/
theorem Makes.accounts {w mid : World} {task : Task} {e : Onward} {b : EmitBack}
    (h : Makes Change.Foreign w mid) (hserves : task.job.back? = some b)
    (hnext : ∀ job ∈ e.job?, task.job.Leads job ∧ job.Proper ∧ ∀ back, job ≠ .watch back)
    (hbooks : b.Books ⟨task, w⟩ e.job?) :
    Accounts w task (mid.onward e) := by
  refine ⟨mid, e, h, rfl, hnext, ?_⟩
  intro back
  by_cases hb : back = b
  · exact hb ▸ hbooks
  · refine EmitBack.books_of_ne (fun heq => hb ?_) fun job hjob => (hnext job hjob).1
    exact Option.some.inj (heq.symm.trans hserves)

theorem Makes.accounts_resume {w mid : World} {task : Task} {next : Job} {b : EmitBack}
    (h : Makes Change.Foreign w mid) (hserves : task.job.back? = some b)
    (hleads : task.job.Leads next) (hproper : next.Proper) (hloop : next.isLoop = false)
    (hbooks : b.Books ⟨task, w⟩ (some next)) : Accounts w task (mid.resume next) := by
  refine h.accounts (e := .resumes next) hserves ?_ hbooks
  intro job hjob
  obtain rfl := Option.some.inj hjob
  refine ⟨hleads, hproper, ?_⟩
  rintro back rfl
  cases hloop

theorem startChange_accounts (w : World) (id : Nat) (b : EmitBack) (v : Json) :
    Accounts w ⟨id, .change b v⟩ (w.startChange b v) := by
  unfold startChange
  cases hvalidator : b.validator with
  | none =>
    refine Makes.nothing.accounts_resume rfl (.of_eq rfl rfl rfl (.silent rfl) rfl) trivial rfl ?_
    constructor <;> simp [EmitBack.unasked, EmitBack.judged, EmitBack.unsent, EmitBack.sent,
      EmitBack.passed, Moment.job, hvalidator, Verdict.rejects]
  | some hook =>
    refine Makes.nothing.accounts_resume rfl
      (.of_eq rfl rfl rfl (.silent rfl) rfl) ⟨hvalidator, rfl⟩ rfl ?_
    constructor <;> simp [EmitBack.unasked, EmitBack.judged, EmitBack.unsent, EmitBack.sent,
      EmitBack.passed, Moment.job, hvalidator]

theorem startHook_accounts (w : World) (id : Nat) {hook : Hook} {msg : Json} {b : EmitBack}
    (hvalidator : b.validator = some hook) :
    Accounts w ⟨id, .hook hook msg (.validated b msg)⟩
      (w.startHook hook msg (.validated b msg)) := by
  have hbooks {next : Job} (hunasked : b.unasked next = none) (hunsent : b.unsent next =
      if (w.verdict hook msg).rejects = false then some (emitBackRun b msg) else none) :
      b.Books ⟨⟨id, .hook hook msg (.validated b msg)⟩, w⟩ (some next) := by
    constructor
    · rw [Option.bind_some, hunasked]
      simp [EmitBack.unasked, EmitBack.judged, EmitBack.asked, Moment.job, hvalidator]
    · rw [Option.bind_some, hunsent]
      cases hrejects : (w.verdict hook msg).rejects <;>
        simp [EmitBack.unsent, EmitBack.judged, EmitBack.asked, EmitBack.sent, EmitBack.passed,
          Moment.job, hvalidator, hrejects]
  obtain ⟨mid, hmid, heq | ⟨reply, hreply, heq⟩⟩ := startHook_makes w hook msg (.validated b msg)
  · rw [heq]
    refine (hmid.mono fun _ hc => hc.foreign).accounts_resume rfl
      (.of_eq rfl rfl rfl (.silent rfl) rfl) trivial rfl (hbooks rfl ?_)
    simp [EmitBack.unsent]
  · rw [heq]
    unfold resumeAfter
    have hbooks : b.Books _ (some (.hookEnd hook reply (.validated b msg))) :=
      hbooks rfl (by simp [EmitBack.unsent, hreply])
    split
    · exact (hmid.mono fun _ hc => hc.foreign).accounts_resume rfl
        (.of_eq rfl rfl rfl (.silent rfl) rfl) trivial rfl hbooks
    · refine Makes.accounts (e := .parks _ [] _) (hmid.mono fun _ hc => hc.foreign) rfl ?_ hbooks
      intro job hjob
      obtain rfl := Option.some.inj hjob
      exact ⟨.of_eq rfl rfl rfl (.silent rfl) rfl, trivial, fun back h => by cases h⟩

theorem endHook_accounts (w : World) (id : Nat) (hook : Hook) (reply : Reply) (b : EmitBack)
    (msg : Json) :
    Accounts w ⟨id, .hookEnd hook reply (.validated b msg)⟩
      (w.endHook hook reply (.validated b msg)) := by
  obtain ⟨mid, hmid, heq⟩ := endHook_makes w hook reply (.validated b msg)
  rw [heq]
  refine (hmid.mono fun _ hc => hc.foreign).accounts_resume rfl
    (.of_eq rfl rfl rfl (.silent rfl) rfl) trivial rfl ?_
  constructor <;> simp [EmitBack.unasked, EmitBack.judged, EmitBack.asked, EmitBack.unsent,
    EmitBack.sent, EmitBack.passed, Moment.job]

theorem finishHook_accounts (w : World) (id : Nat) (verdict : Verdict) (b : EmitBack) (msg : Json) :
    Accounts w ⟨id, .hookDone verdict (.validated b msg)⟩
      (w.finishHook verdict (.validated b msg)) := by
  cases hrejects : verdict.rejects with
  | true =>
    simp only [finishHook, hrejects, ↓reduceIte]
    refine Makes.accounts (e := .ended) .nothing rfl (by simp [Onward.job?]) ?_
    constructor <;> simp [EmitBack.unasked, EmitBack.judged, EmitBack.asked, EmitBack.unsent,
      EmitBack.sent, EmitBack.passed, Moment.job, Onward.job?, hrejects]
  | false =>
    have hbooks : b.Books ⟨⟨id, .hookDone verdict (.validated b msg)⟩, w⟩
        (some (.emit (emitBackRun b msg) (.change b))) := by
      constructor <;> simp [EmitBack.unasked, EmitBack.judged, EmitBack.asked, EmitBack.unsent,
        EmitBack.sent, EmitBack.passed, Moment.job, hrejects]
    simp only [finishHook, hrejects]
    cases verdict with
    | error text =>
      exact Makes.accounts_resume (.one (.record _) trivial) rfl
        (.of_eq rfl rfl rfl (.silent rfl) rfl) trivial rfl hbooks
    | ok v =>
      exact Makes.nothing.accounts_resume rfl
        (.of_eq rfl rfl rfl (.silent rfl) rfl) trivial rfl hbooks

theorem startEmit_accounts (w : World) (id : Nat) (run : EmitRun) (b : EmitBack) :
    Accounts w ⟨id, .emit run (.change b)⟩ (w.exec (.emit run (.change b))) := by
  have hbooks {next : Job} (hnext : next.back? = none) :
      b.Books ⟨⟨id, .emit run (.change b)⟩, w⟩ (some next) := by
    have hne : next.back? ≠ some b := by simp [hnext]
    constructor
    · rw [Option.bind_some, EmitBack.unasked_eq_none hne]
      simp [EmitBack.unasked, EmitBack.judged, EmitBack.asked, Moment.job]
    · rw [Option.bind_some, EmitBack.unsent_eq_none hne]
      simp [EmitBack.unsent, EmitBack.judged, EmitBack.asked, EmitBack.sent, EmitBack.passed,
        Moment.job]
  simp only [exec]
  cases run.hooks.pre with
  | none =>
    exact Makes.nothing.accounts_resume rfl (.along rfl rfl (.silent rfl) rfl) trivial rfl
      (hbooks rfl)
  | some hook =>
    exact Makes.nothing.accounts_resume rfl (.along rfl rfl (.silent rfl) rfl) trivial rfl
      (hbooks rfl)

/-- A job but the loop of an emitBack makes changes outside of it, and keeps all books even. -/
theorem exec_accounts {w : World} {task : Task} (hproper : task.job.Proper)
    (hloop : ∀ back, task.job ≠ .watch back) : Accounts w task (w.exec task.job) := by
  obtain ⟨id, job⟩ := task
  have hidle (hback : job.back? = none) : Accounts w ⟨id, job⟩ (w.exec job) := by
    obtain ⟨mid, e, hmid, hleads, heq⟩ := exec_does w job
    refine ⟨mid, e, hmid.mono fun c hc => hc.foreign hloop, heq, ?_, ?_⟩
    · intro next hnext
      have hidle : next.back? = none := by
        cases h : next.back? with
        | none => rfl
        | some b => exact absurd ((hleads next hnext).back b h) (by simp [hback])
      exact ⟨hleads next hnext, Job.proper_of_back? hidle,
        fun b hb => by simp [hb, Job.back?] at hidle⟩
    · intro back
      exact EmitBack.books_of_ne (by simp [Moment.job, hback]) hleads
  cases job with
  | watch b => exact absurd rfl (hloop b)
  | change b v => exact startChange_accounts ..
  | hook hook argument after =>
    cases after with
    | validated b msg =>
      obtain ⟨hvalidator, rfl⟩ := hproper
      exact startHook_accounts w id hvalidator
    | _ => exact hidle rfl
  | hookEnd hook reply after =>
    cases after with
    | validated b msg => exact endHook_accounts ..
    | _ => exact hidle rfl
  | hookDone verdict after =>
    cases after with
    | validated b msg => exact finishHook_accounts ..
    | _ => exact hidle rfl
  | emit run after =>
    cases after with
    | change b => exact startEmit_accounts ..
    | _ => exact hidle rfl
  | _ => exact hidle rfl

end World

end Patchbay
