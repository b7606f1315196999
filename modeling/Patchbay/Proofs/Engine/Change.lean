import Patchbay.Engine.Command

/-!
The primitive changes of a world as data. Whatever a task, a command or a peer does to a world
is a list of them, so a law that every primitive change keeps is a law of the engine.
-/

namespace Patchbay

/-- One primitive change. -/
inductive Change where
  | record (event : Event)
  | report (ticket : Nat) (outcome : Outcome)
  | spawn (job : Job)
  | signal (s : Signal)
  | newCell
  | answer (id : CellId) (v : Json)
  | abandon (id : CellId)
  | newToken
  | cancel (t : Token)
  | set (place : Place) (path : String) (v : Json)
  /-- A write that leaves the tree as it is. -/
  | touch (place : Place)
  /-- Starts an emitBack: its watch, its own token and its task. -/
  | attachBack (back : EmitBack) (path : String)
  | poll (place : Place) (id : Nat)
  | unwatch (place : Place) (id : Nat)
  | countCall (hook : Hook)
  | insertCallable (owner : ComponentId) (name : String) (c : Callable)
  | dial (url namespaceName : String)
  | listen (serial : Nat) (event : String) (action : Reaction) (once : Bool)
  /-- Takes listeners off a connection; the workers that fed on them get no more. -/
  | hush (serial : Nat) (out : Listener Reaction → Bool)
  /-- A delivery takes off the listeners that were to hear the event once. -/
  | spend (serial : Nat) (event : String)
  | expect (serial : Nat) (cell : CellId)
  /-- Hands an answer to the emit that waits for it under its number. -/
  | settle (serial key : Nat) (v : Json)
  /-- Closes a connection and fails what waits on it. -/
  | shut (serial : Nat)
  | countServed (namespaceName event : String)
  | addServer (s : Server)
  | hold (cell : CellId)
  | unhold (n : Nat)
  | recordError (scope : String) (record : ErrorRecord)
  | setTimeout (scope : String) (timeout : Option Nat)
  | setServerApi (scope : String) (api : Json)
  | setClientApi (scope : String) (api : Descriptor)
  | register (scope : Scope) (b : Binding) (via : ConnectionId)
  /-- Only a closed connection gives up its bindings. -/
  | releaseBindings (serial : Nat)
  | keep (slot : String × String) (serial : Nat)
  | evict (slot : String × String)
  /-- Only a closed connection is forgotten. -/
  | forget (serial : Nat)
  | track (s : Session)
  | disown (owner : ComponentId)
  | outlive (s : Session)
  | disownAll
  /-- Starts a listener's worker with the listener that feeds it. -/
  | attachWorker (worker : Worker) (serial : Nat)
  | enqueue (worker : Nat) (payload : Json)
  | dequeue (worker : Nat)
  | setRuntime (sockets : List SocketEntry)
  | insertHandle (name : String) (handle : Handle)

namespace Change

/-- The kinds of changes that the laws tell apart. -/
inductive Kind where
  /-- Touches none of what has a kind of its own. -/
  | plain
  | stir | report | spawn | answer | settle | expect | hold
  | emission | writing | watching
  | cancel | hush | spend | listen | await | feed
  | attachBack | attachWorker | poll | unwatch | enqueue | dequeue
  | dial | shut | keep | evict | forget | register | releaseBindings
  | track | disown | outlive | disownAll
  | recordError | setTimeout
deriving DecidableEq

def kind : Change → Kind
  | .record (.emitted ..) => .emission
  | .record (.wrote ..) => .writing
  | .record (.watched ..) => .watching
  | .signal _ | .abandon _ => .stir
  | .report .. => .report
  | .spawn _ => .spawn
  | .answer .. => .answer
  | .settle .. => .settle
  | .expect .. => .expect
  | .hold _ => .hold
  | .cancel _ => .cancel
  | .hush .. => .hush
  | .spend .. => .spend
  | .listen _ _ (.await _) _ => .await
  | .listen _ _ (.enqueue ..) _ => .feed
  | .listen .. => .listen
  | .attachBack .. => .attachBack
  | .attachWorker .. => .attachWorker
  | .poll .. => .poll
  | .unwatch .. => .unwatch
  | .enqueue .. => .enqueue
  | .dequeue _ => .dequeue
  | .dial .. => .dial
  | .shut _ => .shut
  | .keep .. => .keep
  | .evict _ => .evict
  | .forget _ => .forget
  | .register .. => .register
  | .releaseBindings _ => .releaseBindings
  | .track _ => .track
  | .disown _ => .disown
  | .outlive _ => .outlive
  | .disownAll => .disownAll
  | .recordError .. => .recordError
  | .setTimeout .. => .setTimeout
  | _ => .plain

namespace Kind

def all : List Kind :=
  [plain, stir, report, spawn, answer, settle, expect, hold, emission, writing, watching,
    cancel, hush, spend, listen, await, feed, attachBack, attachWorker, poll, unwatch, enqueue,
    dequeue, dial, shut, keep, evict, forget, register, releaseBindings, track, disown, outlive,
    disownAll, recordError, setTimeout]

/-- All kinds but these. -/
def but (kinds : List Kind) : List Kind := all.filter (!kinds.contains ·)

def within (few many : List Kind) : Bool := few.all many.contains

def basic : List Kind := [plain, stir, report, listen]

def finishes : List Kind :=
  [cancel, hush, shut, releaseBindings, forget, track, register] ++ basic

end Kind

/-- A change of one of these kinds; true or false by computation once the change is known. -/
def Among (kinds : List Kind) (c : Change) : Prop := bif kinds.contains c.kind then True else False

theorem among_iff {kinds : List Kind} {c : Change} : c.Among kinds ↔ c.kind ∈ kinds := by
  rw [Among, ← List.contains_iff_mem]
  cases kinds.contains c.kind <;> simp

/-- All inclusions of kinds are of this form. -/
theorem Among.mono {few many : List Kind} {c : Change} (h : c.Among few)
    (hkinds : Kind.within few many = true) : c.Among many :=
  among_iff.2 (List.contains_iff_mem.1 (List.all_eq_true.1 hkinds _ (among_iff.1 h)))

/-- A change that starts no task, opens or shuts no connection, emits and answers nothing, records
no error, undoes nothing that was attached, takes no listener off, and leaves registrations,
sessions, the slots of kept connections, the timeouts of scopes and the queues of watches alone.
What the trace says of a tree comes with the change of the tree. -/
def Basic : Change → Prop := Among Kind.basic

/-- A basic change that leaves listeners alone. -/
def Quiet : Change → Prop := Among [.plain, .stir, .report]

/-- A change with which an API is bound: its bindings are registered. -/
def Binds : Change → Prop := Among (.register :: Kind.basic)

/-- What waited for an answer that will not come is told. -/
def Stirs : Change → Prop := Among [.stir]

/-- A change that shuts no connection but this one. -/
def Shuts (serial : Nat) : Change → Prop
  | .shut n => n = serial
  | c => c.Stirs

/-- A change that takes off what was attached. -/
def Unties : Change → Prop := Among [.cancel, .hush, .stir]

/-- A change that may also take any listeners off a connection. -/
def Hushes : Change → Prop := Among (.hush :: Kind.basic)

/-- A change that undoes what was attached, drops a connection, or reports. -/
def Detaches : Change → Prop :=
  Among [.cancel, .hush, .shut, .releaseBindings, .forget, .report, .stir]

/-- A change with which a connect request ends: it is undone, or its APIs are bound and a session
begins. -/
def Finishes : Change → Prop := Among Kind.finishes

/-- A change that also takes sessions from their components. -/
def Undoes : Change → Prop := Among ([.disown, .outlive, .disownAll] ++ Kind.finishes)

variable {c : Change} {serial : Nat}

theorem Quiet.basic (h : c.Quiet) : c.Basic := h.mono rfl

theorem Basic.binds (h : c.Basic) : c.Binds := h.mono rfl

theorem Basic.finishes (h : c.Basic) : c.Finishes := h.mono rfl

theorem Hushes.finishes (h : c.Hushes) : c.Finishes := h.mono rfl

theorem Stirs.basic (h : c.Stirs) : c.Basic := h.mono rfl

theorem Stirs.unties (h : c.Stirs) : c.Unties := h.mono rfl

theorem Stirs.hushes (h : c.Stirs) : c.Hushes := h.mono rfl

theorem Unties.detaches (h : c.Unties) : c.Detaches := h.mono rfl

theorem Detaches.finishes (h : c.Detaches) : c.Finishes := h.mono rfl

theorem Finishes.undoes (h : c.Finishes) : c.Undoes := h.mono rfl

theorem Detaches.undoes (h : c.Detaches) : c.Undoes := h.mono rfl

theorem Shuts.among (h : c.Shuts serial) : c.Among [.shut, .stir] := by
  cases c <;> first | exact trivial | exact (show Change.Stirs _ from h).mono rfl

theorem Shuts.detaches (h : c.Shuts serial) : c.Detaches := h.among.mono rfl

end Change

namespace World

/-- A change of one connection. There is none of number zero. -/
def adjust (w : World) (serial : Nat) (f : Connection → Connection) : World :=
  { w with connections :=
      if serial = 0 then w.connections else w.connections.modify (serial - 1) f }

/-- The emits that wait on a connection, by their numbers; none where there is no connection. -/
def waitingOn (w : World) (serial : Nat) : List (Nat × CellId) :=
  ((w.connection? serial).map (·.waiting)).getD []

/-- The listeners of a connection, oldest first; none where there is no connection. -/
def listenersOn (w : World) (n : Nat) : List (Listener Reaction) :=
  ((w.connection? n).map (·.listeners.entries)).getD []

/-- Nobody feeds the worker of this listener any more, if it has one. -/
def unfed (workers : List Worker) : Reaction → List Worker
  | .enqueue worker _ => workers.modify worker fun x => { x with fed := false }
  | _ => workers

def apply (w : World) : Change → World
  | .record event => w.record event
  | .report ticket outcome => w.report ticket outcome
  | .spawn job => w.spawn job
  | .signal s => w.signal s
  | .newCell => w.newCell.1
  | .answer id v => w.answer id v
  | .abandon id => w.abandon id
  | .newToken => w.newToken.1
  | .cancel t => w.cancel t
  | .set place path v => w.set place path v
  | .touch place => w.writeTree place (w.tree place)
  | .attachBack back path =>
    (((w.watch back.place path).1.newToken).1).spawn
      (.watch { back with
        watch := (w.watch back.place path).2, own := (w.watch back.place path).1.tokens })
  | .poll place id =>
    w.setTree place ((((w.tree place).pollOne id).map (·.2)).getD (w.tree place))
  | .unwatch place id => w.unwatch place id
  | .countCall hook =>
    w.setComponent hook.owner { w.component hook.owner with
      handlers := match Fields.get? hook.handler (w.component hook.owner).handlers with
        | none => (w.component hook.owner).handlers
        | some handler => Fields.insert hook.handler { handler with calls := handler.calls + 1 }
            (w.component hook.owner).handlers }
  | .insertCallable owner name c => w.insertCallable owner name c
  | .dial url namespaceName =>
    { w with
      connections := w.connections ++
        [{ url, namespaceName := if namespaceName.isEmpty then "/" else namespaceName }]
      hub := w.hub ++ [w.connections.length + 1] }
  | .listen serial event action once =>
    w.adjust serial fun c => { c with listeners := (c.listeners.add event action once).1 }
  | .hush serial out =>
    { w.adjust serial fun c => { c with listeners := (c.listeners.remove out).2 } with
      workers := (((w.listenersOn serial).filter out).map (·.action)).foldl unfed w.workers }
  | .spend serial event =>
    w.adjust serial fun c => { c with listeners := (c.listeners.deliver event).2 }
  | .expect serial cell => w.adjust serial fun c =>
    { c with waiting := c.waiting ++ [(c.nextKey, cell)], nextKey := c.nextKey + 1 }
  | .settle serial key v =>
    match (w.waitingOn serial).lookup key with
    | none => w
    | some cell =>
      (w.adjust serial fun c => { c with waiting := c.waiting.filter (·.1 != key) }).answer cell v
  | .shut serial =>
    (w.waitingOn serial).foldl (fun w (_, cell) => w.abandon cell)
      { w.adjust serial fun c => { c with connected := false, waiting := [] } with
        hub := w.hub.filter (· != serial) }
  | .countServed namespaceName event => { w with servers := w.servers.map fun s =>
      if s.namespaceName == namespaceName && s.event == event then { s with calls := s.calls + 1 }
      else s }
  | .addServer s => w.addServer s
  | .hold cell => { w with held := w.held ++ [some cell] }
  | .unhold n => { w with held := w.held.set n none }
  | .recordError scope record => { w with sockets := w.sockets.recordError scope record }
  | .setTimeout scope timeout => { w with sockets := w.sockets.setTimeout scope timeout }
  | .setServerApi scope api => { w with sockets := w.sockets.setServerApi scope api }
  | .setClientApi scope api => { w with sockets := w.sockets.setClientApi scope api }
  | .register scope b via =>
    { w with registry := (w.registry.register scope b via).1 }
  | .releaseBindings serial =>
    { w with registry := if w.isConnected serial then w.registry
      else w.registry.release (.opened serial) }
  | .keep slot serial =>
    { w with persisted := w.persisted.filter (·.1 != slot) ++ [(slot, serial)] }
  | .evict slot => { w with persisted := w.persisted.filter (·.1 != slot) }
  | .forget serial =>
    { w with persisted := if w.isConnected serial then w.persisted
      else w.persisted.filter (·.2 != serial) }
  | .track s => w.track s
  | .disown owner => { w with owned := w.owned.filter (·.1 != owner) }
  | .outlive s => { w with detached := w.detached ++ [s] }
  | .disownAll => { w with owned := [], detached := [] }
  | .attachWorker worker serial =>
    ({ w with workers := w.workers ++ [worker] }.spawn (.work w.workers.length)).adjust serial
      fun c => { c with listeners :=
        (c.listeners.add worker.event (.enqueue w.workers.length worker.token) false).1 }
  | .enqueue worker payload =>
    { w with workers := w.workers.modify worker fun x => { x with queue := x.queue ++ [payload] } }
  | .dequeue worker =>
    { w with workers := w.workers.modify worker fun x => { x with queue := x.queue.tail } }
  | .setRuntime sockets => { w with runtimeSockets := sockets }
  | .insertHandle name handle => { w with handles := Fields.insert name handle w.handles }

/-- What comes of a world by changes that `P` allows. -/
inductive Makes (P : Change → Prop) (w : World) : World → Prop
  | nothing : Makes P w w
  | more {w' : World} (c : Change) (h : Makes P w w') (hc : P c) : Makes P w (w'.apply c)

namespace Makes

variable {P Q : Change → Prop} {w w' w'' : World}

theorem one (c : Change) (hc : P c) : Makes P w (w.apply c) := .more c .nothing hc

theorem trans (h : Makes P w w') (h' : Makes P w' w'') : Makes P w w'' := by
  induction h' with
  | nothing => exact h
  | more c _ hc ih => exact .more c ih hc

theorem mono (hPQ : ∀ c, P c → Q c) (h : Makes P w w') : Makes Q w w' := by
  induction h with
  | nothing => exact .nothing
  | more c _ hc ih => exact .more c ih (hPQ c hc)

theorem foldl_of_mem {α : Type} {f : World → α → World} (items : List α)
    (hf : ∀ a ∈ items, ∀ w, Makes P w (f w a)) (w : World) : Makes P w (items.foldl f w) := by
  induction items generalizing w with
  | nil => exact .nothing
  | cons a rest ih =>
    exact (hf a List.mem_cons_self w).trans
      (ih (fun a' ha' => hf a' (List.mem_cons_of_mem _ ha')) (f w a))

theorem foldl {α : Type} {f : World → α → World} (hf : ∀ w a, Makes P w (f w a)) (items : List α)
    (w : World) : Makes P w (items.foldl f w) :=
  foldl_of_mem items (fun a _ w => hf w a) w

/-- What every allowed change keeps holds after any number of them. -/
theorem keeps {I : World → Prop} (hI : ∀ w c, P c → I w → I (w.apply c)) (h : Makes P w w')
    (hw : I w) : I w' := by
  induction h with
  | nothing => exact hw
  | more c _ hc ih => exact hI _ c hc ih

end Makes

end World

/-- How the running task goes on after its job. -/
inductive Onward where
  | ended
  | resumes (job : Job)
  | parks (job : Job) (signals : List Signal) (due : Option Nat)

namespace Onward

/-- The job the task goes on with, at once or later. -/
def job? : Onward → Option Job
  | .ended => none
  | .resumes job => some job
  | .parks job _ _ => some job

/-- The signals that the task waits for. -/
def signals : Onward → List Signal
  | .parks _ signals _ => signals
  | _ => []

end Onward

namespace World

def onward (w : World) : Onward → World
  | .ended => w
  | .resumes job => w.resume job
  | .parks job signals due => w.park job signals due

/-- Changes that `P` allows, after which the running task goes on with a job that `Q` allows, if at
all. -/
def Does (P : Change → Prop) (Q : Job → Prop) (w w' : World) : Prop :=
  ∃ mid e, Makes P w mid ∧ (∀ job ∈ e.job?, Q job) ∧ mid.onward e = w'

namespace Makes

variable {P : Change → Prop} {Q : Job → Prop} {w mid w' : World}

theorem ends (h : Makes P w w') : Does P Q w w' := by
  refine ⟨w', .ended, h, ?_, rfl⟩
  simp [Onward.job?]

theorem resumes (h : Makes P w mid) {job : Job} (hQ : Q job) : Does P Q w (mid.resume job) := by
  refine ⟨mid, .resumes job, h, ?_, rfl⟩
  simpa [Onward.job?] using hQ

theorem parks (h : Makes P w mid) {job : Job} (hQ : Q job) (signals : List Signal)
    (due : Option Nat) : Does P Q w (mid.park job signals due) := by
  refine ⟨mid, .parks job signals due, h, ?_, rfl⟩
  simpa [Onward.job?] using hQ

theorem resumesAfter (h : Makes P w mid) {job : Job} (hQ : Q job) (delay : Option Nat) :
    Does P Q w (mid.resumeAfter delay job) := by
  unfold resumeAfter
  split
  · exact h.resumes hQ
  · exact h.parks hQ _ _

theorem resumesHook (h : Makes P w mid) {hook : Option Hook} {argument : Json} {after : AfterHook}
    {otherwise : Job} (hhook : ∀ k, hook = some k → Q (.hook k argument after))
    (hotherwise : Q otherwise) : Does P Q w (mid.resumeHook hook argument after otherwise) := by
  cases hook with
  | none => exact h.resumes hotherwise
  | some k => exact h.resumes (hhook k rfl)

theorem does (h : Makes P w mid) (h' : Does P Q mid w') : Does P Q w w' := by
  obtain ⟨last, e, hlast, hQ, rfl⟩ := h'
  exact ⟨last, e, h.trans hlast, hQ, rfl⟩

end Makes

theorem Does.mono {P P' : Change → Prop} {Q Q' : Job → Prop} {w w' : World}
    (hP : ∀ c, P c → P' c) (hQ : ∀ job, Q job → Q' job) (h : Does P Q w w') : Does P' Q' w w' := by
  obtain ⟨mid, e, hmid, hjob, rfl⟩ := h
  exact ⟨mid, e, hmid.mono hP, fun job hj => hQ job (hjob job hj), rfl⟩

end World

end Patchbay
