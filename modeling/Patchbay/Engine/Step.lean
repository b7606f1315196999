import Patchbay.Engine.Connecting

/-!
One step of the running task. Every job ends in one of four ways: the task goes on with
another job, parks, reports an outcome, or is over. Jobs go on by data and not by calls,
so each of them is one case here and none of them loops.
-/

namespace Patchbay

namespace World

/-! Handlers -/

def startHook (w : World) (hook : Hook) (argument : Json) (after : AfterHook) : World :=
  let owner := w.component hook.owner
  match Fields.get? hook.handler owner.handlers with
  | none => w.resume (.hookDone (.ok .null) after)
  | some handler =>
    let reply := handler.reply handler.calls argument
    let counted := Fields.insert hook.handler { handler with calls := handler.calls + 1 }
      owner.handlers
    let w := w.setComponent hook.owner { owner with handlers := counted }
    let peek := reply.peek.map fun path => Json.ofOption (owner.data.get? path)
    let w := w.record (.called hook.owner.text hook.handler argument peek)
    w.resumeAfter reply.delay (.hookEnd hook reply after)

def endHook (w : World) (hook : Hook) (reply : Reply) (after : AfterHook) : World :=
  let w := match reply.write with
    | none => w
    | some (path, v) => w.set (.component hook.owner) path v
  let w := if reply.delay.isSome then w.record (.returned hook.owner.text hook.handler) else w
  w.resume (.hookDone reply.verdict after)

/-- Calls a hook if there is one, and goes on with `otherwise` if not. -/
def resumeHook (w : World) (hook : Option Hook) (argument : Json) (after : AfterHook)
    (otherwise : Job) : World :=
  match hook with
  | none => w.resume otherwise
  | some hook => w.resume (.hook hook argument after)

/-! Emits -/

/-- Past the pre-hook: the emit goes to the transport. -/
def transmit (w : World) (run : EmitRun) (after : AfterEmit) : World :=
  if run.noAck then
    match w.send run.channel.connection run.event run.payload none with
    | .error e => w.resume (.emitDone (.error (.transport e)) after)
    | .ok w =>
      w.resumeHook run.hooks.post .null (.settled (.ok .sent) after) (.emitDone (.ok .sent) after)
  else
    let (w, cell) := w.newCell
    match w.send run.channel.connection run.event run.payload (some cell) with
    | .error e => w.resume (.settle (.error (.transport e)) run after)
    | .ok w => w.resume (.await cell (run.bound.map (w.now + ·)) run after)

/-- An answer that is there wins over a timeout of the same moment. -/
def awaitAnswer (w : World) (cell : CellId) (due : Option Nat) (run : EmitRun) (after : AfterEmit) :
    World :=
  match w.cell cell with
  | .answered v => w.resume (.settle (Ack.settle run.event run.payload v w.stamp) run after)
  | .abandoned => w.resume (.settle (.error (.disconnected run.event)) run after)
  | .empty =>
    match due with
    | none => w.park (.await cell none run after) [.cell cell]
    | some t =>
      if t ≤ w.now then
        w.resume (.settle (.error (.timeout run.event (run.bound.getD 0))) run after)
      else w.park (.await cell (some t) run after) [.cell cell] (some t)

/-- A rejected emit is recorded; either way the post-hook hears of it. -/
def settleEmit (w : World) (result : Except EmitError Json) (run : EmitRun) (after : AfterEmit) :
    World :=
  match result with
  | .ok v =>
    w.resumeHook run.hooks.post v (.settled (.ok (.acked v)) after)
      (.emitDone (.ok (.acked v)) after)
  | .error e =>
    let record := e.toRecord run.event run.msg w.stamp
    let w := w.warn (.emitFailed run.event run.channel.scope e.kind e.message)
    let w := { w with sockets := w.sockets.recordError run.channel.scope record }
    w.resumeHook run.hooks.post (Ack.errorValue record) (.settled (.error e) after)
      (.emitDone (.error e) after)

def finishEmit (w : World) (result : Except EmitError EmitOutcome) (after : AfterEmit) : World :=
  match after, result with
  | .emitter _ _ ticket, .error e => w.report ticket (.failed (.emit e))
  | .emitter owner target ticket, .ok (.acked v) =>
    let w := match target with
      | none => w
      | some path => w.set (.component owner) path v
    w.report ticket (.value v)
  | .emitter _ _ ticket, .ok _ => w.report ticket (.value .null)
  | .method _ _ ticket, .error e => w.report ticket (.failed (.emit e))
  | .method owner path ticket, .ok outcome =>
    let v := Json.ofOption outcome.answer?
    (w.set (.component owner) path v).report ticket (.value v)
  | .helper ticket, .error e => w.report ticket (.failed (.emit e))
  | .helper ticket, .ok outcome => w.report ticket (.value (.ofOption outcome.answer?))
  | .answer ticket, .error e => w.report ticket (.failed (.emit e))
  | .answer ticket, .ok outcome => w.report ticket (.answer outcome.answer?)
  | .outcome ticket, .error e => w.report ticket (.failed (.emit e))
  | .outcome ticket, .ok outcome => w.report ticket (.emitted outcome)
  | .change _, _ => w
  | .discovery c, .error e => w.failConnect c (.emit e)
  | .discovery c, .ok outcome => w.discovered c (.ofOption outcome.answer?)

/-! Callables -/

/-- The argument over the source's fields when both are objects; else the argument, else the
source, else an empty object. -/
def emitterPayload (argument source : Option Json) : Json :=
  match argument, source with
  | some (.obj fields), some (.obj base) => .obj (Fields.overlay base fields)
  | some v, _ => v
  | none, some v => v
  | none, none => .emptyObject

def objectOf : Option Json → Fields Json
  | some (.obj fields) => fields
  | _ => []

def startCall (w : World) (ticket : Nat) (owner : ComponentId) (callable : Callable)
    (argument : Option Json) : World :=
  let data := w.tree (.component owner)
  match callable with
  | .emitter channel b hooks =>
    let payload := emitterPayload argument (b.source.bind data.get?)
    w.resume (.emit { channel, event := b.action, msg := some payload, hooks }
      (.emitter owner b.target ticket))
  | .method channel name =>
    let stored := data.get? (ServerApi.slot [name, "msg"])
    let msg := (argument <|> stored).getD .emptyObject
    w.resume (.emit { channel, event := name, msg := some msg }
      (.method owner (ServerApi.slot [name, "resp"]) ticket))
  | .helper channel event =>
    let fields := objectOf argument
    let wantsAck := match Fields.get? "ack" fields with
      | some (.bool b) => b
      | _ => false
    let msg := Fields.overlay (objectOf (data.get? event)) (Fields.erase "ack" fields)
    w.resume (.emit { channel, event, msg := some (.obj msg), noAck := !wantsAck } (.helper ticket))

/-! Store actions -/

def startAction (w : World) (action : String) (payload : Json) (after : AfterAction) : World :=
  match Fields.get? action w.store.actions with
  | none => w.resume (.actionDone (.error (.unknownAction action)) after)
  | some plan =>
    let plan := plan payload
    (w.record (.acted action payload)).resumeAfter plan.delay (.actionEnd action payload plan after)

def endAction (w : World) (action : String) (payload : Json) (plan : ActionPlan)
    (after : AfterAction) : World :=
  let committed : Except StoreError World := match plan.commit with
    | none => .ok w
    | some mutation => w.commit mutation payload
  match committed with
  | .error e => w.resume (.actionDone (.error e) after)
  | .ok w =>
    match plan.ending with
    | .dispatch next => w.resume (.dispatch next payload after)
    | .fail reason => w.resume (.actionDone (.error (.actionFailed action reason)) after)
    | .value v => w.resume (.actionDone (.ok v) after)

/-! Workers of listeners -/

/-- The worker takes the next payload, unless its session is over. -/
def work (w : World) (id : Nat) : World :=
  match w.workers[id]? with
  | none => w
  | some worker =>
    if w.isCancelled worker.token then w
    else match worker.queue with
      | [] =>
        if worker.fed then w.park (.work id) [.queue id, .token worker.token] else w
      | payload :: rest =>
        { w with workers := w.workers.set id { worker with queue := rest } }.resumeHook
          worker.hooks.pre payload (.admitted id payload) (.apply id payload)

def applyPayload (w : World) (id : Nat) (payload : Json) : World :=
  match w.workers[id]? with
  | none => w
  | some worker =>
    match worker.sink with
    | .data owner =>
      (w.set (.component owner) worker.target payload).resume (.applied id payload)
    | .dispatch => w.resume (.dispatch worker.target payload (.applied id payload))
    | .commit =>
      match w.commit worker.target payload with
      | .ok w => w.resume (.applied id payload)
      | .error e => (w.warn (.commitFailed worker.target e.message)).resume (.applied id payload)

def afterApply (w : World) (id : Nat) (payload : Json) : World :=
  match w.workers[id]? with
  | none => w
  | some worker => w.resumeHook worker.hooks.post payload (.applied id) (.work id)

def finishAction (w : World) (result : Except StoreError Json) (after : AfterAction) : World :=
  match after, result with
  | .ticket ticket, .ok v => w.report ticket (.value v)
  | .ticket ticket, .error e => w.report ticket (.storeFailed e)
  | .applied id payload, .ok _ => w.resume (.applied id payload)
  | .applied id payload, .error e =>
    let target := (w.workers[id]?.map (·.target)).getD ""
    (w.warn (.dispatchFailed target e.message)).resume (.applied id payload)

/-! EmitBacks -/

def isStopped (w : World) (back : EmitBack) : Bool :=
  w.isCancelled back.token || w.isCancelled back.own

/-- Starts a task of its own for every change of the watched value. -/
def watchNext (w : World) (back : EmitBack) : World :=
  if w.isStopped back then w.unwatch back.place back.watch
  else match (w.tree back.place).pollOne back.watch with
    | none =>
      w.park (.watch back)
        [.watch back.place back.watch, .token back.token, .token back.own]
    | some (v, t) => ((w.setTree back.place t).spawn (.change back v)).resume (.watch back)

def changeMessage (v : Json) : Json := .obj [("data", v)]

def emitBackRun (back : EmitBack) (msg : Json) : EmitRun :=
  { channel := back.channel, event := back.event, msg := some msg, hooks := ⟨none, back.post⟩ }

def startChange (w : World) (back : EmitBack) (v : Json) : World :=
  let msg := changeMessage v
  w.resumeHook back.validator msg (.validated back msg)
    (.emit (emitBackRun back msg) (.change back))

/-! Going on after a handler -/

def finishHook (w : World) (verdict : Verdict) (after : AfterHook) : World :=
  match after with
  | .gate run after =>
    if verdict.isVeto then w.resume (.emitDone (.ok .vetoed) after)
    else match verdict with
      | .error text => (w.warn (.preHookFailed run.event text)).resume (.transmit run after)
      | .ok _ => w.resume (.transmit run after)
  | .settled result after => w.resume (.emitDone result after)
  | .validated back msg =>
    if verdict.rejects then w
    else match verdict with
      | .error text =>
        (w.warn (.validatorFailed back.event text)).resume
          (.emit (emitBackRun back msg) (.change back))
      | .ok _ => w.resume (.emit (emitBackRun back msg) (.change back))
  | .admitted id payload =>
    if verdict.isVeto then w.resume (.work id) else w.resume (.apply id payload)
  | .applied id => w.resume (.work id)
  | .served ack =>
    match verdict with
    | .ok v => w.answerIf ack v
    | .error text => w.answerIf ack (.obj [(Ack.errorKey, .str text)])

/-! Bare answers -/

def receive (w : World) (cell : CellId) (after : AfterAnswer) : World :=
  match w.cell cell, after with
  | .empty, _ => w.park (.receive cell after) [.cell cell]
  | .answered v, .forward serial key => w.resolve serial key v
  | .answered v, .reply ticket _ => w.report ticket (.value v)
  | .answered v, .raw ticket => w.report ticket (.value v)
  | .abandoned, .forward _ _ => w
  | .abandoned, .reply ticket event => w.report ticket (.failed (.emit (.disconnected event)))
  | .abandoned, .raw ticket => w.report ticket .dropped

/-- The running task does its next job. -/
def exec (w : World) : Job → World
  | .connect ticket name owner opts => w.startConnect ticket name owner opts
  | .call ticket owner callable argument => w.startCall ticket owner callable argument
  | .emit run after =>
    w.resumeHook run.hooks.pre run.payload (.gate run after) (.transmit run after)
  | .transmit run after => w.transmit run after
  | .await cell due run after => w.awaitAnswer cell due run after
  | .settle result run after => w.settleEmit result run after
  | .emitDone result after => w.finishEmit result after
  | .hook hook argument after => w.startHook hook argument after
  | .hookEnd hook reply after => w.endHook hook reply after
  | .hookDone verdict after => w.finishHook verdict after
  | .dispatch action payload after => w.startAction action payload after
  | .actionEnd action payload plan after => w.endAction action payload plan after
  | .actionDone result after => w.finishAction result after
  | .work id => w.work id
  | .apply id payload => w.applyPayload id payload
  | .applied id payload => w.afterApply id payload
  | .watch back => w.watchNext back
  | .change back v => w.startChange back v
  | .serve serial event payload ack => w.serve serial event payload ack
  | .serveEnd serial reply ack => w.serveEnd serial reply ack
  | .receive cell after => w.receive cell after

/-- One step; none when no task is ready. -/
def step (w : World) : Option World :=
  match w.ready with
  | [] => none
  | task :: rest => some (exec { w with ready := rest, running := task.id } task.job)

end World

end Patchbay
