import GrpcMtk.Server.SVStream
import Mathlib.Logic.Function.Basic

/-!
# Server connections

The methods of `Conn`, with the parts of `Worker` and `IServer` they reach.  A
method runs on the worker thread of its connection and touches its own object,
its stream and the registries: a `World`.  What the user's closures do and
return is input.

`ASSERT` is empty unless `DEBUG` is defined, so the assertions of the source
are not branches here.  A method that goes on after `delete this` keeps working
on the record of the deleted object; the history shows it.
-/

namespace GrpcMtk

open GrpcMtk.Proto

abbrev ConnId := ℕ
abbrev WorkerId := ℕ

/-- `Conn::StreamStatus`. -/
inductive StreamStatus where
  | init
  | accept
  | login
  | waitLogin
  | read
  | write
  | close
  deriving DecidableEq, Repr

/-- What happened to a connection. -/
inductive ConnEvent where
  /-- `handler_->Login` returned this cid. -/
  | loginReturned (cid : ℕ)
  /-- `AcceptLogin` consumed a Login task with this id. -/
  | loginTask (id : ℕ)
  /-- The login was answered with `MTK_ACCEPT_DENY`. -/
  | denied
  | registered (cid : ℕ)
  | handled (request : Request)
  /-- `handler_->Close` was called. -/
  | closed
  /-- `delete this`. -/
  | deleted
  /-- The object was used after `delete this`. -/
  | usedAfterDelete
  deriving DecidableEq, Repr

/-- `Conn`.  `pending` counts the operations tagged with it that are in the
completion queue; `history` lists its events, newest first. -/
structure Conn where
  self : ConnId
  worker : WorkerId
  stream : SVStream
  status : StreamStatus
  req : Request
  cid : ℕ
  lcid : ℕ
  pending : ℕ
  history : List ConnEvent
  deriving DecidableEq, Repr

/-- `IServer::cmap_`, `Conn::pmap_`, `Conn::login_cid_seed_` and, of each
worker, `connections_` and `dying_`. -/
structure Registry where
  cmap : ℕ → Option ConnId
  pmap : ℕ → Option ConnId
  loginCidSeed : ℕ
  connections : WorkerId → List ConnId
  dying : WorkerId → Bool

/-- What the handler closure does with one request: whether its result is not
negative, and whether it calls `mtk_svconn_close`. -/
structure HandlerResult where
  ok : Bool
  close : Bool
  deriving DecidableEq, Repr

/-- A call of the `mtk_svconn_` API made by the acceptor. -/
inductive AcceptorCall where
  | close
  | deferLogin
  deriving DecidableEq, Repr

/-- What the acceptor closure does: its calls in order, the bytes it puts into
the slice and the cid it returns. -/
structure AcceptorResult where
  cid : ℕ
  calls : List AcceptorCall
  slice : Bytes
  deriving DecidableEq, Repr

/-- What a method of a connection can reach, and the results of the handler
calls still to come. -/
structure World where
  self : Conn
  reg : Registry
  results : List HandlerResult

/-- `Conn::Conn`, with the fresh `Request` of `req_`. -/
def Conn.new (self : ConnId) (worker : WorkerId) : Conn where
  self := self
  worker := worker
  stream := SVStream.new.ref
  status := .init
  req := { type := 0, msgid := 0, kind := .normal, payload := [] }
  cid := 0
  lcid := 0
  pending := 0
  history := []

/-- `Conn::HasPeer`, `status_ > ACCEPT`. -/
def StreamStatus.hasPeer : StreamStatus → Bool
  | .init | .accept => false
  | .login | .waitLogin | .read | .write | .close => true

def Conn.isDeleted (conn : Conn) : Bool := ConnEvent.deleted ∈ conn.history

namespace Registry

def onRegister (reg : Registry) (worker : WorkerId) (conn : ConnId) :
    Registry :=
  { reg with
    connections := Function.update reg.connections worker
      (reg.connections worker ++ [conn]) }

/-- `Worker::OnUnregister` erases the first occurrence, if there is one. -/
def onUnregister (reg : Registry) (worker : WorkerId) (conn : ConnId) :
    Registry :=
  { reg with
    connections := Function.update reg.connections worker
      ((reg.connections worker).erase conn) }

/-- `IServer::Register`. -/
def register (reg : Registry) (cid : ℕ) (conn : ConnId) : Registry :=
  { reg with cmap := Function.update reg.cmap cid (some conn) }

/-- `IServer::Unregister`. -/
def unregister (reg : Registry) (cid : ℕ) (conn : ConnId) : Registry :=
  if reg.cmap cid = some conn then
    { reg with cmap := Function.update reg.cmap cid none }
  else reg

end Registry

namespace World

def record (world : World) (event : ConnEvent) : World :=
  { world with self.history := event :: world.self.history }

def dying (world : World) : Bool := world.reg.dying world.self.worker

/-- An operation tagged with this connection is started. -/
def startOperation (world : World) : World :=
  { world with self.pending := world.self.pending + 1 }

def recv (world : World) : World := world.startOperation

/-- `mtk_svconn_close`, that is `Conn::InternalClose`. -/
def internalClose (world : World) : World :=
  { world with self.status := .close }

def clearLoginCid (world : World) : World :=
  if world.self.lcid = 0 then world
  else
    { world with
      self.lcid := 0
      reg := { world.reg with
        pmap := Function.update world.reg.pmap world.self.lcid none
        }.onUnregister world.self.worker world.self.self }

/-- `Conn::NewLoginCid`; `login_cid_seed_` is an `unsigned long long`. -/
def newLoginCid (world : World) : World :=
  let lcid := (world.reg.loginCidSeed + 1) % 2 ^ 64
  { world with
    self.lcid := lcid
    reg := { world.reg with
      loginCidSeed := lcid
      pmap := Function.update world.reg.pmap lcid (some world.self.self)
      }.onRegister world.self.worker world.self.self }

/-- `mtk_svconn_defer_login`, that is `Conn::DeferLogin`. -/
def deferLogin (world : World) : World :=
  { world with self.status := .waitLogin }.newLoginCid

def register (cid : ℕ) (world : World) : World :=
  let world := world.clearLoginCid
  { world with
    self.cid := cid
    reg := (world.reg.register cid world.self.self).onRegister
      world.self.worker world.self.self }.record (.registered cid)

def unregister (world : World) : World :=
  let world := world.clearLoginCid
  { world with
    reg := (world.reg.unregister world.self.cid world.self.self).onUnregister
      world.self.worker world.self.self }

def sysRep (msgid : ℕ) (payload : Bytes) (world : World) : World :=
  { world with self.stream := world.self.stream.sysRep msgid payload }

/-- `Throw` of an Error with `MTK_ACCEPT_DENY`. -/
def deny (msgid : ℕ) (payload : Bytes) (world : World) : World :=
  { world with
    self.stream := world.self.stream.throw msgid
      { errorCode := mtkAcceptDeny, payload } }.record .denied

/-- `FunctionHandler::Handle`.  The handler's next result is taken from the
input; a handler may close the connection it is called for. -/
def handle (request : Request) (world : World) : Bool × World :=
  let result := world.results.headD { ok := true, close := false }
  let world :=
    { world with results := world.results.tail }.record (.handled request)
  (result.ok, if result.close then world.internalClose else world)

def acceptorCall (world : World) : AcceptorCall → World
  | .close => world.internalClose
  | .deferLogin => world.deferLogin

section Methods

variable (codec : Codec)

/-- `FunctionHandler::Login`: the cid, the bytes of the slice and the world.
A Connect payload that does not unpack gives 0 without calling the acceptor. -/
def handlerLogin (acceptor : AcceptorResult) (world : World) :
    ℕ × Bytes × World :=
  match codec.unpackConnect world.self.req.payload with
  | none => (0, [], world)
  | some _ =>
      (acceptor.cid, acceptor.slice, acceptor.calls.foldl acceptorCall world)

/-- `Conn::Login`. -/
def login (acceptor : AcceptorResult) (world : World) : ℕ × World :=
  let (cid, slice, world) := world.handlerLogin codec acceptor
  let world := world.record (.loginReturned cid)
  if world.self.status = .waitLogin then (cid, world)
  else if cid ≠ 0 then
    (cid, world.sysRep world.self.req.msgid
      (codec.packConnect { id := cid, payload := slice }))
  else (cid, world.deny world.self.req.msgid slice)

/-- `Conn::AcceptLogin`. -/
def acceptLogin (request : SystemPayload.Login) (world : World) :
    Bool × World :=
  let world := world.record (.loginTask request.id)
  if request.id = 0 then (false, world.deny request.msgid request.payload)
  else
    let world := world.register request.id
    let world := { world with self.status := .read }.recv
    (true, world.sysRep request.msgid
      (codec.packConnect { id := request.id, payload := request.payload }))

/-- `Conn::Finish`.  By a task, the Finish is tagged with a new
`StreamCloser`, and a connection that waits for its login is destroyed here. -/
def finish (destroy : World → World) (byTask : Bool) (world : World) : World :=
  let prevStatus := world.self.status
  let world := { world with self.status := .close }
  if byTask then
    let world :=
      { world with self.stream := world.self.stream.finishWithCloser }
    if prevStatus = .waitLogin then destroy world else world
  else
    { world with self.stream := world.self.stream.finish }.startOperation

/-- The loop of `Conn::ConsumeTask`, over the tasks in the queue.  After a
failed Login task it returns; after the other closing tasks it goes on, even
when `Finish` has deleted the connection. -/
def consumeLoop (destroy : World → World) : List Task → ℤ → World → World
  | [], _, world => world
  | task :: rest, count, world =>
      if count = 0 then world
      else
        let world := { world with self.stream.tasks := rest }
        match task with
        | .normal request =>
            consumeLoop destroy rest (count - 1) (world.handle request).2
        | .login (some request) =>
            let (accepted, world) := world.acceptLogin codec request
            if accepted then consumeLoop destroy rest (count - 1) world
            else world.finish destroy true
        | .login none | .close | .other _ =>
            let world := world.finish destroy true
            if world.self.isDeleted then world.record .usedAfterDelete
            else consumeLoop destroy rest (count - 1) world

/-- `Conn::ConsumeTask`. -/
def consumeTask (destroy : World → World) (count : ℤ) (world : World) :
    World :=
  if world.dying ∧ world.self.status ≠ .close then world.finish destroy true
  else consumeLoop codec destroy world.self.stream.tasks count world

/-- `delete this`, with `~Conn` giving up its reference to the stream. -/
def delete (world : World) : World :=
  { world with self.stream := world.self.stream.unref }.record .deleted

/-- `Conn::Destroy`, with a bound on how often it may run inside itself
through `ConsumeTask` and `Finish`. -/
def destroyWithin : ℕ → World → World
  | 0, world => world
  | depth + 1, world =>
      let world :=
        if world.self.status.hasPeer then
          ((world.consumeTask codec (destroyWithin depth) (-1)).record
            .closed).unregister
        else world
      world.delete

/-- `Conn::Destroy`.  It runs inside itself at most once, see
`destroyWithin_eq_destroy`. -/
def destroy (world : World) : World := world.destroyWithin codec 2

/-- `Conn::Step`.  The call of `worker_->New()` in ACCEPT, which makes another
connection, is left to the server. -/
def step (acceptor : AcceptorResult) (world : World) : World :=
  match world.self.status with
  | .init => { world with self.status := .accept }.startOperation
  | .accept => { world with self.status := .login }.recv
  | .login =>
      if world.self.req.kind = .close then world.finish (destroy codec) false
      else
        let (cid, world) := world.login codec acceptor
        if world.self.status = .close ∨ world.dying then
          world.finish (destroy codec) false
        else if world.self.status = .waitLogin then world
        else { world.register cid with self.status := .read }.recv
  | .read =>
      if world.self.req.kind = .close then world.finish (destroy codec) false
      else
        let (ok, world) := world.handle world.self.req
        if ok ∧ world.self.status ≠ .close ∧ ¬world.dying then world.recv
        else world.finish (destroy codec) false
  | .close => world.destroy codec
  | .waitLogin | .write => world.finish (destroy codec) false

/-- `Worker::Process` for an operation tagged with this connection, which
leaves the completion queue.  A completed Read has filled `req_`. -/
def process (ok : Bool) (request : Request) (acceptor : AcceptorResult)
    (world : World) : World :=
  let world := { world with self.pending := world.self.pending - 1 }
  if ok then
    let world :=
      if world.self.status = .accept then world
      else { world with self.req := request }
    world.step codec acceptor
  else world.destroy codec

end Methods

end World

/-! ## Relations kept by the methods

Many facts about a method relate the world it starts from to the one it leaves.
If such a relation is a preorder and holds across what one iteration of
`ConsumeTask` does, it holds across the methods that run each other.
-/

namespace World

/-- One task is taken off the queue. -/
def dequeue (rest : List Task) (world : World) : World :=
  { world with self.stream.tasks := rest }

/-- `Finish` by a task, up to the call of `Destroy`. -/
def closeByTask (world : World) : World :=
  { world with
    self.status := .close
    self.stream := world.self.stream.finishWithCloser }

theorem finish_byTask (destroy : World → World) (world : World) :
    world.finish destroy true =
      if world.self.status = .waitLogin then destroy world.closeByTask
      else world.closeByTask := rfl

theorem finish_of_not_waiting {world : World}
    (hstatus : world.self.status ≠ .waitLogin) (destroy : World → World) :
    world.finish destroy true = world.closeByTask := by
  rw [finish_byTask, if_neg hstatus]

@[simp]
theorem closeByTask_status (world : World) :
    world.closeByTask.self.status = .close := rfl

@[simp]
theorem closeByTask_tasks (world : World) :
    world.closeByTask.self.stream.tasks = world.self.stream.tasks := rfl

@[simp]
theorem handle_stream (request : Request) (world : World) :
    (world.handle request).2.self.stream = world.self.stream := by
  dsimp only [handle]
  split <;> rfl

@[simp]
theorem clearLoginCid_stream (world : World) :
    world.clearLoginCid.self.stream = world.self.stream := by
  unfold clearLoginCid
  split <;> rfl

@[simp]
theorem acceptLogin_tasks (codec : Codec) (request : SystemPayload.Login)
    (world : World) :
    (world.acceptLogin codec request).2.self.stream.tasks =
      world.self.stream.tasks := by
  dsimp only [acceptLogin]
  split
  · exact SVStream.send_tasks _ _
  · apply (SVStream.send_tasks _ _).trans
    exact congrArg SVStream.tasks (clearLoginCid_stream _)

@[simp]
theorem delete_isDeleted (world : World) :
    world.delete.self.isDeleted = true := by
  simp [delete, record, Conn.isDeleted]

end World

/-- The tasks that close the connection without being looked at. -/
def Task.Closes : Task → Prop
  | .normal _ | .login (some _) => False
  | .login none | .close | .other _ => True

theorem Task.cases (task : Task) :
    (∃ request, task = .normal request) ∨
      (∃ request, task = .login (some request)) ∨ task.Closes := by
  cases task with
  | normal request => exact Or.inl ⟨request, rfl⟩
  | login payload =>
      cases payload with
      | none => exact Or.inr (Or.inr trivial)
      | some request => exact Or.inr (Or.inl ⟨request, rfl⟩)
  | close => exact Or.inr (Or.inr trivial)
  | other kind => exact Or.inr (Or.inr trivial)

/-! ## One iteration of `ConsumeTask` -/

namespace World

section Loop

variable {codec : Codec} {destroy : World → World} {rest : List Task}
  {count : ℤ}

theorem acceptLogin_fst (request : SystemPayload.Login) (world : World) :
    (world.acceptLogin codec request).1 = decide (request.id ≠ 0) := by
  by_cases hid : request.id = 0 <;> simp [acceptLogin, hid]

theorem consumeLoop_zero (tasks : List Task) (world : World) :
    world.consumeLoop codec destroy tasks 0 = world := by
  cases tasks with
  | nil => rfl
  | cons task rest => rw [consumeLoop, if_pos rfl]

theorem consumeLoop_normal (hcount : count ≠ 0) (request : Request)
    (world : World) :
    world.consumeLoop codec destroy (.normal request :: rest) count =
      ((world.dequeue rest).handle request).2.consumeLoop codec destroy rest
        (count - 1) := by
  rw [consumeLoop, if_neg hcount]
  rfl

theorem consumeLoop_refused (hcount : count ≠ 0)
    {request : SystemPayload.Login} (hid : request.id = 0) (world : World) :
    world.consumeLoop codec destroy (.login (some request) :: rest) count =
      ((world.dequeue rest).acceptLogin codec request).2.finish destroy
        true := by
  have hrefused : ¬((world.dequeue rest).acceptLogin codec request).1 = true := by
    rw [acceptLogin_fst]
    simp [hid]
  rw [consumeLoop, if_neg hcount]
  exact if_neg hrefused

theorem consumeLoop_accepted (hcount : count ≠ 0)
    {request : SystemPayload.Login} (hid : request.id ≠ 0) (world : World) :
    world.consumeLoop codec destroy (.login (some request) :: rest) count =
      ((world.dequeue rest).acceptLogin codec request).2.consumeLoop codec
        destroy rest (count - 1) := by
  have haccepted : ((world.dequeue rest).acceptLogin codec request).1 = true := by
    rw [acceptLogin_fst]
    simp [hid]
  rw [consumeLoop, if_neg hcount]
  exact if_pos haccepted

theorem consumeLoop_closing (hcount : count ≠ 0) {task : Task}
    (hcloses : task.Closes) (world : World) :
    world.consumeLoop codec destroy (task :: rest) count =
      if ((world.dequeue rest).finish destroy true).self.isDeleted then
        ((world.dequeue rest).finish destroy true).record .usedAfterDelete
      else ((world.dequeue rest).finish destroy true).consumeLoop codec destroy
        rest (count - 1) := by
  rw [consumeLoop, if_neg hcount]
  match task, hcloses with
  | .login none, _ => rfl
  | .close, _ => rfl
  | .other _, _ => rfl

end Loop

end World

/-- A preorder on worlds that holds across everything `ConsumeTask` does
between its calls of `Destroy`. -/
structure TaskKept (codec : Codec) (rel : World → World → Prop) : Prop where
  refl : ∀ world, rel world world
  trans : ∀ {first second third}, rel first second → rel second third →
    rel first third
  normal : ∀ world request rest,
    world.self.stream.tasks = .normal request :: rest →
      rel world ((world.dequeue rest).handle request).2
  accept : ∀ world request rest,
    world.self.stream.tasks = .login (some request) :: rest →
      request.id ≠ 0 →
        rel world ((world.dequeue rest).acceptLogin codec request).2
  refuse : ∀ world request rest,
    world.self.stream.tasks = .login (some request) :: rest →
      request.id = 0 → rel world
        ((world.dequeue rest).acceptLogin codec request).2.closeByTask
  closing : ∀ world task rest, world.self.stream.tasks = task :: rest →
    task.Closes → rel world (world.dequeue rest).closeByTask
  dying : ∀ world, world.dying = true → world.self.status ≠ .close →
    rel world world.closeByTask
  usedAfterDelete : ∀ world, world.self.isDeleted = true →
    rel world (world.record .usedAfterDelete)

/-- A preorder on worlds that also holds across the rest of `Destroy`. -/
structure Kept (codec : Codec) (rel : World → World → Prop) : Prop
    extends TaskKept codec rel where
  close : ∀ world, rel world (world.record .closed).unregister
  delete : ∀ world, rel world world.delete

section Rules

variable {codec : Codec} {rel : World → World → Prop}

/-- What `Finish` needs of the `Destroy` it is given: on a closed connection
the relation holds, and the connection is deleted or nothing happens. -/
def DestroyKept (rel : World → World → Prop) (destroy : World → World) :
    Prop :=
  ∀ world : World, world.self.status = .close → rel world (destroy world) ∧
    ((destroy world).self.isDeleted = true ∨ destroy world = world)

namespace TaskKept

variable {destroy : World → World}

theorem finish (kept : TaskKept codec rel) (hdestroy : DestroyKept rel destroy)
    {before world : World} (hclose : rel before world.closeByTask) :
    rel before (world.finish destroy true) ∧
      ((world.finish destroy true).self.isDeleted = true ∨
        (world.finish destroy true).self.stream.tasks =
          world.self.stream.tasks) := by
  rw [World.finish_byTask]
  split
  · have hdestroyed := hdestroy world.closeByTask rfl
    refine ⟨kept.trans hclose hdestroyed.1, ?_⟩
    rcases hdestroyed.2 with hdeleted | hsame
    · exact Or.inl hdeleted
    · rw [hsame]
      exact Or.inr rfl
  · exact ⟨hclose, Or.inr rfl⟩

theorem consumeLoop (kept : TaskKept codec rel)
    (hdestroy : DestroyKept rel destroy) {tasks : List Task} (count : ℤ)
    {world : World} (htasks : world.self.stream.tasks = tasks) :
    rel world (world.consumeLoop codec destroy tasks count) := by
  induction tasks generalizing count world with
  | nil => exact kept.refl world
  | cons task rest ih =>
      by_cases hcount : count = 0
      · rw [hcount, World.consumeLoop_zero]
        exact kept.refl world
      rcases task.cases with ⟨request, rfl⟩ | ⟨request, rfl⟩ | hcloses
      · rw [World.consumeLoop_normal hcount]
        exact kept.trans (kept.normal world request rest htasks)
          (ih _ (congrArg SVStream.tasks (World.handle_stream request _)))
      · by_cases hid : request.id = 0
        · rw [World.consumeLoop_refused hcount hid]
          exact (kept.finish hdestroy
            (kept.refuse world request rest htasks hid)).1
        · rw [World.consumeLoop_accepted hcount hid]
          exact kept.trans (kept.accept world request rest htasks hid)
            (ih _ (World.acceptLogin_tasks codec request (world.dequeue rest)))
      · rw [World.consumeLoop_closing hcount hcloses]
        obtain ⟨hfinish, hnext⟩ :=
          kept.finish hdestroy (kept.closing world task rest htasks hcloses)
        split
        case isTrue hdeleted =>
          exact kept.trans hfinish (kept.usedAfterDelete _ hdeleted)
        case isFalse hlive =>
          exact kept.trans hfinish (ih _ (hnext.resolve_left hlive))

theorem consumeTask (kept : TaskKept codec rel)
    (hdestroy : DestroyKept rel destroy) (count : ℤ) (world : World) :
    rel world (world.consumeTask codec destroy count) := by
  unfold World.consumeTask
  split
  case isTrue hdying =>
    exact (kept.finish hdestroy (kept.dying world hdying.1 hdying.2)).1
  case isFalse => exact kept.consumeLoop hdestroy count rfl

end TaskKept

namespace Kept

theorem destroyWithin (kept : Kept codec rel) (depth : ℕ) (world : World) :
    rel world (world.destroyWithin codec depth) ∧
      ((world.destroyWithin codec depth).self.isDeleted = true ∨
        world.destroyWithin codec depth = world) := by
  induction depth generalizing world with
  | zero => exact ⟨kept.refl world, Or.inr rfl⟩
  | succ depth ih =>
      refine ⟨?_, Or.inl (World.delete_isDeleted _)⟩
      rw [World.destroyWithin]
      split
      · exact kept.trans (kept.consumeTask (fun world _ => ih world) (-1) world)
          (kept.trans (kept.close _) (kept.delete _))
      · exact kept.delete world

theorem destroy (kept : Kept codec rel) (world : World) :
    rel world (world.destroy codec) :=
  (kept.destroyWithin 2 world).1

theorem destroyKept (kept : Kept codec rel) :
    DestroyKept rel (World.destroy codec) := by
  intro world _
  exact kept.destroyWithin 2 world

end Kept

end Rules

/-! ## Destroy inside Destroy

`Finish` destroys the connection only if it was waiting for its login, and
leaves it in CLOSE before it does.  Neither a task nor a handler makes it wait
again, so `Destroy` reached that way never reaches itself another time.
-/

namespace World

variable {codec : Codec}

theorem handle_status (request : Request) (world : World) :
    (world.handle request).2.self.status = world.self.status ∨
      (world.handle request).2.self.status = .close := by
  dsimp only [handle]
  split
  · exact Or.inr rfl
  · exact Or.inl rfl

theorem acceptLogin_status (request : SystemPayload.Login) (world : World) :
    (world.acceptLogin codec request).2.self.status = world.self.status ∨
      (world.acceptLogin codec request).2.self.status = .read := by
  dsimp only [acceptLogin]
  split
  · exact Or.inl rfl
  · exact Or.inr rfl

/-- The loop depends on `destroy` only through its calls of `Finish`. -/
theorem consumeLoop_congr {first second : World → World}
    (holds : World → Prop)
    (hfinish : ∀ world, holds world →
      world.finish first true = world.finish second true)
    (hdequeue : ∀ world tasks, holds world → holds (world.dequeue tasks))
    (hhandle : ∀ world request, holds world → holds (world.handle request).2)
    (haccept : ∀ world request, holds world →
      holds (world.acceptLogin codec request).2)
    (hclosed : ∀ world, holds world → holds (world.finish second true))
    (tasks : List Task) (count : ℤ) {world : World} (hworld : holds world) :
    world.consumeLoop codec first tasks count =
      world.consumeLoop codec second tasks count := by
  induction tasks generalizing count world with
  | nil => rfl
  | cons task rest ih =>
      by_cases hcount : count = 0
      · rw [hcount, consumeLoop_zero, consumeLoop_zero]
      have hdequeued := hdequeue world rest hworld
      rcases task.cases with ⟨request, rfl⟩ | ⟨request, rfl⟩ | hcloses
      · rw [consumeLoop_normal hcount, consumeLoop_normal hcount]
        exact ih (count - 1) (hhandle _ request hdequeued)
      · have haccepted := haccept _ request hdequeued
        by_cases hid : request.id = 0
        · rw [consumeLoop_refused hcount hid, consumeLoop_refused hcount hid]
          exact hfinish _ haccepted
        · rw [consumeLoop_accepted hcount hid, consumeLoop_accepted hcount hid]
          exact ih (count - 1) haccepted
      · rw [consumeLoop_closing hcount hcloses,
          consumeLoop_closing hcount hcloses, hfinish _ hdequeued,
          ih (count - 1) (hclosed _ hdequeued)]

/-- A connection that does not wait for its login never destroys itself while
it consumes tasks. -/
theorem consumeTask_of_not_waiting (first second : World → World) (count : ℤ)
    {world : World} (hstatus : world.self.status ≠ .waitLogin) :
    world.consumeTask codec first count =
      world.consumeTask codec second count := by
  have hloop : world.consumeLoop codec first world.self.stream.tasks count =
      world.consumeLoop codec second world.self.stream.tasks count := by
    apply consumeLoop_congr (fun world => world.self.status ≠ .waitLogin)
    case hworld => exact hstatus
    · intro world hopen
      rw [finish_of_not_waiting hopen, finish_of_not_waiting hopen]
    · intro _ _ hopen
      exact hopen
    · intro world request hopen
      rcases handle_status request world with hsame | hclose
      · rwa [hsame]
      · simp [hclose]
    · intro world request hopen
      rcases @acceptLogin_status codec request world with hsame | hread
      · rwa [hsame]
      · simp [hread]
    · intro world hopen
      simp [finish_of_not_waiting hopen]
  rw [consumeTask, consumeTask, hloop, finish_of_not_waiting hstatus,
    finish_of_not_waiting hstatus]

theorem consumeTask_congr {first second : World → World}
    (hclose : ∀ world : World, world.self.status = .close →
      first world = second world) (count : ℤ) (world : World) :
    world.consumeTask codec first count =
      world.consumeTask codec second count := by
  have hfinish : ∀ world : World,
      world.finish first true = world.finish second true := by
    intro world
    simp only [finish, if_true]
    split
    · exact hclose _ rfl
    · rfl
  have hloop : world.consumeLoop codec first world.self.stream.tasks count =
      world.consumeLoop codec second world.self.stream.tasks count :=
    consumeLoop_congr (fun _ => True) (fun world _ => hfinish world)
      (fun _ _ _ => trivial) (fun _ _ _ => trivial) (fun _ _ _ => trivial)
      (fun _ _ => trivial) world.self.stream.tasks count trivial
  rw [consumeTask, consumeTask, hloop, hfinish]

theorem destroyWithin_of_not_waiting (depth other : ℕ) {world : World}
    (hstatus : world.self.status ≠ .waitLogin) :
    world.destroyWithin codec (depth + 1) =
      world.destroyWithin codec (other + 1) := by
  rw [destroyWithin, destroyWithin,
    consumeTask_of_not_waiting _ (destroyWithin codec other) (-1) hstatus]

/-- The bound on the depth is never met. -/
theorem destroyWithin_eq_destroy (depth : ℕ) :
    destroyWithin codec (depth + 2) = destroy codec := by
  funext world
  have hclose : ∀ world : World, world.self.status = .close →
      world.destroyWithin codec (depth + 1) = world.destroyWithin codec 1 := by
    intro world hstatus
    apply destroyWithin_of_not_waiting
    simp [hstatus]
  rw [destroyWithin, destroy, destroyWithin, consumeTask_congr hclose]

end World

end GrpcMtk
