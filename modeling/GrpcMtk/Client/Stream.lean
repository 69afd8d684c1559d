import Mathlib.Order.Nat
import GrpcMtk.Core.OrdMap
import GrpcMtk.Core.Proto
import GrpcMtk.Core.Runs

/-!
# The client stream

An `RPCStream` with its `IOThread`.  Three kinds of threads share it: the
thread that calls `Update`, the I/O thread, and any number of application
threads inside `Call`.  One action is one atomic section of one of them: an
operation on a lock-free queue, a section under `reqmtx_`, or the handling of
one completion.

A pointer to a heap object is a `heap` or `reply` item; the constant pointers
0x0, 0x1 and 0x2 that share the queues with them are items of their own.
Dereferencing one of these ends the run.
-/

namespace GrpcMtk

open GrpcMtk.Proto

/-- The number of a `Call`, counted over all threads. -/
abbrev CallId := ℕ

/-- `RPCStream::NetworkStatus`. -/
inductive NetworkStatus where
  | disconnect
  | connecting
  | established
  | initializing
  | connect
  deriving DecidableEq, Repr

/-- The value of the enumerator, by which the source compares. -/
def NetworkStatus.value : NetworkStatus → ℕ
  | .disconnect => 0
  | .connecting => 1
  | .established => 2
  | .initializing => 3
  | .connect => 4

/-- A `Reply*` in `replys_`. -/
inductive ReplyItem where
  | disconnectEvent
  | establishedEvent
  | reply (reply : Reply)
  deriving DecidableEq, Repr

/-- A `Request*` in `requests_`; a heap object is known by the number of the
`Call` or the `SendShutdownRequest` that created it. -/
inductive RequestItem where
  | establishRequest
  | heap (id : CallId) (request : Request)
  deriving DecidableEq, Repr

/-- The callback of a call: the one `StartWrite` passes, or any other. -/
inductive Callback where
  | startWrite
  | user
  deriving DecidableEq, Repr

/-- `SEntry`, with the call it belongs to. -/
structure SEntry where
  startAt : ℕ
  call : CallId
  cb : Callback
  deriving DecidableEq, Repr

/-- What `SEntry::Respond` passes to a callback: one of the constant errors,
or a reply. -/
inductive Outcome where
  | notConnectError
  | timeoutError
  | replied (reply : Reply)
  deriving DecidableEq, Repr

namespace Outcome

/-- The first argument of the callback, an `int`. -/
def result : Outcome → ℤ
  | .notConnectError => mtkNotConnect
  | .timeoutError => mtkTimeout
  | .replied reply =>
      match reply.error with
      | some error => error.errorCode
      | none => (reply.type : ℤ).bmod (2 ^ 32)

def payload : Outcome → Bytes
  | .notConnectError => []
  | .timeoutError => []
  | .replied reply =>
      match reply.error with
      | some error => error.payload
      | none => reply.payload

end Outcome

/-- Where an application thread is inside `Call`: past the status check, past
`NewMsgId` and `new SEntry`, or past the enqueue. -/
inductive Calling where
  | checked (request : Request)
  | numbered (request : Request) (startAt : ℕ)
  | enqueued (msgid startAt : ℕ)
  deriving DecidableEq, Repr

/-- Where the I/O thread is: in the loop of `Run`, or in the
`DrainRequestQueue` of a failed read with this sequence number in its tag. -/
inductive IOThreadAt where
  | run
  | drainRequestQueue (seq : ℕ)
  deriving DecidableEq, Repr

/-- Why `DrainQueue` runs. -/
inductive DrainReason where
  | notReady
  | disconnectEvent
  | establishedEvent
  deriving DecidableEq, Repr

/-- Where the polling thread is inside `Update`. -/
inductive UpdateAt where
  | start
  | processReply
  | drainReplys (reason : DrainReason)
  | drainRequests (reason : DrainReason)
  | drainReqmap (reason : DrainReason)
  | switch
  | processTimeout (now : ℕ)
  | stop
  deriving DecidableEq, Repr

/-- `IOThread`.  `cq` holds the tags of the operations not completed yet;
`io` and `replyWork` tell whether these pointers are set, and `joinable` is
`thr_.joinable()`. -/
structure IOThread where
  cq : List ℕ
  cqShutdown : Bool
  io : Bool
  replyWork : Bool
  joinable : Bool
  connectSequenceNum : ℕ
  isSending : Bool
  alive : Bool
  sendingShutdown : Bool
  running : IOThreadAt
  deriving DecidableEq, Repr

/-- `RPCStream`, with the threads inside it and what has happened so far:
`releasing` counts the threads between the two statements of `Release`, `next`
numbers the next call, `invoked` lists the callbacks run, newest first,
`issued` the msgid each call put into `requests_`, `inserted` the calls put
into `reqmap_`, `drained` the calls whose request `DrainRequestQueue` deleted
or whose entry `DrainQueue` deleted, `consumed` the items taken from
`requests_` and used as heap objects, `notified` the replies passed to
`notifier_`.  `crashed` is set when a constant pointer or a null `io_` has
been dereferenced. -/
structure RPCStream where
  replys : List ReplyItem
  requests : List RequestItem
  reqmap : OrdMap ℕ SEntry
  restarting : Bool
  reconnectWhen : ℕ
  msgidSeed : ℕ
  reconnectAttempt : ℕ
  status : NetworkStatus
  iothr : IOThread
  updating : UpdateAt
  releasing : ℕ
  calling : OrdMap CallId Calling
  next : CallId
  invoked : List (CallId × Outcome)
  issued : List (CallId × ℕ)
  inserted : List CallId
  drained : List CallId
  consumed : List RequestItem
  notified : List Reply
  crashed : Bool

namespace IOThread

/-! ## Tags

Both shifts are on `uint32_t`. -/

def generateWriteTag (msgid : ℕ) : ℕ := (msgid * 2 ^ 8 % 2 ^ 32 + 1) % 2 ^ 32

def generateReadTag (connectSequenceNum : ℕ) : ℕ :=
  connectSequenceNum * 2 ^ 8 % 2 ^ 32

def isWriteOperation (tag : ℕ) : Bool := tag % 256 = 1

def isReadOperation (tag : ℕ) : Bool := tag % 256 = 0

def isCloseOperation (tag : ℕ) : Bool := tag % 256 = 2

def connectSequenceFromReadTag (tag : ℕ) : ℕ := tag / 2 ^ 8 % 2 ^ 32

@[simp]
theorem isWriteOperation_writeTag (msgid : ℕ) :
    isWriteOperation (generateWriteTag msgid) = true := by
  apply decide_eq_true
  unfold generateWriteTag
  omega

@[simp]
theorem isWriteOperation_readTag (seq : ℕ) :
    isWriteOperation (generateReadTag seq) = false := by
  apply decide_eq_false
  unfold generateReadTag
  omega

theorem isWriteOperation_of_isReadOperation {tag : ℕ}
    (hread : isReadOperation tag = true) : isWriteOperation tag = false := by
  have hzero : tag % 256 = 0 := of_decide_eq_true hread
  apply decide_eq_false
  omega

/-- `IOThread::IOThread`. -/
def new : IOThread where
  cq := []
  cqShutdown := false
  io := false
  replyWork := false
  joinable := false
  connectSequenceNum := 0
  isSending := false
  alive := true
  sendingShutdown := false
  running := .run

/-- `IOThread::Open`; the new call completes under a read tag. -/
def openStream (thread : IOThread) : IOThread :=
  let seq := (thread.connectSequenceNum + 1) % 2 ^ 32
  { thread with
    connectSequenceNum := seq
    io := true
    cq := thread.cq ++ [generateReadTag seq] }

end IOThread

namespace RPCStream

/-- `RPCStream::RPCStream`. -/
def new : RPCStream where
  replys := []
  requests := []
  reqmap := .empty
  restarting := false
  reconnectWhen := 0
  msgidSeed := 0
  reconnectAttempt := 0
  status := .disconnect
  iothr := .new
  updating := .start
  releasing := 0
  calling := .empty
  next := 0
  invoked := []
  issued := []
  inserted := []
  drained := []
  consumed := []
  notified := []
  crashed := false

/-- `TIMEOUT_DURATION`, in nanoseconds. -/
def timeoutDuration : ℕ := 30 * 1000 * 1000 * 1000

def pushReply (item : ReplyItem) (stream : RPCStream) : RPCStream :=
  { stream with replys := stream.replys ++ [item] }

def enqueueRequest (item : RequestItem) (stream : RPCStream) : RPCStream :=
  { stream with requests := stream.requests ++ [item] }

def onIOThread (change : IOThread → IOThread) (stream : RPCStream) :
    RPCStream :=
  { stream with iothr := change stream.iothr }

def crash (stream : RPCStream) : RPCStream := { stream with crashed := true }

/-! ## The I/O thread -/

/-- `io_->Write(*req, GenerateWriteTag(req->msgid()))` and `delete req`. -/
def writeRequest (item : RequestItem) (stream : RPCStream) : RPCStream :=
  let stream := { stream with consumed := item :: stream.consumed }
  match item with
  | .establishRequest => stream.crash
  | .heap _ request =>
      if stream.iothr.io then
        stream.onIOThread fun thread =>
          { thread with
            cq := thread.cq ++ [IOThread.generateWriteTag request.msgid] }
      else stream.crash

/-- The TIMEOUT branch of `IOThread::Run`. -/
def ioTimeout (stream : RPCStream) : RPCStream :=
  if stream.iothr.isSending then stream
  else
    match stream.requests with
    | [] => stream
    | .establishRequest :: rest =>
        { stream with requests := rest }.onIOThread IOThread.openStream
    | .heap id request :: rest =>
        ({ stream with requests := rest }.writeRequest
          (.heap id request)).onIOThread
            fun thread => { thread with isSending := true }

/-- The write branch of `IOThread::HandleEvent`. -/
def writeDone (ok : Bool) (stream : RPCStream) : RPCStream :=
  if ok then
    match stream.requests with
    | [] => stream.onIOThread fun thread => { thread with isSending := false }
    | item :: rest => { stream with requests := rest }.writeRequest item
  else stream

/-- The read branch of `IOThread::HandleEvent`.  A failed read goes on in
`ioDrain`. -/
def readDone (ok : Bool) (tag : ℕ) (reply : Reply) (stream : RPCStream) :
    RPCStream :=
  let replyWork := stream.iothr.replyWork
  let stream := stream.onIOThread fun thread =>
    { thread with replyWork := false }
  if ok then
    let item : ReplyItem :=
      if replyWork then .reply reply else .establishedEvent
    (stream.pushReply item).onIOThread fun thread =>
      { thread with
        replyWork := true
        cq := thread.cq ++
          [IOThread.generateReadTag thread.connectSequenceNum] }
  else if stream.iothr.sendingShutdown then
    stream.onIOThread fun thread => { thread with cqShutdown := true }
  else
    stream.onIOThread fun thread =>
      { thread with
        running := .drainRequestQueue
          (IOThread.connectSequenceFromReadTag tag) }

/-- `IOThread::HandleEvent`. -/
def handleEvent (ok : Bool) (tag : ℕ) (reply : Reply) (stream : RPCStream) :
    RPCStream :=
  if IOThread.isWriteOperation tag then stream.writeDone ok
  else if IOThread.isReadOperation tag then stream.readDone ok tag reply
  else if IOThread.isCloseOperation tag then
    stream.onIOThread fun thread => { thread with alive := false }
  else stream

/-- `delete drain_req`. -/
def deleteRequest (item : RequestItem) (stream : RPCStream) : RPCStream :=
  let stream := { stream with consumed := item :: stream.consumed }
  match item with
  | .establishRequest => stream.crash
  | .heap id _ => { stream with drained := id :: stream.drained }

/-- One iteration of `DrainRequestQueue` on the I/O thread, and what
`HandleEvent` does after it. -/
def ioDrain (seq : ℕ) (stream : RPCStream) : RPCStream :=
  match stream.requests with
  | item :: rest => { stream with requests := rest }.deleteRequest item
  | [] =>
      let stream := stream.onIOThread fun thread =>
        { thread with running := .run }
      if stream.iothr.connectSequenceNum = seq then
        stream.pushReply .disconnectEvent
      else stream

/-! ## Callbacks and calls -/

/-- `SEntry::Respond` for an entry, with what the delegate's `OnOpenStream`
returns when the callback is the one of `StartWrite`. -/
def respond (entry : SEntry) (outcome : Outcome) (onOpenStream : Bool)
    (stream : RPCStream) : RPCStream :=
  let stream := { stream with invoked := (entry.call, outcome) :: stream.invoked }
  match entry.cb with
  | .user => stream
  | .startWrite =>
      if 0 ≤ outcome.result ∧ onOpenStream then
        { stream with status := .connect }
      else stream.pushReply .disconnectEvent

def newMsgId (seed : ℕ) : ℕ :=
  if seed + 1 ≥ 2000000000 then 1 else seed + 1

/-- The status check of `Call`. -/
def callBegin (request : Request) (stream : RPCStream) : RPCStream :=
  let call := stream.next
  let stream := { stream with next := stream.next + 1 }
  if stream.status.value < NetworkStatus.established.value then
    { stream with invoked := (call, .notConnectError) :: stream.invoked }
  else
    { stream with calling := stream.calling.assign call (.checked request) }

/-- `NewMsgId`, `new SEntry(cb)` and `set_msgid`. -/
def callNumber (call : CallId) (request : Request) (now : ℕ)
    (stream : RPCStream) : RPCStream :=
  let msgid := newMsgId stream.msgidSeed
  { stream with
    msgidSeed := msgid
    calling := stream.calling.assign call
      (.numbered { request with msgid } now) }

/-- `requests_.enqueue(msg)`. -/
def callEnqueue (call : CallId) (request : Request) (startAt : ℕ)
    (stream : RPCStream) : RPCStream :=
  { stream with
    issued := (call, request.msgid) :: stream.issued
    calling := stream.calling.assign call (.enqueued request.msgid startAt)
  }.enqueueRequest (.heap call request)

/-- `reqmap_[msgid] = ent` under `reqmtx_`. -/
def callInsert (call : CallId) (msgid startAt : ℕ) (stream : RPCStream) :
    RPCStream :=
  { stream with
    reqmap := stream.reqmap.assign msgid { startAt, call, cb := .user }
    inserted := call :: stream.inserted
    calling := stream.calling.erase call }

/-- `StartWrite`, with the payload `Codec::Pack` makes of what the delegate's
`AddPayload` fills in.  The status is INITIALIZING, so the check of `Call`
passes, and the polling thread is the only one to look for the entry. -/
def startWrite (payload : Bytes) (now : ℕ) (stream : RPCStream) : RPCStream :=
  let call := stream.next
  let msgid := newMsgId stream.msgidSeed
  { stream with
    next := stream.next + 1
    msgidSeed := msgid
    issued := (call, msgid) :: stream.issued
    reqmap := stream.reqmap.assign msgid
      { startAt := now, call, cb := .startWrite }
    inserted := call :: stream.inserted
  }.enqueueRequest
    (.heap call { type := 0, msgid, kind := .connect, payload })

def shutdownRequest : Request where
  type := 0
  msgid := 0
  kind := .close
  payload := []

def sendShutdownRequest (stream : RPCStream) : RPCStream :=
  { stream with next := stream.next + 1 }.enqueueRequest
    (.heap stream.next shutdownRequest)

/-- The two statements of `RPCStream::Release`. -/
def release (stream : RPCStream) : RPCStream :=
  { stream with restarting := true, releasing := stream.releasing + 1 }

def releaseEnqueue (stream : RPCStream) : RPCStream :=
  { stream with releasing := stream.releasing - 1 }.pushReply .disconnectEvent

/-! ## The polling thread -/

/-- What a step of `Update` gets from outside: the delegate's answers and the
clock. -/
structure UpdateInput where
  ready : Bool
  onOpenStream : Bool
  onCloseStream : ℕ
  addPayload : Bytes
  now : ℕ
  deriving DecidableEq, Repr

/-- One iteration of `ProcessReply` for a reply that is no event. -/
def processReply (reply : Reply) (onOpenStream : Bool) (stream : RPCStream) :
    RPCStream :=
  if stream.restarting then stream
  else if reply.msgid = 0 then
    { stream with notified := reply :: stream.notified }
  else
    match stream.reqmap.find? reply.msgid with
    | none => stream
    | some entry =>
        { stream with
          reqmap := stream.reqmap.erase reply.msgid
        }.respond entry (.replied reply) onOpenStream

/-- The entries `ProcessTimeout` removes, in the order of their keys. -/
def expired (now : ℕ) (stream : RPCStream) : List (ℕ × SEntry) :=
  stream.reqmap.entries.filter fun entry =>
    (entry.2.startAt + timeoutDuration) % 2 ^ 64 < now

def processTimeout (now : ℕ) (onOpenStream : Bool) (stream : RPCStream) :
    RPCStream :=
  let entries := stream.expired now
  (entries.map Prod.snd).foldl
    (fun stream entry => stream.respond entry .timeoutError onOpenStream)
    { stream with
      reqmap := (entries.map Prod.fst).foldl OrdMap.erase stream.reqmap }

/-- The end of `DrainQueue`, under `reqmtx_`. -/
def clearReqmap (stream : RPCStream) : RPCStream :=
  { stream with
    drained := stream.reqmap.entries.map (fun entry => entry.2.call) ++
      stream.drained
    reqmap := .empty }

/-- What the caller of `DrainQueue` does next. -/
def settle (reason : DrainReason) (input : UpdateInput) (stream : RPCStream) :
    RPCStream :=
  match reason with
  | .notReady => { stream with restarting := true, status := .disconnect }
  | .disconnectEvent =>
      { stream with
        status := .disconnect
        reconnectWhen := (input.now + input.onCloseStream) % 2 ^ 64 }
  | .establishedEvent =>
      { stream with
        reconnectAttempt := 0
        reconnectWhen := 0
        restarting := false
        status := .established }

/-- The `switch` of `Update`. -/
def switchStatus (input : UpdateInput) (stream : RPCStream) : RPCStream :=
  match stream.status with
  | .disconnect =>
      if input.ready = false ∨ stream.reconnectWhen > input.now then
        { stream with updating := .start }
      else
        ({ stream with
          status := .connecting
          reconnectAttempt := stream.reconnectAttempt + 1
          updating := .start
        }.enqueueRequest .establishRequest).onIOThread
          fun thread => { thread with joinable := true }
  | .connecting => { stream with updating := .start }
  | .established =>
      { stream with
        status := .initializing
        updating := .processTimeout input.now
      }.startWrite input.addPayload input.now
  | .initializing | .connect =>
      { stream with updating := .processTimeout input.now }

/-- One step of `Update`. -/
def update (input : UpdateInput) (stream : RPCStream) : Option RPCStream :=
  match stream.updating with
  | .start =>
      if input.ready then some { stream with updating := .processReply }
      else some { stream with updating := .drainReplys .notReady }
  | .processReply =>
      match stream.replys with
      | [] => some { stream with updating := .switch }
      | .disconnectEvent :: rest =>
          some { stream with
            replys := rest
            updating := .drainReplys .disconnectEvent }
      | .establishedEvent :: rest =>
          some { stream with
            replys := rest
            updating := .drainReplys .establishedEvent }
      | .reply reply :: rest =>
          some ({ stream with replys := rest }.processReply reply
            input.onOpenStream)
  | .drainReplys reason =>
      match stream.replys with
      | [] => some { stream with updating := .drainRequests reason }
      | _ :: rest => some { stream with replys := rest }
  | .drainRequests reason =>
      match stream.requests with
      | [] => some { stream with updating := .drainReqmap reason }
      | item :: rest =>
          some ({ stream with requests := rest }.deleteRequest item)
  | .drainReqmap reason =>
      some ({ stream with updating := .switch }.clearReqmap.settle reason input)
  | .switch => some (stream.switchStatus input)
  | .processTimeout now =>
      some ({ stream with updating := .start }.processTimeout now
        input.onOpenStream)
  | .stop => none

/-- `IOThread::Stop` up to its wait, called between two updates. -/
def stop (stream : RPCStream) : RPCStream :=
  let stream := { stream with updating := .stop }
  if stream.iothr.joinable then
    let stream := stream.onIOThread fun thread =>
      { thread with sendingShutdown := true }
    if stream.status.value ≥ NetworkStatus.connecting.value then
      stream.sendShutdownRequest
    else
      stream.onIOThread fun thread => { thread with cqShutdown := true }
  else stream

/-! ## The system -/

inductive Action where
  /-- `mtk_conn_reset`, on any thread. -/
  | release
  | releaseEnqueue
  /-- An application thread enters `Call`. -/
  | callBegin (request : Request)
  | callNumber (call : CallId) (now : ℕ)
  | callEnqueue (call : CallId)
  | callInsert (call : CallId)
  /-- The polling thread takes a step of `Update`. -/
  | update (input : UpdateInput)
  | stop
  /-- `Stop` has waited two seconds for the I/O thread. -/
  | stopTimeout
  /-- `AsyncNext` returns TIMEOUT. -/
  | ioTimeout
  /-- `AsyncNext` returns the operation at this place of the completion queue;
  a read has received `reply`. -/
  | ioEvent (index : ℕ) (ok : Bool) (reply : Reply)
  /-- `AsyncNext` returns SHUTDOWN. -/
  | ioShutdown
  | ioDrain
  deriving DecidableEq, Repr

/-- The I/O thread is about to call `AsyncNext`. -/
def Waiting (stream : RPCStream) : Prop :=
  stream.iothr.joinable ∧ stream.iothr.alive ∧ stream.iothr.running = .run

instance (stream : RPCStream) : Decidable stream.Waiting :=
  inferInstanceAs (Decidable (_ ∧ _ ∧ _))

/-- What an action does while the process is running. -/
def act (stream : RPCStream) : Action → Option RPCStream
  | .release => some stream.release
  | .releaseEnqueue =>
      if stream.releasing = 0 then none else some stream.releaseEnqueue
  | .callBegin request => some (stream.callBegin request)
  | .callNumber call now =>
      match stream.calling.find? call with
      | some (.checked request) => some (stream.callNumber call request now)
      | _ => none
  | .callEnqueue call =>
      match stream.calling.find? call with
      | some (.numbered request startAt) =>
          some (stream.callEnqueue call request startAt)
      | _ => none
  | .callInsert call =>
      match stream.calling.find? call with
      | some (.enqueued msgid startAt) =>
          some (stream.callInsert call msgid startAt)
      | _ => none
  | .update input => stream.update input
  | .stop => if stream.updating = .start then some stream.stop else none
  | .stopTimeout =>
      if stream.updating = .stop ∧ stream.iothr.joinable ∧
          stream.status.value ≥ NetworkStatus.connecting.value ∧
          stream.iothr.alive then
        some (stream.onIOThread fun thread =>
          { thread with cqShutdown := true, alive := false })
      else none
  | .ioTimeout => if stream.Waiting then some stream.ioTimeout else none
  | .ioEvent index ok reply =>
      match stream.iothr.cq[index]? with
      | none => none
      | some tag =>
          if stream.Waiting then
            some ((stream.onIOThread fun thread =>
              { thread with cq := thread.cq.eraseIdx index }).handleEvent
                ok tag reply)
          else none
  | .ioShutdown =>
      if stream.Waiting ∧ stream.iothr.cqShutdown ∧ stream.iothr.cq = [] then
        some (stream.onIOThread fun thread => { thread with alive := false })
      else none
  | .ioDrain =>
      match stream.iothr.running with
      | .run => none
      | .drainRequestQueue seq => some (stream.ioDrain seq)

def step (stream : RPCStream) (action : Action) : Option RPCStream :=
  if stream.crashed then none else stream.act action

theorem step_eq_some {stream next : RPCStream} {action : Action} :
    stream.step action = some next ↔
      stream.crashed = false ∧ stream.act action = some next := by
  unfold step
  cases stream.crashed <;> simp

end RPCStream

end GrpcMtk
