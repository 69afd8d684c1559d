import Mathlib.Data.List.InsertIdx
import GrpcMtk.Client.Steps

/-!
# Recognising establishment

A read tag tells neither the start of a stream from a read nor one read from
another: `HandleEvent` takes a completion for the start of a stream if
`reply_work_` is null.  Here the operations that are not completed are recorded
beside the client, each with what it was started for, and the Replies that
`reply_work_` has pointed to are numbered.
-/

namespace GrpcMtk

open GrpcMtk.Proto
open GrpcMtk.Runs

/-- An operation on the completion queue: the start of the stream of an `Open`,
a read into a Reply, or a write. -/
inductive Operation where
  | start (opened : ℕ)
  | read (buffer : ℕ)
  | write
  deriving DecidableEq, Repr

/-- The operations behind the tags of the completion queue, how often `Open`
was called, the Reply that `reply_work_` points to, and how many Replies there
were. -/
structure Operations where
  pending : List Operation
  opened : ℕ
  buffer : Option ℕ
  buffers : ℕ
  deriving DecidableEq, Repr

namespace Operations

def begin (operation : Operation) (operations : Operations) : Operations :=
  { operations with pending := operations.pending ++ [operation] }

/-- `IOThread::Open`. -/
def openStream (operations : Operations) : Operations :=
  { operations with opened := operations.opened + 1 }.begin
    (.start (operations.opened + 1))

/-- `reply_work_.reset(new Reply())` and the read into it. -/
def readNext (operations : Operations) : Operations :=
  { operations with
    buffer := some operations.buffers
    buffers := operations.buffers + 1
  }.begin (.read operations.buffers)

/-- `io_->Write`, unless `io_` is null. -/
def write (io : Bool) (operations : Operations) : Operations :=
  if io then operations.begin .write else operations

/-- The start of a stream or a read. -/
def reading (operations : Operations) : List Operation :=
  operations.pending.filter fun operation => operation ≠ .write

end Operations

/-- A client with its operations. -/
structure Tracked where
  stream : RPCStream
  operations : Operations

namespace Tracked

def new : Tracked where
  stream := .new
  operations := { pending := [], opened := 0, buffer := none, buffers := 0 }

/-- What the TIMEOUT branch of `Run` starts. -/
def timeoutOperations (tracked : Tracked) : Operations :=
  if tracked.stream.iothr.isSending then tracked.operations
  else
    match tracked.stream.requests with
    | [] => tracked.operations
    | .establishRequest :: _ => tracked.operations.openStream
    | .heap _ _ :: _ => tracked.operations.write tracked.stream.iothr.io

/-- What `HandleEvent` starts and releases. -/
def eventOperations (tracked : Tracked) (index : ℕ) (ok : Bool) (tag : ℕ) :
    Operations :=
  let operations : Operations :=
    { tracked.operations with
      pending := tracked.operations.pending.eraseIdx index }
  if IOThread.isWriteOperation tag then
    if ok then
      match tracked.stream.requests with
      | [] => operations
      | .establishRequest :: _ => operations
      | .heap _ _ :: _ => operations.write tracked.stream.iothr.io
    else operations
  else if IOThread.isReadOperation tag then
    if ok then operations.readNext
    else { operations with buffer := none }
  else operations

/-- The operations behind an action. -/
def operationsAfter (tracked : Tracked) : RPCStream.Action → Operations
  | .ioTimeout => tracked.timeoutOperations
  | .ioEvent index ok _ =>
      match tracked.stream.iothr.cq[index]? with
      | none => tracked.operations
      | some tag => tracked.eventOperations index ok tag
  | _ => tracked.operations

def step (tracked : Tracked) (action : RPCStream.Action) : Option Tracked :=
  (tracked.stream.step action).map fun stream =>
    { stream, operations := tracked.operationsAfter action }

/-- The operations are recorded beside every run of the client. -/
theorem exec_stream (tracked : Tracked) (actions : List RPCStream.Action) :
    (exec step tracked actions).map stream =
      exec RPCStream.step tracked.stream actions := by
  apply exec_erase
  intro tracked action
  rw [step, Option.map_map]
  exact Option.map_id_apply

/-! ## What is recognised -/

/-- What an action has put into `replys_`. -/
def pushed (tracked next : Tracked) : List ReplyItem :=
  next.stream.replys.drop tracked.stream.replys.length

def isReply : ReplyItem → Bool
  | .reply _ => true
  | _ => false

/-- The completion is that of the start of the newest stream. -/
def StartsNewest (tracked : Tracked) (index : ℕ) : Prop :=
  tracked.operations.pending[index]? = some (.start tracked.operations.opened)

instance (tracked : Tracked) (index : ℕ) :
    Decidable (tracked.StartsNewest index) :=
  inferInstanceAs (Decidable (_ = _))

/-- The completion is that of a read into the Reply that `reply_work_` points
to. -/
def Fills (tracked : Tracked) (index : ℕ) : Prop :=
  tracked.operations.buffer.map Operation.read =
      tracked.operations.pending[index]? ∧
    tracked.operations.buffer ≠ none

instance (tracked : Tracked) (index : ℕ) : Decidable (tracked.Fills index) :=
  inferInstanceAs (Decidable (_ ∧ _))

/-- An ok completion of the start of the newest stream pushes ESTABLISHED_EVENT
once, nothing else pushes it, and a reply is pushed only by the completion of
the read that filled it. -/
def Recognised (tracked : Tracked) (action : RPCStream.Action)
    (next : Tracked) : Prop :=
  match action with
  | .ioEvent index ok _ =>
      (tracked.pushed next).count .establishedEvent =
          (if ok = true ∧ tracked.StartsNewest index then 1 else 0) ∧
        ((tracked.pushed next).any isReply = true →
          ok = true ∧ tracked.Fills index)
  | _ => ∀ item ∈ next.stream.replys,
      item ∈ tracked.stream.replys ∨ item = .disconnectEvent

/-- An operation that completes with ok is a write, or the start of the newest
stream while `reply_work_` is null, or a read into the Reply that
`reply_work_` points to. -/
def Matched (tracked : Tracked) : RPCStream.Action → Prop
  | .ioEvent index true _ =>
      tracked.StartsNewest index ∧ tracked.operations.buffer = none ∨
        tracked.Fills index ∨
        tracked.operations.pending[index]? = some .write
  | _ => True

/-- `Open` is called while neither a start nor a read is outstanding. -/
def OpensQuietly (tracked : Tracked) (action : RPCStream.Action) : Prop :=
  action = .ioTimeout ∧ tracked.stream.iothr.isSending = false ∧
    tracked.stream.requests.head? = some .establishRequest →
      tracked.operations.reading = []

end Tracked

/-! ## What the steps push and start -/

namespace RPCStream

section Pushes

variable {stream next : RPCStream}

/-- Nothing but DISCONNECT_EVENT is new in the queue. -/
def PushesOnlyDisconnect (stream next : RPCStream) : Prop :=
  ∀ item ∈ next.replys, item ∈ stream.replys ∨ item = .disconnectEvent

theorem pushesOnlyDisconnect_of_subset
    (hreplys : next.replys ⊆ stream.replys) :
    PushesOnlyDisconnect stream next :=
  fun _ hitem => .inl (hreplys hitem)

theorem PushesOnlyDisconnect.trans {middle : RPCStream}
    (hleft : PushesOnlyDisconnect stream middle)
    (hright : PushesOnlyDisconnect middle next) :
    PushesOnlyDisconnect stream next := by
  intro item hitem
  rcases hright item hitem with hmiddle | hevent
  · exact hleft item hmiddle
  · exact .inr hevent

theorem pushesOnlyDisconnect_push (stream : RPCStream) :
    PushesOnlyDisconnect stream (stream.pushReply .disconnectEvent) := by
  intro item hitem
  rcases List.mem_append.mp hitem with hold | hnew
  · exact .inl hold
  · exact .inr (List.mem_singleton.mp hnew)

theorem pushesOnlyDisconnect_respond (entry : SEntry) (outcome : Outcome)
    (onOpenStream : Bool) (stream : RPCStream) :
    PushesOnlyDisconnect stream
      (stream.respond entry outcome onOpenStream) := by
  rw [respond]
  dsimp only
  split
  · exact pushesOnlyDisconnect_of_subset (List.Subset.refl _)
  · split
    · exact pushesOnlyDisconnect_of_subset (List.Subset.refl _)
    · exact pushesOnlyDisconnect_push _

theorem pushesOnlyDisconnect_foldl (entries : List SEntry)
    (outcome : Outcome) (onOpenStream : Bool) (stream : RPCStream) :
    PushesOnlyDisconnect stream
      (entries.foldl (fun stream entry =>
        stream.respond entry outcome onOpenStream) stream) := by
  induction entries generalizing stream with
  | nil => exact pushesOnlyDisconnect_of_subset (List.Subset.refl _)
  | cons entry rest ih =>
      exact (pushesOnlyDisconnect_respond entry outcome onOpenStream
        stream).trans (ih _)

theorem pushesOnlyDisconnect_processReply (reply : Reply)
    (onOpenStream : Bool) (stream : RPCStream) :
    PushesOnlyDisconnect stream (stream.processReply reply onOpenStream) := by
  have hsame := @pushesOnlyDisconnect_of_subset stream stream
    (List.Subset.refl _)
  rw [processReply]
  split
  · exact hsame
  · split
    · exact hsame
    · split
      · exact hsame
      · exact pushesOnlyDisconnect_respond _ _ _ _

theorem pushesOnlyDisconnect_switch (input : UpdateInput)
    (stream : RPCStream) :
    PushesOnlyDisconnect stream (stream.switchStatus input) := by
  apply pushesOnlyDisconnect_of_subset
  rcases switchStatus_eq stream input with ⟨updating, heq⟩ |
    ⟨status, reconnectAttempt, iothr, -, heq⟩ | ⟨-, heq⟩
  all_goals
    rw [heq]
    exact List.Subset.refl _

theorem pushesOnlyDisconnect_update {input : UpdateInput}
    (hupdate : stream.update input = some next) :
    PushesOnlyDisconnect stream next := by
  have hsame : stream.replys ⊆ stream.replys := List.Subset.refl _
  rw [update] at hupdate
  split at hupdate
  case h_1 =>
    split at hupdate <;> obtain rfl := Option.some.inj hupdate <;>
      exact pushesOnlyDisconnect_of_subset hsame
  case h_2 =>
    split at hupdate
    case h_1 =>
      obtain rfl := Option.some.inj hupdate
      exact pushesOnlyDisconnect_of_subset hsame
    case h_4 reply rest hreplys =>
      obtain rfl := Option.some.inj hupdate
      have hrest : PushesOnlyDisconnect stream
          { stream with replys := rest } := by
        apply pushesOnlyDisconnect_of_subset
        rw [hreplys]
        exact List.subset_cons_self _ _
      exact hrest.trans (pushesOnlyDisconnect_processReply _ _ _)
    all_goals
      rename_i rest hreplys
      obtain rfl := Option.some.inj hupdate
      apply pushesOnlyDisconnect_of_subset
      rw [hreplys]
      exact List.subset_cons_self _ _
  case h_3 =>
    split at hupdate
    · obtain rfl := Option.some.inj hupdate
      exact pushesOnlyDisconnect_of_subset hsame
    case h_2 item rest hreplys =>
      obtain rfl := Option.some.inj hupdate
      apply pushesOnlyDisconnect_of_subset
      rw [hreplys]
      exact List.subset_cons_self _ _
  case h_4 =>
    split at hupdate
    · obtain rfl := Option.some.inj hupdate
      exact pushesOnlyDisconnect_of_subset hsame
    case h_2 item rest hrequests =>
      obtain rfl := Option.some.inj hupdate
      obtain ⟨consumed, drained, crashed, heq⟩ :=
        deleteRequest_eq { stream with requests := rest } item
      rw [heq]
      exact pushesOnlyDisconnect_of_subset hsame
  case h_5 reason hupdating =>
    obtain rfl := Option.some.inj hupdate
    obtain ⟨restarting, reconnectWhen, reconnectAttempt, status, heq⟩ :=
      settle_eq { stream with updating := .switch }.clearReqmap reason input
    rw [heq]
    exact pushesOnlyDisconnect_of_subset hsame
  case h_6 =>
    obtain rfl := Option.some.inj hupdate
    exact pushesOnlyDisconnect_switch input stream
  case h_7 now hupdating =>
    obtain rfl := Option.some.inj hupdate
    rw [processTimeout]
    exact pushesOnlyDisconnect_foldl _ _ _ _
  case h_8 => contradiction

/-- The completion queue and `reply_work_` are left alone, and nothing but
DISCONNECT_EVENT is pushed. -/
structure Untouched (stream next : RPCStream) : Prop where
  cq : next.iothr.cq = stream.iothr.cq
  replyWork : next.iothr.replyWork = stream.iothr.replyWork
  pushes : PushesOnlyDisconnect stream next

theorem untouched_update {input : UpdateInput}
    (hupdate : stream.update input = some next) : Untouched stream next := by
  obtain ⟨joinable, -, hiothr⟩ := iothr_of_updated (updated_of_update hupdate)
  refine ⟨?_, ?_, pushesOnlyDisconnect_update hupdate⟩
  all_goals rw [hiothr]

theorem untouched_of_eq (hcq : next.iothr.cq = stream.iothr.cq)
    (hreplyWork : next.iothr.replyWork = stream.iothr.replyWork)
    (hreplys : next.replys = stream.replys) : Untouched stream next where
  cq := hcq
  replyWork := hreplyWork
  pushes := pushesOnlyDisconnect_of_subset (hreplys ▸ List.Subset.refl _)

theorem untouched_stop (stream : RPCStream) :
    Untouched stream stream.stop := by
  rw [stop]
  dsimp only
  split
  · split <;> exact untouched_of_eq rfl rfl rfl
  · exact untouched_of_eq rfl rfl rfl

theorem untouched_ioDrain (seq : ℕ) (stream : RPCStream) :
    Untouched stream (stream.ioDrain seq) := by
  rw [ioDrain]
  split
  case h_1 item rest hrequests =>
    obtain ⟨consumed, drained, crashed, heq⟩ :=
      deleteRequest_eq { stream with requests := rest } item
    rw [heq]
    exact untouched_of_eq rfl rfl rfl
  case h_2 =>
    dsimp only
    split
    · exact ⟨rfl, rfl, pushesOnlyDisconnect_push _⟩
    · exact untouched_of_eq rfl rfl rfl

/-- The TIMEOUT branch of `Run` and `HandleEvent` are the only ones that touch
the completion queue. -/
theorem act_cases {action : Action} (hact : stream.act action = some next) :
    Untouched stream next ∧ action ≠ .ioTimeout ∧
        (∀ index ok reply, action ≠ .ioEvent index ok reply) ∨
      action = .ioTimeout ∧ next = stream.ioTimeout ∨
      ∃ index ok reply tag, action = .ioEvent index ok reply ∧
        stream.iothr.cq[index]? = some tag ∧
        next = stream.takeEvent index ok tag reply := by
  cases did_of_act hact with
  | callBegin request =>
      refine .inl ⟨?_, nofun, nofun⟩
      rcases callBegin_eq stream request with ⟨-, heq⟩ | heq
      all_goals
        rw [heq]
        exact untouched_of_eq rfl rfl rfl
  | update hupdated => exact .inl ⟨untouched_update hact, nofun, nofun⟩
  | releaseEnqueue =>
      exact .inl ⟨⟨rfl, rfl, pushesOnlyDisconnect_push _⟩, nofun, nofun⟩
  | stop => exact .inl ⟨untouched_stop stream, nofun, nofun⟩
  | ioTimeout => exact .inr (.inl ⟨rfl, rfl⟩)
  | @ioEvent index tag ok reply htag =>
      exact .inr (.inr ⟨index, ok, reply, tag, rfl, htag, rfl⟩)
  | ioDrain seq => exact .inl ⟨untouched_ioDrain seq stream, nofun, nofun⟩
  | _ => exact .inl ⟨untouched_of_eq rfl rfl rfl, nofun, nofun⟩

end Pushes

end RPCStream

/-! ## Tags and operations -/

namespace Tracked

/-- The operations are those behind the tags, and the Reply is there if
`reply_work_` is set. -/
structure Tracks (tracked : Tracked) : Prop where
  writes : tracked.operations.pending.map (fun operation =>
      decide (operation = .write)) =
    tracked.stream.iothr.cq.map IOThread.isWriteOperation
  tags : ∀ tag ∈ tracked.stream.iothr.cq,
    IOThread.isWriteOperation tag = true ∨ IOThread.isReadOperation tag = true
  buffer : tracked.operations.buffer.isSome = tracked.stream.iothr.replyWork

section Tracks

variable {tracked next : Tracked}

theorem Tracks.of_eq (htracks : Tracks tracked)
    (hpending : next.operations.pending = tracked.operations.pending)
    (hcq : next.stream.iothr.cq = tracked.stream.iothr.cq)
    (hbuffer : next.operations.buffer.isSome = next.stream.iothr.replyWork) :
    Tracks next where
  writes := by rw [hpending, hcq, htracks.writes]
  tags := by
    rw [hcq]
    exact htracks.tags
  buffer := hbuffer

/-- One operation is started. -/
theorem Tracks.append (htracks : Tracks tracked) {operation : Operation}
    {tag : ℕ}
    (hpending : next.operations.pending =
      tracked.operations.pending ++ [operation])
    (hcq : next.stream.iothr.cq = tracked.stream.iothr.cq ++ [tag])
    (hwrite : decide (operation = .write) = IOThread.isWriteOperation tag)
    (htag : IOThread.isWriteOperation tag = true ∨
      IOThread.isReadOperation tag = true)
    (hbuffer : next.operations.buffer.isSome = next.stream.iothr.replyWork) :
    Tracks next where
  writes := by
    rw [hpending, hcq, List.map_append, List.map_append, htracks.writes,
      List.map_singleton, List.map_singleton, hwrite]
  tags := by
    rw [hcq]
    exact List.forall_mem_append.mpr
      ⟨htracks.tags, List.forall_mem_singleton.mpr htag⟩
  buffer := hbuffer

/-- One operation is delivered. -/
def deliver (index : ℕ) (tracked : Tracked) : Tracked where
  stream := tracked.stream.onIOThread fun thread =>
    { thread with cq := thread.cq.eraseIdx index }
  operations :=
    { tracked.operations with
      pending := tracked.operations.pending.eraseIdx index }

theorem Tracks.deliver (htracks : Tracks tracked) (index : ℕ) :
    Tracks (tracked.deliver index) where
  writes := by
    change (tracked.operations.pending.eraseIdx index).map _ =
      (tracked.stream.iothr.cq.eraseIdx index).map _
    rw [← List.eraseIdx_map, ← List.eraseIdx_map, htracks.writes]
  tags tag htag := htracks.tags tag (List.mem_of_mem_eraseIdx htag)
  buffer := htracks.buffer

theorem isReadOperation_readTag (seq : ℕ) :
    IOThread.isReadOperation (IOThread.generateReadTag seq) = true := by
  apply decide_eq_true
  rw [IOThread.generateReadTag]
  omega

/-- A request is written. -/
theorem Tracks.writeRequest (htracks : Tracks tracked) (id : CallId)
    (request : Request) :
    Tracks
      { stream := tracked.stream.writeRequest (.heap id request)
        operations := tracked.operations.write tracked.stream.iothr.io } := by
  rw [RPCStream.writeRequest, Operations.write]
  dsimp only
  split
  · exact htracks.append rfl rfl
      (IOThread.isWriteOperation_writeTag request.msgid).symm
      (.inl (IOThread.isWriteOperation_writeTag request.msgid)) htracks.buffer
  · exact htracks.of_eq rfl rfl htracks.buffer

theorem Tracks.ioTimeout (htracks : Tracks tracked) :
    Tracks
      { stream := tracked.stream.ioTimeout
        operations := tracked.timeoutOperations } := by
  rw [RPCStream.ioTimeout, timeoutOperations]
  split
  · exact htracks
  · cases hrequests : tracked.stream.requests with
    | nil => exact htracks
    | cons item rest =>
        cases item with
        | establishRequest =>
            exact htracks.append rfl rfl
              (IOThread.isWriteOperation_readTag _).symm
              (.inr (isReadOperation_readTag _)) htracks.buffer
        | heap id request =>
            have hpopped : Tracks
                { stream := { tracked.stream with requests := rest }
                  operations := tracked.operations } :=
              htracks.of_eq rfl rfl htracks.buffer
            have hwritten := hpopped.writeRequest id request
            exact hwritten.of_eq rfl rfl hwritten.buffer

theorem Tracks.takeEvent (htracks : Tracks tracked) {index tag : ℕ}
    (htag : tracked.stream.iothr.cq[index]? = some tag) (ok : Bool)
    (reply : Reply) :
    Tracks
      { stream := tracked.stream.takeEvent index ok tag reply
        operations := tracked.eventOperations index ok tag } := by
  have hdelivered := htracks.deliver index
  rw [RPCStream.takeEvent, RPCStream.handleEvent, eventOperations]
  cases hwrite : IOThread.isWriteOperation tag with
  | true =>
      rw [if_pos rfl, if_pos rfl, RPCStream.writeDone]
      cases ok with
      | false => exact hdelivered
      | true =>
          rw [if_pos rfl]
          dsimp only [RPCStream.onIOThread]
          cases tracked.stream.requests with
          | nil => exact hdelivered.of_eq rfl rfl hdelivered.buffer
          | cons item rest =>
              cases item with
              | establishRequest =>
                  exact hdelivered.of_eq rfl rfl hdelivered.buffer
              | heap id request =>
                  have hpopped : Tracks
                      { tracked.deliver index with
                        stream :=
                          { (tracked.deliver index).stream with
                            requests := rest } } :=
                    hdelivered.of_eq rfl rfl hdelivered.buffer
                  exact hpopped.writeRequest id request
  | false =>
      have hread := (htracks.tags tag (List.mem_of_getElem? htag)).resolve_left
        (by rw [hwrite]; exact Bool.false_ne_true)
      rw [if_neg Bool.false_ne_true, if_neg Bool.false_ne_true, hread,
        if_pos rfl, if_pos rfl, RPCStream.readDone]
      cases ok with
      | true =>
          exact hdelivered.append rfl rfl
            (IOThread.isWriteOperation_readTag _).symm
            (.inr (isReadOperation_readTag _)) rfl
      | false =>
          dsimp only
          rw [if_neg Bool.false_ne_true]
          split <;> exact hdelivered.of_eq rfl rfl rfl

theorem step_eq_some {action : RPCStream.Action} :
    tracked.step action = some next ↔
      tracked.stream.step action = some next.stream ∧
        next.operations = tracked.operationsAfter action := by
  rw [step, Option.map_eq_some_iff]
  constructor
  · rintro ⟨stream, hstream, rfl⟩
    exact ⟨hstream, rfl⟩
  · rintro ⟨hstream, hoperations⟩
    exact ⟨next.stream, hstream, by rw [← hoperations]⟩

theorem operationsAfter_of_elsewhere {action : RPCStream.Action}
    (htimeout : action ≠ .ioTimeout)
    (hevent : ∀ index ok reply, action ≠ .ioEvent index ok reply) :
    tracked.operationsAfter action = tracked.operations := by
  cases action with
  | ioTimeout => exact absurd rfl htimeout
  | ioEvent index ok reply => exact absurd rfl (hevent index ok reply)
  | _ => rfl

theorem operationsAfter_ioEvent {index tag : ℕ}
    (htag : tracked.stream.iothr.cq[index]? = some tag) (ok : Bool)
    (reply : Reply) :
    tracked.operationsAfter (.ioEvent index ok reply) =
      tracked.eventOperations index ok tag := by
  rw [operationsAfter, htag]

theorem Tracks.step {action : RPCStream.Action} (htracks : Tracks tracked)
    (hstep : tracked.step action = some next) : Tracks next := by
  obtain ⟨hstream, hoperations⟩ := step_eq_some.mp hstep
  have hact := (RPCStream.step_eq_some.mp hstream).2
  rcases RPCStream.act_cases hact with ⟨huntouched, htimeout, hevent⟩ |
    ⟨rfl, hnext⟩ | ⟨index, ok, reply, tag, rfl, htag, hnext⟩
  · rw [operationsAfter_of_elsewhere htimeout hevent] at hoperations
    apply htracks.of_eq (congrArg Operations.pending hoperations) huntouched.cq
    rw [hoperations, huntouched.replyWork, htracks.buffer]
  · have hdone := htracks.ioTimeout
    rw [← hnext] at hdone
    exact hdone.of_eq (congrArg Operations.pending hoperations) rfl
      (hoperations ▸ hdone.buffer)
  · have hdone := htracks.takeEvent htag ok reply
    rw [operationsAfter_ioEvent htag ok reply] at hoperations
    rw [← hnext] at hdone
    exact hdone.of_eq (congrArg Operations.pending hoperations) rfl
      (hoperations ▸ hdone.buffer)

theorem tracks_new : Tracks Tracked.new where
  writes := rfl
  tags _ htag := absurd htag List.not_mem_nil
  buffer := rfl

/-- The operation behind a tag. -/
theorem Tracks.operation (htracks : Tracks tracked) {index tag : ℕ}
    (htag : tracked.stream.iothr.cq[index]? = some tag) :
    ∃ operation, tracked.operations.pending[index]? = some operation ∧
      decide (operation = .write) = IOThread.isWriteOperation tag := by
  have hkind := congrArg (fun kinds => kinds[index]?) htracks.writes
  rw [List.getElem?_map, List.getElem?_map, htag, Option.map_some,
    Option.map_eq_some_iff] at hkind
  exact hkind

end Tracks

end Tracked

/-! ## What a completion pushes -/

namespace RPCStream

section Completion

variable {stream : RPCStream} {tag : ℕ}

theorem replys_takeEvent_write (hwrite : IOThread.isWriteOperation tag = true)
    (index : ℕ) (ok : Bool) (reply : Reply) :
    (stream.takeEvent index ok tag reply).replys = stream.replys := by
  rw [takeEvent, handleEvent, if_pos hwrite]
  cases ok with
  | false => rfl
  | true =>
      rw [RPCStream.writeDone, if_pos rfl]
      split
      · rfl
      case h_2 item rest hrequests =>
        obtain ⟨iothr, consumed, crashed, heq⟩ := writeRequest_eq
          { stream.onIOThread fun thread =>
              { thread with cq := thread.cq.eraseIdx index } with
            requests := rest } item
        rw [heq]
        rfl

theorem replys_takeEvent_read (hwrite : IOThread.isWriteOperation tag = false)
    (hread : IOThread.isReadOperation tag = true) (index : ℕ) (ok : Bool)
    (reply : Reply) :
    (stream.takeEvent index ok tag reply).replys =
      if ok then
        stream.replys ++
          [if stream.iothr.replyWork then .reply reply else .establishedEvent]
      else stream.replys := by
  rw [takeEvent, handleEvent, hwrite, if_neg Bool.false_ne_true, if_pos hread,
    readDone]
  cases ok with
  | true => rfl
  | false =>
      dsimp only
      rw [if_neg Bool.false_ne_true]
      split <;> rfl

end Completion

end RPCStream

namespace Tracked

section Recognition

variable {tracked next : Tracked}

theorem fills_iff {index : ℕ} {operation : Operation}
    (hoperation : tracked.operations.pending[index]? = some operation) :
    tracked.Fills index ↔
      ∃ buffer, operation = .read buffer ∧
        tracked.operations.buffer = some buffer := by
  rw [Fills, hoperation]
  cases tracked.operations.buffer with
  | none => simp
  | some buffer => simp [eq_comm]

/-- What is recognised of a completion that pushes nothing. -/
theorem recognised_silent {index : ℕ} {ok : Bool} {reply : Reply}
    (hreplys : next.stream.replys = tracked.stream.replys)
    (hstart : ¬(ok = true ∧ tracked.StartsNewest index)) :
    Recognised tracked (.ioEvent index ok reply) next := by
  rw [Recognised, pushed, hreplys, List.drop_length, if_neg hstart]
  exact ⟨rfl, fun hnone => absurd hnone Bool.false_ne_true⟩

/-- What is recognised of a completion that pushes one item. -/
theorem recognised_push {index : ℕ} {reply : Reply} {item : ReplyItem}
    (hreplys : next.stream.replys = tracked.stream.replys ++ [item]) :
    Recognised tracked (.ioEvent index true reply) next ↔
      (item = .establishedEvent ↔ tracked.StartsNewest index) ∧
        (isReply item = true → tracked.Fills index) := by
  rw [Recognised, pushed, hreplys, List.drop_left, List.count_singleton,
    List.any_cons, List.any_nil, Bool.or_false]
  apply and_congr
  · by_cases hstart : tracked.StartsNewest index
    · simp [hstart]
    · simp [hstart]
  · simp

theorem recognised_completion_iff {index tag : ℕ} {ok : Bool} {reply : Reply}
    (htracks : Tracks tracked)
    (htag : tracked.stream.iothr.cq[index]? = some tag)
    (hnext : next.stream = tracked.stream.takeEvent index ok tag reply) :
    Recognised tracked (.ioEvent index ok reply) next ↔
      Matched tracked (.ioEvent index ok reply) := by
  obtain ⟨operation, hoperation, hkind⟩ := htracks.operation htag
  have hbuffer := htracks.buffer
  cases hwrite : IOThread.isWriteOperation tag with
  | true =>
      rw [hwrite, decide_eq_true_eq] at hkind
      rw [hkind] at hoperation
      have hreplys := @RPCStream.replys_takeEvent_write tracked.stream tag
        hwrite index ok reply
      rw [← hnext] at hreplys
      have hstart : ¬tracked.StartsNewest index := by
        rw [StartsNewest, hoperation]
        nofun
      apply iff_of_true
      · exact recognised_silent hreplys fun h => hstart h.2
      · cases ok with
        | true => exact .inr (.inr hoperation)
        | false => trivial
  | false =>
      rw [hwrite, decide_eq_false_iff_not] at hkind
      have hread := (htracks.tags tag (List.mem_of_getElem? htag)).resolve_left
        (by rw [hwrite]; exact Bool.false_ne_true)
      have hreplys := @RPCStream.replys_takeEvent_read tracked.stream tag
        hwrite hread index ok reply
      rw [← hnext] at hreplys
      have hnowrite :
          ¬tracked.operations.pending[index]? = some .write := by
        rw [hoperation, Option.some.injEq]
        exact hkind
      cases ok with
      | false =>
          exact iff_of_true
            (recognised_silent hreplys fun h => Bool.false_ne_true h.1) trivial
      | true =>
          rw [if_pos rfl] at hreplys
          rw [recognised_push hreplys, Matched]
          cases hset : tracked.stream.iothr.replyWork with
          | true =>
              rw [hset] at hbuffer
              have hsome : tracked.operations.buffer ≠ none := by
                rw [← Option.isSome_iff_ne_none, hbuffer]
              have hother :
                  tracked.Fills index → ¬tracked.StartsNewest index := by
                intro hfills hstarts
                obtain ⟨buffer, rfl, -⟩ := (fills_iff hoperation).mp hfills
                rw [StartsNewest, hoperation] at hstarts
                exact absurd (Option.some.inj hstarts) nofun
              simp only [if_pos, isReply, reduceCtorEq, false_iff, hsome,
                and_false, false_or, hnowrite, or_false, forall_const]
              exact ⟨fun h => h.2, fun h => ⟨hother h, h⟩⟩
          | false =>
              rw [hset] at hbuffer
              have hnone : tracked.operations.buffer = none := by
                rwa [Option.isSome_eq_false_iff, Option.isNone_iff_eq_none]
                  at hbuffer
              have hfills : ¬tracked.Fills index := fun h => h.2 hnone
              simp [isReply, hnone, hfills, hnowrite]

/-- Exactly the matched completions are recognised. -/
theorem recognised_iff {action : RPCStream.Action} (htracks : Tracks tracked)
    (hstep : tracked.step action = some next) :
    Recognised tracked action next ↔ Matched tracked action := by
  obtain ⟨hstream, -⟩ := step_eq_some.mp hstep
  have hact := (RPCStream.step_eq_some.mp hstream).2
  rcases RPCStream.act_cases hact with ⟨huntouched, htimeout, hevent⟩ |
    ⟨rfl, hnext⟩ | ⟨index, ok, reply, tag, rfl, htag, hnext⟩
  · have htrue : Matched tracked action := by
      cases action with
      | ioEvent index ok reply => exact absurd rfl (hevent index ok reply)
      | _ => trivial
    apply iff_of_true _ htrue
    cases action with
    | ioEvent index ok reply => exact absurd rfl (hevent index ok reply)
    | _ => exact huntouched.pushes
  · apply iff_of_true _ trivial
    intro item hitem
    obtain ⟨requests, iothr, consumed, crashed, heq⟩ :=
      RPCStream.ioTimeout_eq tracked.stream
    rw [hnext, heq] at hitem
    exact .inl hitem
  · exact recognised_completion_iff htracks htag hnext

end Recognition

end Tracked

/-! ## Quiet openings -/

section Erasing

variable {Item : Type*} {keep : Item → Bool} {items : List Item}
variable {index : ℕ} {item : Item}

theorem filter_take_drop (hitem : items[index]? = some item) :
    items.filter keep = (items.take index).filter keep ++
      ((if keep item then [item] else []) ++
        (items.drop (index + 1)).filter keep) := by
  obtain ⟨hindex, hget⟩ := List.getElem?_eq_some_iff.mp hitem
  calc items.filter keep
    _ = (items.take index ++ item :: items.drop (index + 1)).filter keep := by
        rw [← hget, List.getElem_cons_drop, List.take_append_drop]
    _ = _ := by
        rw [List.filter_append, List.filter_cons]
        congr 1
        split <;> rfl

theorem filter_eraseIdx : (items.eraseIdx index).filter keep =
    (items.take index).filter keep ++
      (items.drop (index + 1)).filter keep := by
  rw [List.eraseIdx_eq_take_drop_succ, List.filter_append]

theorem filter_eraseIdx_of_dropped (hitem : items[index]? = some item)
    (hkeep : keep item = false) :
    (items.eraseIdx index).filter keep = items.filter keep := by
  rw [filter_eraseIdx, filter_take_drop hitem, hkeep,
    if_neg Bool.false_ne_true, List.nil_append]

theorem filter_eraseIdx_of_single (hitem : items[index]? = some item)
    (hkeep : keep item = true) {other : Item}
    (hsingle : items.filter keep = [other]) :
    (items.eraseIdx index).filter keep = [] := by
  have hlength := congrArg List.length hsingle
  rw [filter_take_drop hitem, hkeep, if_pos rfl, List.length_append,
    List.length_append, List.length_singleton, List.length_singleton]
    at hlength
  rw [filter_eraseIdx, ← List.length_eq_zero_iff, List.length_append]
  omega

end Erasing

namespace Operations

/-- At most one start or read is outstanding: the start of the newest stream,
while `reply_work_` is null, or the read into the Reply it points to. -/
def Quiet (operations : Operations) : Prop :=
  operations.buffer = none ∧
      (operations.reading = [] ∨
        operations.reading = [.start operations.opened]) ∨
    ∃ buffer, operations.buffer = some buffer ∧
      operations.reading = [.read buffer]

section Quiet

variable {operations next : Operations}

theorem mem_reading {index : ℕ} {operation : Operation}
    (hoperation : operations.pending[index]? = some operation)
    (hread : operation ≠ .write) : operation ∈ operations.reading := by
  rw [reading, List.mem_filter]
  exact ⟨List.mem_of_getElem? hoperation, decide_eq_true hread⟩

theorem Quiet.of_eq (hquiet : operations.Quiet)
    (hbuffer : next.buffer = operations.buffer)
    (hopened : next.opened = operations.opened)
    (hreading : next.reading = operations.reading) : next.Quiet := by
  rw [Quiet, hbuffer, hopened, hreading]
  exact hquiet

theorem reading_begin_write (operations : Operations) :
    (operations.begin .write).reading = operations.reading := by
  rw [begin, reading, List.filter_append]
  exact List.append_nil _

theorem reading_begin (operations : Operations) (operation : Operation)
    (hread : operation ≠ .write) :
    (operations.begin operation).reading =
      operations.reading ++ [operation] := by
  rw [begin, reading, List.filter_append, List.filter_singleton,
    decide_eq_true hread]
  rfl

theorem Quiet.write (hquiet : operations.Quiet) (io : Bool) :
    (operations.write io).Quiet := by
  cases io with
  | true => exact hquiet.of_eq rfl rfl (reading_begin_write operations)
  | false => exact hquiet

theorem Quiet.deliverWrite (hquiet : operations.Quiet) {index : ℕ}
    (hoperation : operations.pending[index]? = some .write) :
    { operations with pending := operations.pending.eraseIdx index }.Quiet :=
  hquiet.of_eq rfl rfl
    (filter_eraseIdx_of_dropped hoperation (decide_eq_false (by simp)))

/-- A start or a read is the only one outstanding. -/
theorem Quiet.reading_deliver (hquiet : operations.Quiet) {index : ℕ}
    {operation : Operation}
    (hoperation : operations.pending[index]? = some operation)
    (hread : operation ≠ .write) :
    { operations with
      pending := operations.pending.eraseIdx index }.reading = [] := by
  have hkept := @filter_eraseIdx_of_single _
    (fun operation => decide (operation ≠ .write)) _ _ _ hoperation
    (decide_eq_true hread)
  have hmem := mem_reading hoperation hread
  rcases hquiet with ⟨-, hempty | hstart⟩ | ⟨buffer, -, hread⟩
  · rw [hempty] at hmem
    exact absurd hmem List.not_mem_nil
  · exact hkept hstart
  · exact hkept hread

theorem Quiet.openStream (hquiet : operations.Quiet)
    (hreading : operations.reading = []) : operations.openStream.Quiet := by
  rcases hquiet with ⟨hnone, -⟩ | ⟨buffer, -, hread⟩
  · refine .inl ⟨hnone, .inr ?_⟩
    calc operations.openStream.reading
      _ = operations.reading ++ [.start (operations.opened + 1)] :=
          reading_begin { operations with opened := operations.opened + 1 }
            (.start (operations.opened + 1)) nofun
      _ = [.start (operations.opened + 1)] := by rw [hreading, List.nil_append]
  · rw [hreading] at hread
    exact absurd hread (List.cons_ne_nil _ _).symm

theorem quiet_readNext (hreading : operations.reading = []) :
    operations.readNext.Quiet := by
  refine .inr ⟨operations.buffers, rfl, ?_⟩
  calc operations.readNext.reading
    _ = operations.reading ++ [.read operations.buffers] :=
        reading_begin { operations with
          buffer := some operations.buffers
          buffers := operations.buffers + 1 } (.read operations.buffers) nofun
    _ = [.read operations.buffers] := by rw [hreading, List.nil_append]

end Quiet

end Operations

namespace Tracked

section Quiet

variable {tracked next : Tracked}

theorem matched_of_quiet (hquiet : tracked.operations.Quiet)
    (htracks : Tracks tracked) {index tag : ℕ}
    (htag : tracked.stream.iothr.cq[index]? = some tag) (ok : Bool)
    (reply : Reply) : Matched tracked (.ioEvent index ok reply) := by
  cases ok with
  | false => trivial
  | true =>
      obtain ⟨operation, hoperation, -⟩ := htracks.operation htag
      by_cases hwrite : operation = .write
      · exact .inr (.inr (hwrite ▸ hoperation))
      · have hmem := Operations.mem_reading hoperation hwrite
        rcases hquiet with ⟨hnone, hempty | hstart⟩ | ⟨buffer, hsome, hread⟩
        · rw [hempty] at hmem
          exact absurd hmem List.not_mem_nil
        · rw [hstart, List.mem_singleton] at hmem
          rw [hmem] at hoperation
          exact .inl ⟨hoperation, hnone⟩
        · rw [hread, List.mem_singleton] at hmem
          exact .inr (.inl ((fills_iff hoperation).mpr ⟨buffer, hmem, hsome⟩))

theorem quiet_timeoutOperations (hquiet : tracked.operations.Quiet)
    (hopens : OpensQuietly tracked .ioTimeout) :
    tracked.timeoutOperations.Quiet := by
  rw [timeoutOperations]
  split
  · exact hquiet
  case isFalse hsending =>
    split
    · exact hquiet
    case h_2 rest hrequests =>
      refine hquiet.openStream (hopens ⟨rfl, ?_, ?_⟩)
      · exact Bool.eq_false_iff.mpr hsending
      · rw [hrequests, List.head?_cons]
    · exact hquiet.write _

theorem quiet_eventOperations (hquiet : tracked.operations.Quiet)
    (htracks : Tracks tracked) {index tag : ℕ}
    (htag : tracked.stream.iothr.cq[index]? = some tag) (ok : Bool) :
    (tracked.eventOperations index ok tag).Quiet := by
  obtain ⟨operation, hoperation, hkind⟩ := htracks.operation htag
  rw [eventOperations]
  cases hwrite : IOThread.isWriteOperation tag with
  | true =>
      rw [hwrite, decide_eq_true_eq] at hkind
      rw [hkind] at hoperation
      have hdelivered := hquiet.deliverWrite hoperation
      rw [if_pos rfl]
      split
      · split
        · exact hdelivered
        · exact hdelivered
        · exact hdelivered.write _
      · exact hdelivered
  | false =>
      rw [hwrite, decide_eq_false_iff_not] at hkind
      have hread := (htracks.tags tag (List.mem_of_getElem? htag)).resolve_left
        (by rw [hwrite]; exact Bool.false_ne_true)
      have hreading := hquiet.reading_deliver hoperation hkind
      rw [if_neg Bool.false_ne_true, hread, if_pos rfl]
      split
      · exact Operations.quiet_readNext hreading
      · exact .inl ⟨rfl, .inl hreading⟩

theorem quiet_step {action : RPCStream.Action}
    (hquiet : tracked.operations.Quiet) (htracks : Tracks tracked)
    (hopens : OpensQuietly tracked action)
    (hstep : tracked.step action = some next) : next.operations.Quiet := by
  obtain ⟨hstream, hoperations⟩ := step_eq_some.mp hstep
  have hact := (RPCStream.step_eq_some.mp hstream).2
  rw [hoperations]
  rcases RPCStream.act_cases hact with ⟨-, htimeout, hevent⟩ |
    ⟨rfl, -⟩ | ⟨index, ok, reply, tag, rfl, htag, -⟩
  · rw [operationsAfter_of_elsewhere htimeout hevent]
    exact hquiet
  · exact quiet_timeoutOperations hquiet hopens
  · rw [operationsAfter_ioEvent htag ok reply]
    exact quiet_eventOperations hquiet htracks htag ok

theorem matched_step {action : RPCStream.Action}
    (hquiet : tracked.operations.Quiet) (htracks : Tracks tracked)
    (hstep : tracked.step action = some next) : Matched tracked action := by
  have hact := (RPCStream.step_eq_some.mp (step_eq_some.mp hstep).1).2
  cases action with
  | ioEvent index ok reply =>
      rcases RPCStream.act_cases hact with ⟨-, -, hevent⟩ | ⟨hother, -⟩ |
        ⟨index', ok', reply', tag, heq, htag, -⟩
      · exact absurd rfl (hevent index ok reply)
      · exact absurd hother nofun
      · cases heq
        exact matched_of_quiet hquiet htracks htag ok reply
  | _ => trivial

end Quiet

/-! ## Runs -/

instance (tracked : Tracked) (action : RPCStream.Action) (next : Tracked) :
    Decidable (Recognised tracked action next) :=
  match action with
  | .ioEvent _ _ _ => inferInstanceAs (Decidable (_ ∧ (_ → _)))
  | .release | .releaseEnqueue | .callBegin _ | .callNumber _ _
  | .callEnqueue _ | .callInsert _ | .update _ | .stop | .stopTimeout
  | .ioTimeout | .ioShutdown | .ioDrain =>
      inferInstanceAs (Decidable (∀ item ∈ next.stream.replys, _ ∨ _))

/-- The operations are tracked and quiet. -/
structure QuietlyTracked (tracked : Tracked) : Prop where
  tracks : Tracks tracked
  quiet : tracked.operations.Quiet

theorem quietlyTracked_new : QuietlyTracked Tracked.new where
  tracks := tracks_new
  quiet := .inl ⟨rfl, .inl rfl⟩

/-- A run recognises establishment at exactly the matched completions, and
they are all matched if every `Open` finds neither a start nor a read
outstanding. -/
theorem establishment_recognised_iff (actions : List RPCStream.Action) :
    (AllSteps step Recognised new actions ↔
      AllSteps step (fun tracked action _ => Matched tracked action) new
        actions) ∧
      (AllSteps step (fun tracked action _ => OpensQuietly tracked action) new
        actions → AllSteps step Recognised new actions) := by
  constructor
  · exact allSteps_iff_of_invariant
      (fun _ _ _ htracks hstep _ => Tracks.step htracks hstep)
      (fun _ _ _ htracks hstep => recognised_iff htracks hstep) tracks_new
      actions
  · intro hopens
    refine hopens.of_invariant ?_ ?_ quietlyTracked_new
    · intro tracked action next hquietly hstep hopen
      exact ⟨hquietly.tracks.step hstep,
        quiet_step hquietly.quiet hquietly.tracks hopen hstep⟩
    · intro tracked action next hquietly hstep hopen
      rw [recognised_iff hquietly.tracks hstep]
      exact matched_step hquietly.quiet hquietly.tracks hstep

private def updated : RPCStream.UpdateInput where
  ready := true
  onOpenStream := true
  onCloseStream := 0
  addPayload := []
  now := 1

private def noContent : Reply :=
  { type := 0, msgid := 0, error := none, payload := [] }

/-- The application resets an established stream, whose read is still
outstanding when the start of the next one completes. -/
private def staleRead : List RPCStream.Action :=
  List.replicate 3 (.update updated) ++
    [.ioTimeout, .ioEvent 0 true noContent] ++
      List.replicate 7 (.update updated) ++ [.release, .releaseEnqueue] ++
        List.replicate 7 (.update updated) ++
          [.ioTimeout, .ioEvent 1 true noContent]

/-- The Reply of the stale read, which nothing has filled, is pushed in place of
ESTABLISHED_EVENT. -/
theorem establishment_recognised_fails_at_stale_read :
    ¬AllSteps step Recognised new staleRead := by
  decide

end Tracked

end GrpcMtk
