import Mathlib.Data.List.Forall2
import GrpcMtk.Core.Runs
import GrpcMtk.Http.Cutting
import GrpcMtk.Http.Response

/-!
# Serving a connection

`HttpServContext` reads a request from its socket, lets the callback of its
listener write the response into the buffer it has read into, writes that
buffer and closes.  Each completion of a read or a write starts the next
operation or deletes the object.  A read delivers any number of non-empty
slices; a byte written outside the parser's buffer, and a callback with
undefined behaviour, end the run.
-/

namespace GrpcMtk.Http

open GrpcMtk.Proto
open GrpcMtk.Runs

/-- A call of `IResponseWriter`. -/
inductive WriterCall where
  | writeHeader (rc : Int32) (headers : List HttpHeader)
  | writeBody (body : Bytes)
  | writeResponse (body : Bytes)

/-- What the callback writes for a request; `none` where its behaviour is
undefined. -/
abbrev Callback := HttpFSM → Option (List WriterCall)

/-- What the stack holds at the calls of `MemFmt`, for each call of the
writer. -/
abbrev Frames := ℕ → ℕ → ℕ → UInt8

def writeCall (stack : ℕ → ℕ → UInt8) (buffer : List Slice) :
    WriterCall → List Slice
  | .writeHeader rc headers => writeHeader stack rc headers buffer
  | .writeBody body => writeBody body buffer
  | .writeResponse body => writeResponse stack body buffer

/-- The calls of a callback from the `turn`-th on. -/
def writeCalls (frames : Frames) :
    ℕ → List WriterCall → List Slice → List Slice
  | _, [], buffer => buffer
  | turn, call :: rest, buffer =>
      writeCalls frames (turn + 1) rest (writeCall (frames turn) buffer call)

/-- The header lines of a call fit into the buffers they are formatted into,
and there is one. -/
def WriterCall.Fits : WriterCall → Prop
  | .writeHeader _ headers => headers ≠ [] ∧ LinesFit headers
  | .writeBody _ => True
  | .writeResponse body => body.length < 2 ^ 64

def WriterCall.bytes : WriterCall → Bytes
  | .writeHeader rc headers => responseHead rc headers
  | .writeBody body => body
  | .writeResponse body => responseHead 200 [lengthHeader body.length] ++ body

/-- The calls that fit are written one behind the other. -/
theorem bufferBytes_writeCalls (frames : Frames) {turn : ℕ}
    {calls : List WriterCall} (hfits : ∀ call ∈ calls, call.Fits)
    (buffer : List Slice) :
    bufferBytes (writeCalls frames turn calls buffer) =
      bufferBytes buffer ++ calls.flatMap WriterCall.bytes := by
  induction calls generalizing turn buffer with
  | nil => exact (List.append_nil _).symm
  | cons call rest ih =>
      obtain ⟨hcall, hrest⟩ := List.forall_mem_cons.mp hfits
      rw [writeCalls, ih hrest, List.flatMap_cons, ← List.append_assoc]
      congr 1
      cases call with
      | writeHeader rc headers =>
          have hbody := (@serialises_of_fits (frames turn) rc headers hcall.1
            hcall.2 buffer).body []
          rw [List.append_nil] at hbody
          rw [← WriterCall.bytes.eq_1] at hbody
          refine Eq.trans ?_ hbody
          rw [writeBody, bufferBytes, bufferBytes, List.flatMap_append]
          exact (List.append_nil _).symm
      | writeBody body =>
          rw [writeCall, writeBody, bufferBytes, List.flatMap_append,
            List.flatMap_singleton]
          rfl
      | writeResponse body =>
          rw [writeCall, bufferBytes_writeResponse _ hcall,
            List.append_assoc]
          rfl

/-- `HttpServContext`.  `reading` and `writing` count the operations started
on the endpoint and not completed, `closes` and `deletes` the calls of `Close`
and the executions of `delete this`.  `received` lists the slices read,
`requests` the parser at each call of the callback and `responses` the buffer
at each start of a write. -/
structure HttpServContext where
  fsm : HttpFSM
  buffer : List Slice
  reading : ℕ
  writing : ℕ
  closes : ℕ
  deletes : ℕ
  received : List Bytes
  requests : List HttpFSM
  responses : List (List Slice)

namespace HttpServContext

def chunkSize : ℕ := 512

/-- `Read`. -/
def read (context : HttpServContext) : HttpServContext :=
  { context with reading := context.reading + 1 }

/-- `Write`. -/
def write (context : HttpServContext) : HttpServContext :=
  { context with
    writing := context.writing + 1
    responses := context.responses ++ [context.buffer] }

/-- `Close` and `delete this`. -/
def close (context : HttpServContext) : HttpServContext :=
  { context with
    closes := context.closes + 1
    deletes := context.deletes + 1 }

/-- What `OnAccept` makes of a new endpoint: the constructor, with the content
of the memory it runs in, and the first `Read`. -/
def accept (memory : ℕ → UInt8) (fsm : HttpFSM) : HttpServContext :=
  read
    { fsm := fsm.reset chunkSize memory
      buffer := []
      reading := 0
      writing := 0
      closes := 0
      deletes := 0
      received := []
      requests := []
      responses := [] }

/-- The states in which `OnRead` goes on. -/
def Reads (state : State) : Prop :=
  state = .recvHeader ∨ state = .recvBody ∨ state = .recvBodyNochunk ∨
    state = .recvBodylen ∨ state = .recvFooter ∨ state = .recvComment

instance (state : State) : Decidable (Reads state) :=
  inferInstanceAs (Decidable (_ ∨ _))

/-- The loop of `OnRead` over the slices. -/
def takeSlices (context : HttpServContext) : HttpServContext :=
  { context with
    fsm := context.fsm.appendAll (context.buffer.map Slice.bytes)
    buffer := [] }

/-- The callback is called and the write is started. -/
def answer (frames : Frames) (calls : List WriterCall)
    (context : HttpServContext) : HttpServContext :=
  { context with
    requests := context.requests ++ [context.fsm]
    buffer := writeCalls frames 0 calls context.buffer }.write

/-- `OnRead` without an error. -/
def onRead (cb : Callback) (frames : Frames) (context : HttpServContext) :
    Option HttpServContext :=
  if Reads context.fsm.state then
    let context := context.takeSlices
    if context.fsm.state = .recvFinish then
      (cb context.fsm).map fun calls => context.answer frames calls
    else some context.read
  else some context.close

inductive Action where
  /-- A read completes with these slices. -/
  | read (slices : List Bytes) (frames : Frames)
  | readFailed
  /-- A write completes, with or without an error. -/
  | written

/-- A read has completed and filled the buffer. -/
def load (slices : List Bytes) (context : HttpServContext) :
    HttpServContext :=
  { context with
    reading := context.reading - 1
    received := context.received ++ slices
    buffer := slices.map memDupe }

def step (cb : Callback) (context : HttpServContext) :
    Action → Option HttpServContext
  | .read slices frames =>
      if context.reading ≠ 0 ∧ [] ∉ slices ∧
          ∀ stored ∈ context.fsm.storesAll slices, stored.InBounds then
        (context.load slices).onRead cb frames
      else none
  | .readFailed =>
      if context.reading = 0 then none
      else some { context with reading := context.reading - 1 }.close
  | .written =>
      if context.writing = 0 then none
      else some { context with writing := context.writing - 1 }.close

/-! ## The received bytes -/

/-- The parser of a connection shows what the received bytes are parsed to;
behind a handshake it may have stored some of the bytes that follow. -/
def Follows (base fsm : HttpFSM) : Prop :=
  fsm = base ∨
    base.state = .websocketEstablish ∧ fsm.state = .websocketEstablish

section Following

variable {base fsm : HttpFSM}

theorem Follows.state (hfollows : Follows base fsm) :
    fsm.state = base.state := by
  rcases hfollows with rfl | ⟨hbase, hfsm⟩
  · rfl
  · rw [hbase, hfsm]

theorem Follows.eq_of_finish (hfollows : Follows base fsm)
    (hfinish : base.state = .recvFinish) : fsm = base := by
  refine hfollows.resolve_right fun hestablished => ?_
  have := hfinish.symm.trans hestablished.1
  contradiction

/-- One call of `append` takes the bytes up to the one that ends the message,
fails or completes a handshake. -/
theorem follows_append (bytes : Bytes) (fsm : HttpFSM) :
    Follows (fsm.receive bytes) (fsm.append bytes) := by
  induction bytes generalizing fsm with
  | nil => exact .inl rfl
  | cons byte rest ih =>
      rcases HttpFSM.state_cases fsm with hhalted | hestablished | hreceiving
      · rw [HttpFSM.append_of_halted hhalted,
          HttpFSM.receive_of_halted hhalted]
        exact .inl rfl
      · rw [HttpFSM.append_cons_of_established hestablished,
          HttpFSM.receive_of_established hestablished]
        exact .inr ⟨hestablished,
          (HttpFSM.store_state byte fsm).trans hestablished⟩
      · rw [HttpFSM.append_cons hreceiving, HttpFSM.receive_cons hreceiving]
        exact ih _

theorem Follows.append (hfollows : Follows base fsm) (bytes : Bytes) :
    Follows (base.receive bytes) (fsm.append bytes) := by
  rcases hfollows with rfl | ⟨hbase, hfsm⟩
  · exact follows_append bytes fsm
  · rw [HttpFSM.receive_of_established hbase]
    refine .inr ⟨hbase, ?_⟩
    cases bytes with
    | nil => exact hfsm
    | cons byte rest =>
        rw [HttpFSM.append_cons_of_established hfsm]
        exact (HttpFSM.store_state byte fsm).trans hfsm

theorem Follows.appendAll (hfollows : Follows base fsm)
    (calls : List Bytes) :
    Follows (base.receive calls.flatten) (fsm.appendAll calls) := by
  induction calls generalizing base fsm with
  | nil => exact hfollows
  | cons bytes calls ih =>
      rw [List.flatten_cons, HttpFSM.receive_append]
      exact ih (hfollows.append bytes)

end Following

/-! ## What every completion leaves -/

section Valid

theorem state_append_ne_invalid {bytes : Bytes} {fsm : HttpFSM}
    (hvalid : fsm.state ≠ .invalid) : (fsm.append bytes).state ≠ .invalid := by
  induction bytes generalizing fsm with
  | nil => exact hvalid
  | cons byte rest ih =>
      rcases HttpFSM.state_cases fsm with hhalted | hestablished | hreceiving
      · rwa [HttpFSM.append_of_halted hhalted]
      · rwa [HttpFSM.append_cons_of_established hestablished,
          HttpFSM.store_state]
      · rw [HttpFSM.append_cons hreceiving]
        apply ih
        intro hinvalid
        have hnext := HttpFSM.recv_state (fsm.store byte)
        rw [hinvalid, HttpFSM.store_state] at hnext
        revert hnext hvalid
        cases fsm.state <;> decide

theorem state_appendAll_ne_invalid {calls : List Bytes} {fsm : HttpFSM}
    (hvalid : fsm.state ≠ .invalid) :
    (fsm.appendAll calls).state ≠ .invalid := by
  induction calls generalizing fsm with
  | nil => exact hvalid
  | cons bytes calls ih => exact ih (state_append_ne_invalid hvalid)

/-- A parser `OnRead` does not go on with takes no more bytes. -/
theorem receive_of_not_reads {fsm : HttpFSM} (hnot : ¬Reads fsm.state)
    (hvalid : fsm.state ≠ .invalid) (bytes : Bytes) :
    fsm.receive bytes = fsm := by
  cases hstate : fsm.state with
  | recvFinish => exact HttpFSM.receive_of_halted (.inr hstate) bytes
  | error => exact HttpFSM.receive_of_halted (.inl hstate) bytes
  | websocketEstablish => exact HttpFSM.receive_of_established hstate bytes
  | invalid => exact absurd hstate hvalid
  | _ =>
      rw [hstate] at hnot
      exact absurd (by decide) hnot

end Valid

/-- The requests in the received bytes: the bytes are one request as soon as
they are parsed to the end of a message, whatever comes behind it. -/
def requestsIn (fsm : HttpFSM) (bytes : Bytes) : List HttpFSM :=
  if (fsm.receive bytes).state = .recvFinish then [fsm.receive bytes] else []

/-- What is written for a request is what the callback writes for it. -/
def Answers (cb : Callback) (request : HttpFSM) (response : List Slice) :
    Prop :=
  ∃ frames calls, cb request = some calls ∧
    response = writeCalls frames 0 calls []

/-- What holds between two completions. -/
structure Served (cb : Callback) (fsm : HttpFSM) (context : HttpServContext) :
    Prop where
  /-- There is one operation outstanding until the object is deleted. -/
  outstanding : context.reading + context.writing + context.deletes = 1
  closed : context.closes = context.deletes
  /-- The callback has been called for the request in the received bytes. -/
  parsed : context.requests = requestsIn fsm context.received.flatten
  answered : List.Forall₂ (Answers cb) context.requests context.responses
  /-- A connection that still reads has not called its callback. -/
  waiting : context.reading ≠ 0 → context.requests = []
  writing : context.writing ≠ 0 → context.requests ≠ []

/-- With what the parser then is. -/
structure Serving (cb : Callback) (fsm : HttpFSM) (context : HttpServContext) :
    Prop extends Served cb fsm context where
  follows : Follows (fsm.receive context.received.flatten) context.fsm
  valid : context.fsm.state ≠ .invalid

/-- A read has completed and its slices are appended. -/
def take (slices : List Bytes) (context : HttpServContext) :
    HttpServContext :=
  { context with
    fsm := context.fsm.appendAll slices
    buffer := []
    reading := context.reading - 1
    received := context.received ++ slices }

section Steps

variable {cb : Callback} {fsm : HttpFSM} {context next : HttpServContext}

theorem requestsIn_of_finish {bytes : Bytes}
    (hfinish : (fsm.receive bytes).state = .recvFinish) :
    requestsIn fsm bytes = [fsm.receive bytes] := if_pos hfinish

theorem requestsIn_of_not_finish {bytes : Bytes}
    (hfinish : (fsm.receive bytes).state ≠ .recvFinish) :
    requestsIn fsm bytes = [] := if_neg hfinish

theorem serving_accept (memory : ℕ → UInt8) (fsm : HttpFSM) :
    Serving cb (fsm.reset chunkSize memory) (accept memory fsm) where
  outstanding := rfl
  closed := rfl
  parsed := rfl
  answered := .nil
  waiting _ := rfl
  writing h := absurd rfl h
  follows := .inl rfl
  valid := State.noConfusion

/-- `Close` ends a connection with no operation outstanding. -/
theorem Serving.close (hserving : Serving cb fsm context)
    {reading writing : ℕ}
    (hone : reading + writing + 1 = context.reading + context.writing) :
    Serving cb fsm { context with reading, writing }.close := by
  have hcount := hserving.outstanding
  have hnone : reading = 0 ∧ writing = 0 ∧ context.deletes = 0 := by omega
  obtain ⟨rfl, rfl, hdeletes⟩ := hnone
  refine ⟨⟨?_, ?_, hserving.parsed, hserving.answered, ?_, ?_⟩,
    hserving.follows, hserving.valid⟩
  · rw [HttpServContext.close]
    dsimp only
    omega
  · exact congrArg (· + 1) hserving.closed
  · exact fun h => absurd rfl h
  · exact fun h => absurd rfl h

/-- A read completes. -/
theorem step_read {slices : List Bytes} {frames : Frames}
    (hstep : context.step cb (.read slices frames) = some next) :
    context.reading ≠ 0 ∧
      (context.load slices).onRead cb frames = some next := by
  simp only [step] at hstep
  split at hstep
  case isTrue hready => exact ⟨hready.1, hstep⟩
  case isFalse => contradiction

theorem onRead_of_reads (hreads : Reads context.fsm.state)
    (slices : List Bytes) (frames : Frames) :
    (context.load slices).onRead cb frames =
      if (context.fsm.appendAll slices).state = .recvFinish then
        (cb (context.fsm.appendAll slices)).map fun calls =>
          (context.take slices).answer frames calls
      else some (context.take slices).read := by
  have hbytes : (slices.map memDupe).map Slice.bytes = slices := by
    rw [List.map_map]
    exact List.map_id slices
  have htake : (context.load slices).takeSlices = context.take slices := by
    rw [takeSlices, load, take, hbytes]
  have hload : Reads (context.load slices).fsm.state := hreads
  rw [onRead, if_pos hload, htake]
  rfl

theorem onRead_of_not_reads (hnot : ¬Reads context.fsm.state)
    (slices : List Bytes) (frames : Frames) :
    (context.load slices).onRead cb frames =
      some (context.load slices).close :=
  if_neg hnot

section Read

variable (hserving : Serving cb fsm context) {slices : List Bytes}
include hserving

theorem Serving.follows_take :
    Follows (fsm.receive (context.take slices).received.flatten)
      (context.take slices).fsm := by
  rw [take, List.flatten_append, HttpFSM.receive_append]
  exact hserving.follows.appendAll slices

theorem Serving.idle (hreading : context.reading ≠ 0) :
    context.reading = 1 ∧ context.writing = 0 ∧ context.deletes = 0 ∧
      context.requests = [] ∧ context.responses = [] := by
  have hcount := hserving.outstanding
  have hnone := hserving.waiting hreading
  have hanswered := hserving.answered
  rw [hnone, List.forall₂_nil_left_iff] at hanswered
  exact ⟨by omega, by omega, by omega, hnone, hanswered⟩

/-- The last byte of a request has come. -/
theorem Serving.finishes (hreading : context.reading ≠ 0)
    (hfinish : (context.take slices).fsm.state = .recvFinish)
    {frames : Frames} {calls : List WriterCall}
    (hcalls : cb (context.take slices).fsm = some calls) :
    Serving cb fsm ((context.take slices).answer frames calls) := by
  obtain ⟨hone, hwriting, hdeletes, hrequests, hresponses⟩ :=
    hserving.idle hreading
  have hfollows := @Serving.follows_take _ _ _ hserving slices
  have hbase := hfollows.state.symm.trans hfinish
  have hparsed := hfollows.eq_of_finish hbase
  have hall : ((context.take slices).answer frames calls).requests =
      [(context.take slices).fsm] := by
    rw [answer, write, take]
    dsimp only
    rw [hrequests, List.nil_append]
  have hsent : ((context.take slices).answer frames calls).responses =
      [writeCalls frames 0 calls []] := by
    rw [answer, write, take]
    dsimp only
    rw [hresponses, List.nil_append]
  refine ⟨⟨?_, hserving.closed, ?_, ?_, ?_, ?_⟩, hfollows, ?_⟩
  · dsimp only [answer, write, take]
    omega
  · rw [hall, hparsed]
    exact (requestsIn_of_finish hbase).symm
  · rw [hall, hsent]
    exact .cons ⟨frames, calls, hcalls, rfl⟩ .nil
  · intro hagain
    dsimp only [answer, write, take] at hagain
    omega
  · rw [hall]
    exact fun _ => List.cons_ne_nil _ _
  · exact state_appendAll_ne_invalid hserving.valid

/-- More is to be read. -/
theorem Serving.continues (hreading : context.reading ≠ 0)
    (hfinish : (context.take slices).fsm.state ≠ .recvFinish) :
    Serving cb fsm (context.take slices).read := by
  obtain ⟨hone, hwriting, hdeletes, hrequests, -⟩ := hserving.idle hreading
  have hfollows := @Serving.follows_take _ _ _ hserving slices
  refine ⟨⟨?_, hserving.closed, ?_, hserving.answered, ?_, ?_⟩, hfollows, ?_⟩
  · dsimp only [HttpServContext.read, take]
    omega
  · refine hrequests.trans (requestsIn_of_not_finish fun h => hfinish ?_).symm
    exact hfollows.state.trans h
  · exact fun _ => hrequests
  · exact fun hwrites => absurd hwriting hwrites
  · exact state_appendAll_ne_invalid hserving.valid

/-- The state the last read has left ends the connection. -/
theorem Serving.stops (hreading : context.reading ≠ 0)
    (hnot : ¬Reads context.fsm.state) :
    Serving cb fsm (context.load slices).close := by
  obtain ⟨hone, hwriting, hdeletes, hrequests, -⟩ := hserving.idle hreading
  have hstopped : fsm.receive (context.load slices).received.flatten =
      fsm.receive context.received.flatten := by
    rw [load, List.flatten_append, HttpFSM.receive_append]
    apply receive_of_not_reads
    · rwa [← hserving.follows.state]
    · rw [← hserving.follows.state]
      exact hserving.valid
  refine ⟨⟨?_, congrArg (· + 1) hserving.closed, ?_, hserving.answered,
    fun _ => hrequests, fun hwrites => absurd hwriting hwrites⟩, ?_,
    hserving.valid⟩
  · dsimp only [HttpServContext.close, load]
    omega
  · exact hserving.parsed.trans
      (by rw [requestsIn, requestsIn, ← hstopped]; rfl)
  · exact hstopped ▸ hserving.follows

end Read

theorem Serving.read {slices : List Bytes} {frames : Frames}
    (hserving : Serving cb fsm context)
    (hstep : context.step cb (.read slices frames) = some next) :
    Serving cb fsm next := by
  obtain ⟨hreading, hread⟩ := step_read hstep
  by_cases hreads : Reads context.fsm.state
  · rw [onRead_of_reads hreads] at hread
    split at hread
    case isTrue hfinish =>
      obtain ⟨calls, hcalls, rfl⟩ := Option.map_eq_some_iff.mp hread
      exact hserving.finishes hreading hfinish hcalls
    case isFalse hfinish =>
      obtain rfl := Option.some.inj hread
      exact hserving.continues hreading hfinish
  · rw [onRead_of_not_reads hreads] at hread
    obtain rfl := Option.some.inj hread
    exact hserving.stops hreading hreads

theorem Serving.step {action : Action} (hserving : Serving cb fsm context)
    (hstep : context.step cb action = some next) : Serving cb fsm next := by
  cases action with
  | read slices frames => exact hserving.read hstep
  | readFailed =>
      simp only [HttpServContext.step] at hstep
      split at hstep
      · contradiction
      · obtain rfl := Option.some.inj hstep
        exact @Serving.close cb fsm context hserving (context.reading - 1)
          context.writing (by omega)
  | written =>
      simp only [HttpServContext.step] at hstep
      split at hstep
      · contradiction
      · obtain rfl := Option.some.inj hstep
        exact @Serving.close cb fsm context hserving context.reading
          (context.writing - 1) (by omega)

theorem serving_exec {memory : ℕ → UInt8} {actions : List Action}
    (hrun : exec (step cb) (accept memory fsm) actions = some next) :
    Serving cb (fsm.reset chunkSize memory) next :=
  @exec_invariant _ _ (step cb) (Serving cb (fsm.reset chunkSize memory))
    (fun _ _ _ hserving hstep => hserving.step hstep) _ _ _
    (serving_accept memory fsm) hrun

end Steps

/-- In every run of a connection, however its bytes are cut into slices and
reads, there is one operation outstanding until the object is closed and
deleted, once; the callback is called exactly if the received bytes begin with
a whole request, once and with that request, and what is written is what it
wrote for it. -/
theorem served (cb : Callback) (memory : ℕ → UInt8) (fsm : HttpFSM)
    (actions : List Action) (final : HttpServContext)
    (hrun : exec (step cb) (accept memory fsm) actions = some final) :
    Served cb (fsm.reset chunkSize memory) final :=
  (serving_exec hrun).toServed

private def echo : Callback := fun _ =>
  some [.writeResponse (ascii "hello")]

/-- A request that comes in two reads. -/
theorem served_root : ∃ final,
    exec (step echo) (accept (fun _ => 0) HttpFSM.blank)
        [.read [ascii "GET / HT", ascii "TP/1.1\r\n"] (fun _ _ _ => 0),
          .read [ascii "\r\n"] (fun _ _ _ => 0), .written] = some final ∧
      Served echo (HttpFSM.blank.reset chunkSize fun _ => 0) final := by
  obtain ⟨final, hrun⟩ := Option.isSome_iff_exists.mp
    (by decide +kernel : (exec (step echo) (accept (fun _ => 0) HttpFSM.blank)
        [.read [ascii "GET / HT", ascii "TP/1.1\r\n"] (fun _ _ _ => 0),
          .read [ascii "\r\n"] (fun _ _ _ => 0), .written]).isSome = true)
  exact ⟨final, hrun, served echo _ _ _ final hrun⟩

/-! ## A request cut into reads -/

/-- What the completions of the reads deliver. -/
abbrev Reading := List Bytes × Frames

def Reading.actions (reads : List Reading) : List Action :=
  reads.map fun read => .read read.1 read.2

def Reading.slices (reads : List Reading) : List Bytes :=
  reads.flatMap Prod.fst

/-- The bytes end a request, and no byte before the last does. -/
structure OneRequest (fsm : HttpFSM) (bytes : Bytes) : Prop where
  finishes : (fsm.receive bytes).state = .recvFinish
  notBefore : ∀ read rest, bytes = read ++ rest → rest ≠ [] →
    (fsm.receive read).state ≠ .recvFinish

section Requests

variable {cb : Callback} {fsm : HttpFSM} {context : HttpServContext}

theorem OneRequest.reads {bytes read rest : Bytes}
    (hrequest : OneRequest fsm bytes) (hbytes : bytes = read ++ rest)
    (hrest : rest ≠ []) (hvalid : (fsm.receive read).state ≠ .invalid) :
    Reads (fsm.receive read).state := by
  by_contra hnot
  have hwhole := hrequest.finishes
  rw [hbytes, HttpFSM.receive_append, receive_of_not_reads hnot hvalid]
    at hwhole
  exact hrequest.notBefore read rest hbytes hrest hwhole

theorem flatten_ne_nil {reads : List Reading} (hsome : reads ≠ [])
    (hslices : ∀ read ∈ reads, read.1 ≠ [] ∧ [] ∉ read.1) :
    (Reading.slices reads).flatten ≠ [] := by
  cases reads with
  | nil => exact absurd rfl hsome
  | cons read rest =>
      obtain ⟨hread, hbytes⟩ := hslices read List.mem_cons_self
      obtain ⟨slice, more, hslice⟩ := List.exists_cons_of_ne_nil hread
      rw [hslice] at hbytes
      rw [Reading.slices, List.flatMap_cons, hslice, List.cons_append,
        List.flatten_cons]
      exact List.append_ne_nil_of_left_ne_nil
        (fun h => hbytes (h ▸ List.mem_cons_self)) _

/-- The reads of one request complete, each in the state it finds, and the
last of them starts the write. -/
theorem Serving.exec_reads (hserving : Serving cb fsm context)
    (hreading : context.reading ≠ 0)
    (hfsm : context.fsm = fsm.appendAll context.received)
    {reads : List Reading} (hsome : reads ≠ [])
    (hslices : ∀ read ∈ reads, read.1 ≠ [] ∧ [] ∉ read.1)
    (hinside : ∀ stored ∈
      fsm.storesAll (context.received ++ Reading.slices reads),
        stored.InBounds)
    (hrequest : OneRequest fsm
      (context.received ++ Reading.slices reads).flatten)
    (hdefined : (cb (fsm.receive
      (context.received ++ Reading.slices reads).flatten)).isSome) :
    ∃ final, exec (HttpServContext.step cb) context (Reading.actions reads) =
        some final ∧
      final.received = context.received ++ Reading.slices reads ∧
      final.writing = 1 := by
  induction reads generalizing context with
  | nil => exact absurd rfl hsome
  | cons read rest ih =>
      obtain ⟨hnonempty, hbytes⟩ := hslices read List.mem_cons_self
      have hsplit : context.received ++ Reading.slices (read :: rest) =
          (context.take read.1).received ++ Reading.slices rest := by
        rw [Reading.slices, List.flatMap_cons, take, List.append_assoc]
        rfl
      have htake : (context.take read.1).fsm =
          fsm.appendAll (context.take read.1).received := by
        rw [take, hfsm, HttpFSM.appendAll_append]
      have hreads : Reads context.fsm.state := by
        rw [hserving.follows.state]
        refine hrequest.reads List.flatten_append
          (flatten_ne_nil (List.cons_ne_nil _ _) hslices) ?_
        rw [← hserving.follows.state]
        exact hserving.valid
      have hready : context.reading ≠ 0 ∧ [] ∉ read.1 ∧
          ∀ stored ∈ context.fsm.storesAll read.1, stored.InBounds := by
        refine ⟨hreading, hbytes, fun stored hstored => hinside stored ?_⟩
        rw [Reading.slices, List.flatMap_cons, HttpFSM.storesAll_append,
          HttpFSM.storesAll_append, ← hfsm]
        exact List.mem_append_right _ (List.mem_append_left _ hstored)
      have hfollows := @Serving.follows_take _ _ _ hserving read.1
      have hstep (next : HttpServContext)
          (hread : (context.load read.1).onRead cb read.2 = some next) :
          context.step cb (.read read.1 read.2) = some next := by
        rw [HttpServContext.step, if_pos hready, hread]
      rw [hsplit] at hinside hrequest hdefined
      by_cases hfinish : (context.take read.1).fsm.state = .recvFinish
      · have hbase := hfollows.state.symm.trans hfinish
        have hlast : rest = [] := by
          by_contra hmore
          refine hrequest.notBefore _ _ List.flatten_append
            (flatten_ne_nil hmore fun other hother =>
              hslices other (List.mem_cons_of_mem _ hother)) hbase
        subst hlast
        rw [Reading.slices, List.flatMap_nil, List.append_nil,
          ← hfollows.eq_of_finish hbase] at hdefined
        obtain ⟨calls, hcalls⟩ := Option.isSome_iff_exists.mp hdefined
        refine ⟨(context.take read.1).answer read.2 calls, ?_,
          (List.append_nil _).symm.trans hsplit.symm, ?_⟩
        · apply exec_cons_eq_some.mpr
          refine ⟨_, hstep _ ?_, rfl⟩
          rw [onRead_of_reads hreads]
          exact (if_pos hfinish).trans
            (congrArg (Option.map _) hcalls)
        · have := (hserving.idle hreading).2.1
          dsimp only [answer, write, take]
          omega
      · have hnext := hserving.continues hreading hfinish
        have hmore : rest ≠ [] := by
          rintro rfl
          rw [Reading.slices, List.flatMap_nil, List.append_nil] at hrequest
          exact hfinish (hfollows.state.trans hrequest.finishes)
        obtain ⟨final, hexec, hreceived, hwriting⟩ := ih hnext
          (Nat.succ_ne_zero _) htake hmore
          (fun other hother => hslices other (List.mem_cons_of_mem _ hother))
          hinside hrequest hdefined
        refine ⟨final, ?_, hreceived.trans hsplit.symm, hwriting⟩
        apply exec_cons_eq_some.mpr
        refine ⟨_, hstep _ ?_, hexec⟩
        rw [onRead_of_reads hreads]
        exact if_neg hfinish

end Requests

end HttpServContext

end GrpcMtk.Http
