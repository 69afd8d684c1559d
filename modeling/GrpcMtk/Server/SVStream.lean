import GrpcMtk.Core.Proto
import GrpcMtk.Core.Runs

/-!
# The reply queue of a server stream

`SVStream::Send` writes a reply straight to the wire when no write is in
flight and queues it otherwise; `SVStream::Step`, the completion of a write,
pops the next queued reply or turns the sending flag off.  Any number of
threads may send.  Each critical section runs under `mtx_`, so an interleaving
is a sequence of sends, in lock order, and write completions.

The invariant carried through every interleaving is the queue equation: the
replies written so far followed by the queued ones are the replies sent.
-/

namespace GrpcMtk

open GrpcMtk.Proto
open GrpcMtk.Runs

/-- A `Request` in `tasks_`, by its kind.  A Login task carries what
`Codec::Unpack` makes of its payload; `other` is any kind that is none of the
three. -/
inductive Task where
  | normal (request : Request)
  | login (payload : Option SystemPayload.Login)
  | close
  | other (kind : Kind)
  deriving DecidableEq, Repr

/-- `SVStream`, with what has been started on its `io_`: the replies handed to
`io_.Write` so far, the writes not completed yet, and the calls of
`io_.Finish`.  `closers` counts the live `StreamCloser`s, each the tag of a
Finish not completed yet, and `deletes` the executions of `delete this`.  The
`std::atomic_int refc_` does not wrap around: fewer than 2^31 holders are alive
at a time. -/
structure SVStream where
  queue : List Reply
  tasks : List Task
  isSending : Bool
  refc : ℤ
  written : List Reply
  writing : ℕ
  finishes : ℕ
  closers : ℕ
  deletes : ℕ
  deriving DecidableEq, Repr

namespace SVStream

/-- `SVStream::SVStream`. -/
def new : SVStream where
  queue := []
  tasks := []
  isSending := false
  refc := 0
  written := []
  writing := 0
  finishes := 0
  closers := 0
  deletes := 0

def ref (stream : SVStream) : SVStream :=
  { stream with refc := stream.refc + 1 }

def unref (stream : SVStream) : SVStream :=
  let stream := { stream with refc := stream.refc - 1 }
  if stream.refc ≤ 0 then { stream with deletes := stream.deletes + 1 }
  else stream

/-- `io_.Write(*r, this)`. -/
def write (stream : SVStream) (reply : Reply) : SVStream :=
  { stream with
    written := stream.written ++ [reply]
    writing := stream.writing + 1 }

/-- `io_.Finish(Status::CANCELLED, tag)`. -/
def finish (stream : SVStream) : SVStream :=
  { stream with finishes := stream.finishes + 1 }

/-- `new StreamCloser(stream_)` and the Finish it is the tag of. -/
def finishWithCloser (stream : SVStream) : SVStream :=
  { stream.ref with closers := stream.closers + 1 }.finish

/-- `StreamCloser::Step` and `StreamCloser::Destroy`. -/
def closerDone (stream : SVStream) : SVStream :=
  { stream with closers := stream.closers - 1 }.unref

def send (stream : SVStream) (reply : Reply) : SVStream :=
  if stream.isSending then
    { stream with queue := stream.queue ++ [reply] }
  else
    ({ stream with isSending := true }.ref).write reply

/-- `SVStream::Step`, the ok completion of a write. -/
def step (stream : SVStream) : SVStream :=
  match stream.queue with
  | reply :: rest => { stream.write reply with queue := rest }
  | [] => { stream with isSending := false }.unref

/-- `SVStream::Destroy`, the failed completion of a write. -/
def destroy (stream : SVStream) : SVStream := stream.unref

/-- `SVStream::SysRep` with `SetupSystemReply`. -/
def sysRep (stream : SVStream) (msgid : ℕ) (payload : Bytes) : SVStream :=
  stream.send { type := 0, msgid, error := none, payload }

/-- `SVStream::Throw` with `SetupThrow`. -/
def throw (stream : SVStream) (msgid : ℕ) (error : Error) : SVStream :=
  stream.send { type := 0, msgid, error := some error, payload := [] }

/-- `tasks_.enqueue`. -/
def enqueue (stream : SVStream) (task : Task) : SVStream :=
  { stream with tasks := stream.tasks ++ [task] }

/-- `Worker::Process` for a completed write: the operation leaves the
completion queue, then `Step` or `Destroy` runs. -/
def writeDone (stream : SVStream) (ok : Bool) : SVStream :=
  let stream := { stream with writing := stream.writing - 1 }
  if ok then stream.step else stream.destroy

section Fields

variable (stream : SVStream) (reply : Reply)

@[simp]
theorem unref_queue : stream.unref.queue = stream.queue := by
  unfold unref; dsimp only; split <;> rfl

@[simp]
theorem unref_tasks : stream.unref.tasks = stream.tasks := by
  unfold unref; dsimp only; split <;> rfl

@[simp]
theorem unref_isSending : stream.unref.isSending = stream.isSending := by
  unfold unref; dsimp only; split <;> rfl

@[simp]
theorem unref_written : stream.unref.written = stream.written := by
  unfold unref; dsimp only; split <;> rfl

@[simp]
theorem unref_writing : stream.unref.writing = stream.writing := by
  unfold unref; dsimp only; split <;> rfl

@[simp]
theorem send_tasks : (stream.send reply).tasks = stream.tasks := by
  unfold send; split <;> rfl

@[simp]
theorem unref_finishes : stream.unref.finishes = stream.finishes := by
  unfold unref; dsimp only; split <;> rfl

@[simp]
theorem send_finishes : (stream.send reply).finishes = stream.finishes := by
  unfold send; split <;> rfl

@[simp]
theorem step_finishes : stream.step.finishes = stream.finishes := by
  unfold step
  split
  · rfl
  · exact unref_finishes _

@[simp]
theorem writeDone_finishes (ok : Bool) :
    (stream.writeDone ok).finishes = stream.finishes := by
  cases ok with
  | false => exact unref_finishes _
  | true => exact step_finishes _

@[simp]
theorem closerDone_finishes :
    stream.closerDone.finishes = stream.finishes :=
  unref_finishes _

@[simp]
theorem step_tasks : stream.step.tasks = stream.tasks := by
  unfold step
  split
  · rfl
  · exact unref_tasks _

@[simp]
theorem writeDone_tasks (ok : Bool) :
    (stream.writeDone ok).tasks = stream.tasks := by
  cases ok with
  | false => exact unref_tasks _
  | true => exact step_tasks _

@[simp]
theorem closerDone_tasks : stream.closerDone.tasks = stream.tasks :=
  unref_tasks _

end Fields

/-! ## Interleavings of senders and completions -/

/-- The stream together with the replies passed to `Send`, in lock order. -/
structure Channel where
  stream : SVStream
  sends : List Reply
  deriving DecidableEq, Repr

def Channel.init (stream : SVStream) : Channel := ⟨stream, []⟩

inductive Action where
  /-- Some thread runs the critical section of `Send`. -/
  | send (reply : Reply)
  /-- The completion queue delivers a write of the stream. -/
  | writeDone (ok : Bool)
  deriving DecidableEq, Repr

def Channel.step (channel : Channel) : Action → Option Channel
  | .send reply =>
      some ⟨channel.stream.send reply, channel.sends ++ [reply]⟩
  | .writeDone ok =>
      if channel.stream.writing = 0 then none
      else some ⟨channel.stream.writeDone ok, channel.sends⟩

/-- What links the flag, the queue and the outstanding operation. -/
structure Ordered (channel : Channel) : Prop where
  /-- Written and queued replies are the replies sent, in order. -/
  queue_eq : channel.stream.written ++ channel.stream.queue = channel.sends
  idle : channel.stream.isSending = false →
    channel.stream.queue = [] ∧ channel.stream.writing = 0
  single : channel.stream.writing ≤ 1

theorem ordered_init : Ordered (Channel.init SVStream.new) where
  queue_eq := rfl
  idle _ := ⟨rfl, rfl⟩
  single := Nat.zero_le 1

theorem Ordered.send {channel : Channel} (hordered : Ordered channel)
    (reply : Reply) :
    Ordered ⟨channel.stream.send reply, channel.sends ++ [reply]⟩ := by
  cases hsending : channel.stream.isSending with
  | true =>
      have hsend : channel.stream.send reply =
          { channel.stream with queue := channel.stream.queue ++ [reply] } := by
        simp [SVStream.send, hsending]
      rw [hsend]
      refine ⟨?_, ?_, hordered.single⟩
      · rw [← hordered.queue_eq, List.append_assoc]
      · intro hidle
        simp [hsending] at hidle
  | false =>
      obtain ⟨hqueue, hwriting⟩ := hordered.idle hsending
      have hwritten : channel.stream.written = channel.sends := by
        simpa [hqueue] using hordered.queue_eq
      refine ⟨?_, ?_, ?_⟩
      · simp [SVStream.send, hsending, SVStream.write, SVStream.ref, hqueue,
          hwritten]
      · intro hidle
        simp [SVStream.send, hsending, SVStream.write, SVStream.ref] at hidle
      · simp [SVStream.send, hsending, SVStream.write, SVStream.ref, hwriting]

theorem Ordered.writeDone {channel : Channel} (hordered : Ordered channel)
    (houtstanding : channel.stream.writing ≠ 0) (ok : Bool) :
    Ordered ⟨channel.stream.writeDone ok, channel.sends⟩ := by
  have hone : channel.stream.writing = 1 := by
    have := hordered.single
    omega
  have hsending : channel.stream.isSending = true := by
    by_contra hidle
    have := (hordered.idle (by simpa using hidle)).2
    omega
  cases ok with
  | false =>
      refine ⟨?_, ?_, ?_⟩
      · simpa [SVStream.writeDone, SVStream.destroy] using hordered.queue_eq
      · intro hidle
        simp [SVStream.writeDone, SVStream.destroy, hsending] at hidle
      · simp [SVStream.writeDone, SVStream.destroy, hone]
  | true =>
      cases hqueue : channel.stream.queue with
      | nil =>
          refine ⟨?_, ?_, ?_⟩
          · simpa [SVStream.writeDone, SVStream.step, hqueue]
              using hordered.queue_eq
          · intro _
            simp [SVStream.writeDone, SVStream.step, hqueue, hone]
          · simp [SVStream.writeDone, SVStream.step, hqueue, hone]
      | cons reply rest =>
          refine ⟨?_, ?_, ?_⟩
          · have hsent := hordered.queue_eq
            rw [hqueue] at hsent
            simp [SVStream.writeDone, SVStream.step, hqueue, SVStream.write,
              ← hsent]
          · intro hidle
            simp [SVStream.writeDone, SVStream.step, hqueue, SVStream.write,
              hsending] at hidle
          · simp [SVStream.writeDone, SVStream.step, hqueue, SVStream.write,
              hone]

theorem ordered_step (channel : Channel) (action : Action) (next : Channel)
    (hordered : Ordered channel)
    (hstep : channel.step action = some next) : Ordered next := by
  cases action with
  | send reply =>
      obtain rfl := Option.some.inj hstep
      exact hordered.send reply
  | writeDone ok =>
      by_cases hnone : channel.stream.writing = 0
      · simp [Channel.step, hnone] at hstep
      · simp only [Channel.step, if_neg hnone, Option.some.injEq] at hstep
        subst next
        exact hordered.writeDone hnone ok

/-- The queue equation holds after every interleaving. -/
theorem ordered_exec {actions : List Action} {final : Channel}
    (hrun : exec Channel.step (Channel.init SVStream.new) actions =
      some final) :
    Ordered final :=
  exec_invariant ordered_step ordered_init hrun

/-- After every interleaving of senders and write completions at most one
write is outstanding, the replies handed to `io_.Write` are a prefix of the
replies sent, and an idle stream has written all of them. -/
theorem replies_in_order (actions : List Action) (final : Channel)
    (hrun : exec Channel.step (Channel.init SVStream.new) actions =
      some final) :
    final.stream.writing ≤ 1 ∧
      final.stream.written <+: final.sends ∧
      (final.stream.isSending = false →
        final.stream.queue = [] ∧ final.stream.written = final.sends) := by
  have hordered := ordered_exec hrun
  refine ⟨hordered.single, ⟨final.stream.queue, hordered.queue_eq⟩, ?_⟩
  intro hidle
  have hqueue := (hordered.idle hidle).1
  exact ⟨hqueue, by simpa [hqueue] using hordered.queue_eq⟩

private def ping (msgid : ℕ) : Reply :=
  { type := 1, msgid, error := none, payload := [] }

/-- Two replies sent back to back: the second waits for the first write to
complete, and the stream is idle once both have. -/
theorem replies_in_order_two :
    ∃ final, exec Channel.step (Channel.init SVStream.new)
        [.send (ping 1), .send (ping 2), .writeDone true, .writeDone true] =
          some final ∧
      (final.stream.writing ≤ 1 ∧
        final.stream.written <+: final.sends ∧
        (final.stream.isSending = false →
          final.stream.queue = [] ∧ final.stream.written = final.sends)) :=
  ⟨_, rfl, replies_in_order
    [.send (ping 1), .send (ping 2), .writeDone true, .writeDone true] _ rfl⟩

end SVStream

end GrpcMtk
