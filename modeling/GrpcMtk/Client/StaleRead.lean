import GrpcMtk.Client.Establishment

/-!
# Completions of an earlier stream

`HandleEvent` compares the sequence number of a failed read with
`connect_sequence_num_` only after it has deleted the Reply that `reply_work_`
points to and emptied `requests_`.  Both may belong to a newer stream by then.
-/

namespace GrpcMtk

open GrpcMtk.Proto
open GrpcMtk.Runs

namespace IOThread

/-- The sequence number that `DrainRequestQueue` runs for. -/
def drainingFor (thread : IOThread) : Option ℕ :=
  match thread.running with
  | .run => none
  | .drainRequestQueue seq => some seq

end IOThread

namespace Tracked

/-- The I/O thread may receive the operation at this place, which completes
under the read tag of an earlier stream, and the client is not shutting
down. -/
def EarlierRead (tracked : Tracked) (index : ℕ) : Prop :=
  tracked.stream.crashed = false ∧ tracked.stream.Waiting ∧
    tracked.stream.iothr.sendingShutdown = false ∧
      ∃ tag ∈ tracked.stream.iothr.cq[index]?,
        IOThread.isReadOperation tag = true ∧
          IOThread.connectSequenceFromReadTag tag <
            tracked.stream.iothr.connectSequenceNum

instance (tracked : Tracked) (index : ℕ) :
    Decidable (tracked.EarlierRead index) :=
  inferInstanceAs (Decidable (_ ∧ _ ∧ _ ∧ ∃ _, _ ∧ _))

/-- `DrainRequestQueue` runs for an earlier stream. -/
def EarlierDrain (tracked : Tracked) : Prop :=
  ∃ seq ∈ tracked.stream.iothr.drainingFor,
    seq < tracked.stream.iothr.connectSequenceNum

instance (tracked : Tracked) : Decidable tracked.EarlierDrain :=
  inferInstanceAs (Decidable (∃ _, _ ∧ _))

/-- A read other than the operation at this place goes into the Reply that
`reply_work_` points to. -/
def ReadsInto (tracked : Tracked) (index : ℕ) : Prop :=
  ∃ buffer ∈ tracked.operations.buffer,
    .read buffer ∈ tracked.operations.pending.eraseIdx index

instance (tracked : Tracked) (index : ℕ) :
    Decidable (tracked.ReadsInto index) :=
  inferInstanceAs (Decidable (∃ _, _ ∧ _))

/-- Both queues are as they were, and so is `reply_work_` if a read other than
the operation at this place goes into its Reply. -/
structure LeftAlone (tracked : Tracked) (index : ℕ) (next : Tracked) :
    Prop where
  requests : next.stream.requests = tracked.stream.requests
  replys : next.stream.replys = tracked.stream.replys
  replyWork : tracked.ReadsInto index →
    next.operations.buffer = tracked.operations.buffer

instance (tracked : Tracked) (index : ℕ) (next : Tracked) :
    Decidable (tracked.LeftAlone index next) :=
  decidable_of_iff
    (next.stream.requests = tracked.stream.requests ∧
      next.stream.replys = tracked.stream.replys ∧
      (tracked.ReadsInto index →
        next.operations.buffer = tracked.operations.buffer))
    ⟨fun h => ⟨h.1, h.2.1, h.2.2⟩, fun h => ⟨h.1, h.2, h.3⟩⟩

/-- What `HandleEvent` itself does for a failed read of an earlier stream
leaves both queues and the outstanding reads alone. -/
def Undisturbed (tracked : Tracked) (action : RPCStream.Action)
    (next : Tracked) : Prop :=
  match action with
  | .ioEvent index false _ =>
      tracked.EarlierRead index → tracked.LeftAlone index next
  | .ioDrain =>
      tracked.EarlierDrain →
        next.stream.requests = tracked.stream.requests ∧
          next.stream.replys = tracked.stream.replys ∧
          next.operations = tracked.operations
  | _ => True

instance (tracked : Tracked) (action : RPCStream.Action) (next : Tracked) :
    Decidable (tracked.Undisturbed action next) :=
  match action with
  | .ioEvent _ false _ => inferInstanceAs (Decidable (_ → _))
  | .ioDrain => inferInstanceAs (Decidable (_ → _))
  | .ioEvent _ true _ | .release | .releaseEnqueue | .callBegin _
  | .callNumber _ _ | .callEnqueue _ | .callInsert _ | .update _ | .stop
  | .stopTimeout | .ioTimeout | .ioShutdown => isTrue trivial

/-- A failed read of an earlier stream finds `reply_work_` unused by any other
read, and each `try_dequeue` behind it finds `requests_` empty. -/
def NothingNew (tracked : Tracked) : RPCStream.Action → Prop
  | .ioEvent index false _ =>
      tracked.EarlierRead index → ¬tracked.ReadsInto index
  | .ioDrain => tracked.EarlierDrain → tracked.stream.requests = []
  | _ => True

/-- `HandleEvent` for a failed read while no other thread takes a step. -/
def handleFailedRead (tracked : Tracked) (index : ℕ) (reply : Reply) :
    List RPCStream.Action :=
  .ioEvent index false reply ::
    List.replicate (tracked.stream.requests.length + 1) .ioDrain

section Steps

variable {tracked next : Tracked}

/-- A failed read is released, and its sequence number is kept. -/
theorem step_earlierRead {index : ℕ} (hearlier : tracked.EarlierRead index)
    (reply : Reply) :
    ∃ next, tracked.step (.ioEvent index false reply) = some next ∧
      next.stream.crashed = false ∧ next.EarlierDrain ∧
      next.stream.requests = tracked.stream.requests ∧
      next.stream.replys = tracked.stream.replys ∧
      next.operations.buffer = none := by
  obtain ⟨hcrashed, hwaiting, hshutdown, tag, htag, hread, hseq⟩ := hearlier
  have hwrite := IOThread.isWriteOperation_of_isReadOperation hread
  have hnext : tracked.stream.step (.ioEvent index false reply) =
      some (tracked.stream.takeEvent index false tag reply) := by
    rw [RPCStream.step, hcrashed, if_neg Bool.false_ne_true, RPCStream.act,
      Option.mem_def.mp htag]
    exact if_pos hwaiting
  have hdone : tracked.stream.takeEvent index false tag reply =
      tracked.stream.onIOThread fun thread =>
        { thread with
          cq := thread.cq.eraseIdx index
          replyWork := false
          running := .drainRequestQueue
            (IOThread.connectSequenceFromReadTag tag) } := by
    rw [RPCStream.takeEvent, RPCStream.handleEvent, hwrite,
      if_neg Bool.false_ne_true, hread, if_pos rfl, RPCStream.readDone]
    dsimp only [RPCStream.onIOThread]
    rw [if_neg Bool.false_ne_true]
    exact if_neg (by simp [hshutdown])
  have hbuffer : (tracked.eventOperations index false tag).buffer = none := by
    rw [eventOperations, hwrite, if_neg Bool.false_ne_true, hread]
    rfl
  rw [hdone] at hnext
  refine ⟨⟨_, tracked.eventOperations index false tag⟩,
    step_eq_some.mpr ⟨hnext, (operationsAfter_ioEvent htag _ _).symm⟩,
    hcrashed, ⟨_, rfl, hseq⟩, rfl, rfl, hbuffer⟩

theorem leftAlone_earlierRead {index : ℕ} {reply : Reply}
    (hearlier : tracked.EarlierRead index)
    (hstep : tracked.step (.ioEvent index false reply) = some next) :
    tracked.LeftAlone index next ↔ ¬tracked.ReadsInto index := by
  obtain ⟨next', hstep', -, -, hrequests, hreplys, hbuffer⟩ :=
    step_earlierRead hearlier reply
  obtain rfl := Option.some.inj (hstep.symm.trans hstep')
  constructor
  · rintro hleft ⟨buffer, hmem, hread⟩
    have hkept := hleft.replyWork ⟨buffer, hmem, hread⟩
    rw [hbuffer, Option.mem_def.mp hmem] at hkept
    contradiction
  · intro hnone
    exact ⟨hrequests, hreplys, fun hreads => absurd hreads hnone⟩

/-- An iteration of `DrainRequestQueue` takes one request, or it is the last
one, which pushes nothing for an earlier stream. -/
theorem step_ioDrain (hstep : tracked.step .ioDrain = some next) :
    next.stream.requests = tracked.stream.requests.tail ∧
      next.operations = tracked.operations ∧
      (tracked.EarlierDrain →
        next.stream.replys = tracked.stream.replys) := by
  obtain ⟨hstream, hoperations⟩ := step_eq_some.mp hstep
  have hact := (RPCStream.step_eq_some.mp hstream).2
  rw [RPCStream.act] at hact
  split at hact
  · contradiction
  case h_2 seq hrunning =>
    rw [← Option.some.inj hact, RPCStream.ioDrain]
    split
    case h_1 item rest hrequests =>
      obtain ⟨consumed, drained, crashed, heq⟩ :=
        RPCStream.deleteRequest_eq
          { tracked.stream with requests := rest } item
      rw [heq, hrequests]
      exact ⟨rfl, hoperations, fun _ => rfl⟩
    case h_2 hrequests =>
      rw [hrequests]
      dsimp only
      split
      case isTrue hcurrent =>
        refine ⟨hrequests, hoperations, ?_⟩
        rintro ⟨seq', hseq, hless⟩
        rw [IOThread.drainingFor, hrunning, Option.mem_def,
          Option.some.injEq] at hseq
        rw [← hseq] at hless
        exact absurd hcurrent (Nat.ne_of_gt hless)
      · exact ⟨hrequests, hoperations, fun _ => rfl⟩

theorem exists_step_ioDrain (hcrashed : tracked.stream.crashed = false)
    (hdrain : tracked.EarlierDrain) :
    ∃ next, tracked.step .ioDrain = some next := by
  obtain ⟨seq, hseq, -⟩ := hdrain
  rw [IOThread.drainingFor] at hseq
  split at hseq
  · contradiction
  case h_2 seq' hrunning =>
    refine ⟨⟨tracked.stream.ioDrain seq', tracked.operations⟩,
      step_eq_some.mpr ⟨RPCStream.step_eq_some.mpr ⟨hcrashed, ?_⟩, rfl⟩⟩
    rw [RPCStream.act, hrunning]

theorem exec_ioDrain {steps : ℕ} {final : Tracked}
    (hrun : exec step tracked (List.replicate steps .ioDrain) = some final) :
    final.stream.requests <:+ tracked.stream.requests ∧
      final.operations = tracked.operations := by
  induction steps generalizing tracked with
  | zero =>
      obtain rfl := Option.some.inj hrun
      exact ⟨List.suffix_refl _, rfl⟩
  | succ steps ih =>
      obtain ⟨next, hstep, hrest⟩ := exec_cons_eq_some.mp hrun
      obtain ⟨hrequests, hoperations, -⟩ := step_ioDrain hstep
      obtain ⟨hsuffix, hsame⟩ := ih hrest
      rw [hrequests] at hsuffix
      exact ⟨hsuffix.trans (List.tail_suffix _), hsame.trans hoperations⟩

/-- Uninterrupted, `HandleEvent` leaves everything alone if there is nothing of
a newer stream. -/
theorem handleFailedRead_iff {index : ℕ}
    (hearlier : tracked.EarlierRead index) (reply : Reply) :
    (∃ final,
      exec step tracked (tracked.handleFailedRead index reply) = some final ∧
        tracked.LeftAlone index final) ↔
      tracked.stream.requests = [] ∧ ¬tracked.ReadsInto index := by
  obtain ⟨next, hstep, hcrashed, hdrain, hrequests, hreplys, hbuffer⟩ :=
    step_earlierRead hearlier reply
  have hleft := leftAlone_earlierRead hearlier hstep
  constructor
  · rintro ⟨final, hrun, halone⟩
    obtain ⟨next', hstep', hdrains⟩ := exec_cons_eq_some.mp hrun
    obtain rfl := Option.some.inj (hstep.symm.trans hstep')
    refine ⟨?_, hleft.mp ⟨hrequests, hreplys, fun hreads => ?_⟩⟩
    · rw [List.replicate_succ] at hdrains
      obtain ⟨middle, hfirst, hrest⟩ := exec_cons_eq_some.mp hdrains
      have hsuffix := (exec_ioDrain hrest).1
      rw [(step_ioDrain hfirst).1, halone.requests, hrequests] at hsuffix
      have hlength := hsuffix.length_le
      rw [List.length_tail] at hlength
      rw [← List.length_eq_zero_iff]
      omega
    · rw [← halone.replyWork hreads, (exec_ioDrain hdrains).2]
  · rintro ⟨hnone, hreads⟩
    obtain ⟨final, hlast⟩ := exists_step_ioDrain hcrashed hdrain
    obtain ⟨htail, -, hkept⟩ := step_ioDrain hlast
    rw [handleFailedRead, hnone]
    refine ⟨final, exec_cons_eq_some.mpr ⟨next, hstep,
      exec_cons_eq_some.mpr ⟨final, hlast, rfl⟩⟩, ?_, (hkept hdrain).trans hreplys,
      fun hinto => absurd hinto hreads⟩
    rw [htail, hrequests, hnone, List.tail_nil]

theorem undisturbed_iff {action : RPCStream.Action}
    (hstep : tracked.step action = some next) :
    tracked.Undisturbed action next ↔ tracked.NothingNew action := by
  cases action with
  | ioEvent index ok reply =>
      cases ok with
      | true => exact Iff.rfl
      | false =>
          exact forall_congr' fun hearlier =>
            leftAlone_earlierRead hearlier hstep
  | ioDrain =>
      refine forall_congr' fun hdrain => ?_
      obtain ⟨hrequests, hoperations, hreplys⟩ := step_ioDrain hstep
      rw [hrequests, and_iff_left ⟨hreplys hdrain, hoperations⟩]
      constructor
      · intro hsame
        have hlength := congrArg List.length hsame
        rw [List.length_tail] at hlength
        rw [← List.length_eq_zero_iff]
        omega
      · intro hnone
        rw [hnone, List.tail_nil]
  | _ => exact Iff.rfl

end Steps

/-- The failed read of an earlier stream leaves the newer one alone exactly if
the newer one has nothing in `requests_` and reads into no Reply that
`reply_work_` points to, in every interleaving and without one. -/
theorem earlier_read_undisturbed_iff (tracked : Tracked)
    (actions : List RPCStream.Action) :
    (AllSteps step Undisturbed tracked actions ↔
      AllSteps step (fun tracked action _ => tracked.NothingNew action) tracked
        actions) ∧
      ∀ index reply, tracked.EarlierRead index →
        ((∃ final,
          exec step tracked (tracked.handleFailedRead index reply) =
              some final ∧
            tracked.LeftAlone index final) ↔
          tracked.stream.requests = [] ∧ ¬tracked.ReadsInto index) := by
  constructor
  · apply allSteps_congr
    intro tracked action next hstep
    exact undisturbed_iff hstep
  · intro index reply hearlier
    exact handleFailedRead_iff hearlier reply

private def asked : RPCStream.UpdateInput where
  ready := true
  onOpenStream := true
  onCloseStream := 0
  addPayload := []
  now := 1

private def nothing : Reply :=
  { type := 0, msgid := 0, error := none, payload := [] }

/-- A second stream is opened while the start of the first one is
outstanding. -/
private def secondOpened : Tracked where
  stream :=
    { RPCStream.new with
      status := .connecting
      reconnectAttempt := 2
      iothr :=
        { IOThread.new with
          cq := [256, 512]
          io := true
          joinable := true
          connectSequenceNum := 2 } }
  operations :=
    { pending := [.start 1, .start 2], opened := 2, buffer := none, buffers := 0 }

theorem earlier_read_undisturbed_iff_second_opened :
    ∃ final,
      exec step secondOpened (secondOpened.handleFailedRead 0 nothing) =
          some final ∧
        secondOpened.LeftAlone 0 final :=
  ((earlier_read_undisturbed_iff secondOpened []).2 0 nothing (by decide)).mpr
    ⟨rfl, by decide⟩

/-- The application resets the client while the start of its first stream is
outstanding.  It fails when the second stream is established: the Reply that
this one reads into is deleted, and so is its Connect request. -/
theorem earlier_read_undisturbed_iff_fails :
    ¬AllSteps step Undisturbed new
      (List.replicate 3 (.update asked) ++
        [.ioTimeout, .release, .releaseEnqueue] ++
        List.replicate 6 (.update asked) ++
        [.ioTimeout, .ioEvent 1 true nothing] ++
        List.replicate 6 (.update asked) ++
        [.ioEvent 0 false nothing, .ioDrain]) := by
  decide

end Tracked

end GrpcMtk
