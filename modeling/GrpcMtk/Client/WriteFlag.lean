import Mathlib.Data.List.Perm.Basic
import GrpcMtk.Client.Steps

/-!
# The write flag of the I/O thread

`is_sending_` says that a Write is in the completion queue.  `Run` sets it
with the first Write, a completed Write that finds no further request clears
it, and a completed Write that finds one starts the next.  A failed Write
clears nothing: the flag then stays set with no Write to come, and the TIMEOUT
branch never pops a request again.  The flag is right in exactly the runs in
which no Write fails.
-/

namespace GrpcMtk

open GrpcMtk.Proto
open GrpcMtk.Runs

namespace IOThread

/-- The Writes in the completion queue. -/
def writing (thread : IOThread) : ℕ := thread.cq.countP isWriteOperation

/-- At most one Write is outstanding, and the flag tells whether one is. -/
structure Flagged (thread : IOThread) : Prop where
  single : thread.writing ≤ 1
  sending : thread.isSending = true ↔ thread.writing = 1

instance (thread : IOThread) : Decidable thread.Flagged :=
  decidable_of_iff
    (thread.writing ≤ 1 ∧ (thread.isSending = true ↔ thread.writing = 1))
    ⟨fun ⟨hsingle, hsending⟩ => ⟨hsingle, hsending⟩,
      fun ⟨hsingle, hsending⟩ => ⟨hsingle, hsending⟩⟩

theorem flagged_iff {thread : IOThread} :
    thread.Flagged ↔ thread.writing = thread.isSending.toNat := by
  constructor
  · rintro ⟨hsingle, hsending⟩
    cases hflag : thread.isSending with
    | false =>
        rw [hflag] at hsending
        have hnone : thread.writing ≠ 1 := by simpa using hsending
        rw [Bool.toNat_false]
        omega
    | true => exact hsending.mp hflag
  · intro heq
    constructor
    · rw [heq]
      exact Bool.toNat_le _
    · rw [heq]
      cases thread.isSending <;> simp

/-- The completion queue delivers one operation, and the rest stays. -/
theorem writing_eraseIdx {thread : IOThread} {index tag : ℕ}
    (htag : thread.cq[index]? = some tag) :
    thread.writing = (thread.cq.eraseIdx index).countP isWriteOperation +
      (isWriteOperation tag).toNat := by
  obtain ⟨hbound, hget⟩ := List.getElem?_eq_some_iff.mp htag
  have hperm := List.getElem_cons_eraseIdx_perm hbound
  rw [writing, ← hperm.countP_eq, hget, List.countP_cons]
  cases isWriteOperation tag <;> rfl

end IOThread

namespace RPCStream

/-- The flag is right between two events; a process that has crashed is inside
one. -/
def WriteFlag (stream : RPCStream) : Prop :=
  stream.crashed = true ∨ stream.iothr.Flagged

instance (stream : RPCStream) : Decidable stream.WriteFlag :=
  inferInstanceAs (Decidable (_ ∨ _))

/-- A Write that the completion queue delivers has not failed. -/
def WriteCompletes (stream : RPCStream) : Action → Prop
  | .ioEvent index ok _ =>
      ∀ tag ∈ stream.iothr.cq[index]?,
        IOThread.isWriteOperation tag = true → ok = true
  | _ => True

instance (stream : RPCStream) (action : Action) :
    Decidable (stream.WriteCompletes action) := by
  unfold WriteCompletes
  split <;> infer_instance

/-! ## The other threads -/

/-- What the sending side of the I/O thread depends on. -/
def writes (stream : RPCStream) : List ℕ × Bool × ℕ :=
  (stream.iothr.cq, stream.iothr.isSending, stream.iothr.connectSequenceNum)

theorem writing_of_writes_eq {stream next : RPCStream}
    (heq : next.writes = stream.writes) :
    next.iothr.writing = stream.iothr.writing ∧
      next.iothr.isSending = stream.iothr.isSending ∧
      next.iothr.connectSequenceNum = stream.iothr.connectSequenceNum := by
  obtain ⟨hcq, hrest⟩ := Prod.mk.inj heq
  exact ⟨congrArg (List.countP IOThread.isWriteOperation) hcq,
    Prod.mk.inj hrest⟩

theorem update_writes {stream next : RPCStream} {input : UpdateInput}
    (hupdated : Updated stream input next) : next.writes = stream.writes := by
  obtain ⟨joinable, -, hiothr⟩ := iothr_of_updated hupdated
  rw [writes, hiothr]
  rfl

/-! ## The I/O thread -/

/-- A Write is started, unless the process crashes. -/
theorem writing_writeRequest (item : RequestItem) (stream : RPCStream) :
    (stream.writeRequest item).crashed = true ∨
      (stream.writeRequest item).iothr.writing = stream.iothr.writing + 1 ∧
      (stream.writeRequest item).iothr.isSending =
        stream.iothr.isSending := by
  cases item with
  | establishRequest => exact Or.inl rfl
  | heap id request =>
      by_cases hio : stream.iothr.io = true
      · have hwrite : stream.writeRequest (.heap id request) =
            { stream with consumed := .heap id request :: stream.consumed
              }.onIOThread fun thread =>
                { thread with
                  cq := thread.cq ++
                    [IOThread.generateWriteTag request.msgid] } := by
          simp [writeRequest, hio]
        right
        rw [hwrite]
        refine ⟨?_, rfl⟩
        simp [onIOThread, IOThread.writing, List.countP_append]
      · left
        simp [writeRequest, hio, crash]

theorem WriteFlag.ioTimeout {stream : RPCStream}
    (hflag : stream.iothr.Flagged) : stream.ioTimeout.WriteFlag := by
  rw [IOThread.flagged_iff] at hflag
  unfold RPCStream.ioTimeout
  split
  case isTrue => exact Or.inr (IOThread.flagged_iff.mpr hflag)
  case isFalse hidle =>
    rw [Bool.not_eq_true] at hidle
    rw [hidle, Bool.toNat_false] at hflag
    split
    case h_1 =>
      right
      rw [IOThread.flagged_iff, hidle]
      exact hflag
    case h_2 rest hrequests =>
      right
      rw [IOThread.flagged_iff]
      have hopened : (IOThread.openStream stream.iothr).writing =
          stream.iothr.writing := by
        simp [IOThread.openStream, IOThread.writing, List.countP_append]
      calc (IOThread.openStream stream.iothr).writing
          = 0 := hopened.trans hflag
        _ = stream.iothr.isSending.toNat := by rw [hidle, Bool.toNat_false]
    case h_3 id request rest hrequests =>
      rcases writing_writeRequest (.heap id request)
        { stream with requests := rest } with hcrashed | ⟨hwriting, -⟩
      · exact Or.inl hcrashed
      · right
        rw [IOThread.flagged_iff]
        exact hwriting.trans (congrArg Nat.succ hflag)

/-- A successful Write hands the flag on to the next one or clears it. -/
theorem WriteFlag.writeDone {stream : RPCStream}
    (hnone : stream.iothr.writing = 0)
    (hsending : stream.iothr.isSending = true) :
    (stream.writeDone true).WriteFlag := by
  unfold RPCStream.writeDone
  rw [if_pos rfl]
  split
  case h_1 =>
    right
    rw [IOThread.flagged_iff]
    exact hnone
  case h_2 item rest hrequests =>
    rcases writing_writeRequest item { stream with requests := rest }
      with hcrashed | ⟨hwriting, hkept⟩
    · exact Or.inl hcrashed
    · right
      rw [IOThread.flagged_iff, hkept, hwriting]
      dsimp only
      rw [hnone, hsending, Bool.toNat_true]

theorem readDone_writing (ok : Bool) (tag : ℕ) (reply : Reply)
    (stream : RPCStream) :
    (stream.readDone ok tag reply).iothr.writing = stream.iothr.writing ∧
      (stream.readDone ok tag reply).iothr.isSending =
        stream.iothr.isSending ∧
      (stream.readDone ok tag reply).iothr.connectSequenceNum =
        stream.iothr.connectSequenceNum := by
  unfold readDone
  dsimp only
  split
  · refine ⟨?_, rfl, rfl⟩
    simp [onIOThread, pushReply, IOThread.writing, List.countP_append]
  · split <;> exact ⟨rfl, rfl, rfl⟩

/-- The operation the completion queue delivers is no Write. -/
theorem handleEvent_writing {tag : ℕ}
    (htag : IOThread.isWriteOperation tag = false) (ok : Bool) (reply : Reply)
    (stream : RPCStream) :
    (stream.handleEvent ok tag reply).iothr.writing = stream.iothr.writing ∧
      (stream.handleEvent ok tag reply).iothr.isSending =
        stream.iothr.isSending ∧
      (stream.handleEvent ok tag reply).iothr.connectSequenceNum =
        stream.iothr.connectSequenceNum := by
  unfold handleEvent
  rw [htag, if_neg Bool.false_ne_true]
  split
  · exact readDone_writing ok tag reply stream
  · split <;> exact ⟨rfl, rfl, rfl⟩

/-- Only the I/O thread touches the sending side, in two of its steps. -/
theorem did_writes {stream next : RPCStream} {action : Action}
    (hdid : Did stream action next) :
    next.writes = stream.writes ∧ stream.WriteCompletes action ∨
      action = .ioTimeout ∧ next = stream.ioTimeout ∨
      ∃ index ok reply tag, action = .ioEvent index ok reply ∧
        stream.iothr.cq[index]? = some tag ∧
        next = stream.takeEvent index ok tag reply := by
  cases hdid with
  | callBegin request =>
      rcases callBegin_eq stream request with ⟨-, heq⟩ | heq
      all_goals
        rw [heq]
        exact Or.inl ⟨rfl, trivial⟩
  | update hupdated => exact Or.inl ⟨update_writes hupdated, trivial⟩
  | stop =>
      obtain ⟨iothr, hcq, hflag, hseq, hstop⟩ := stop_eq stream
      have hwrites : (iothr.cq, iothr.isSending, iothr.connectSequenceNum) =
          stream.writes := by
        rw [hcq, hflag, hseq]
        rfl
      rcases hstop with heq | heq
      all_goals
        rw [heq]
        exact Or.inl ⟨hwrites, trivial⟩
  | ioTimeout => exact Or.inr (Or.inl ⟨rfl, rfl⟩)
  | @ioEvent index tag ok reply htag =>
      exact Or.inr (Or.inr ⟨index, ok, reply, tag, rfl, htag, rfl⟩)
  | ioDrain seq =>
      refine Or.inl ⟨?_, trivial⟩
      unfold ioDrain
      split
      case h_1 item rest hrequests => cases item <;> rfl
      case h_2 =>
        dsimp only
        split <;> rfl
  | _ => exact Or.inl ⟨rfl, trivial⟩

/-! ## The flag -/

/-- A failed Write leaves the flag set with no Write outstanding. -/
theorem takeEvent_failed {stream : RPCStream} {index tag : ℕ}
    (hflag : stream.iothr.Flagged)
    (htag : stream.iothr.cq[index]? = some tag)
    (hwrite : IOThread.isWriteOperation tag = true) (reply : Reply) :
    (stream.takeEvent index false tag reply).crashed = stream.crashed ∧
      (stream.takeEvent index false tag reply).iothr.writing = 0 ∧
      (stream.takeEvent index false tag reply).iothr.isSending = true := by
  have hfailed : stream.takeEvent index false tag reply =
      stream.onIOThread fun thread =>
        { thread with cq := thread.cq.eraseIdx index } := by
    simp [takeEvent, handleEvent, hwrite, RPCStream.writeDone]
  rw [IOThread.flagged_iff, IOThread.writing_eraseIdx htag, hwrite,
    Bool.toNat_true] at hflag
  have hone := Bool.toNat_le stream.iothr.isSending
  rw [hfailed]
  refine ⟨rfl, ?_, ?_⟩
  · change (stream.iothr.cq.eraseIdx index).countP
      IOThread.isWriteOperation = 0
    omega
  · change stream.iothr.isSending = true
    cases hidle : stream.iothr.isSending with
    | true => rfl
    | false =>
        rw [hidle, Bool.toNat_false] at hflag
        contradiction

theorem WriteFlag.takeEvent {stream : RPCStream} {index tag : ℕ} {ok : Bool}
    (hflag : stream.iothr.Flagged)
    (htag : stream.iothr.cq[index]? = some tag)
    (hok : IOThread.isWriteOperation tag = true → ok = true)
    (reply : Reply) : (stream.takeEvent index ok tag reply).WriteFlag := by
  rw [IOThread.flagged_iff, IOThread.writing_eraseIdx htag] at hflag
  cases hwrite : IOThread.isWriteOperation tag with
  | true =>
      obtain rfl := hok hwrite
      rw [hwrite, Bool.toNat_true] at hflag
      have hsending : stream.iothr.isSending = true := by
        cases hidle : stream.iothr.isSending with
        | true => rfl
        | false =>
            rw [hidle, Bool.toNat_false] at hflag
            contradiction
      rw [hsending, Bool.toNat_true] at hflag
      unfold RPCStream.takeEvent handleEvent
      rw [hwrite, if_pos rfl]
      exact WriteFlag.writeDone (Nat.succ.inj hflag) hsending
  | false =>
      rw [hwrite, Bool.toNat_false, Nat.add_zero] at hflag
      obtain ⟨hwriting, hkept, -⟩ := handleEvent_writing hwrite ok reply
        (stream.onIOThread fun thread =>
          { thread with cq := thread.cq.eraseIdx index })
      right
      rw [IOThread.flagged_iff, RPCStream.takeEvent, hwriting, hkept]
      exact hflag

theorem WriteFlag.of_writes_eq {stream next : RPCStream}
    (hflag : stream.iothr.Flagged) (heq : next.writes = stream.writes) :
    next.WriteFlag := by
  obtain ⟨hwriting, hkept, -⟩ := writing_of_writes_eq heq
  right
  rw [IOThread.flagged_iff, hwriting, hkept]
  exact IOThread.flagged_iff.mp hflag

/-- From a right flag an action leads to a right flag exactly when it is not
the completion of a failed Write. -/
theorem writeFlag_did_iff {stream next : RPCStream} {action : Action}
    (hcrashed : stream.crashed = false) (hflag : stream.iothr.Flagged)
    (hdid : Did stream action next) :
    next.WriteFlag ↔ stream.WriteCompletes action := by
  rcases did_writes hdid with ⟨heq, hcompletes⟩ | ⟨rfl, rfl⟩ |
    ⟨index, ok, reply, tag, rfl, htag, rfl⟩
  · exact iff_of_true (WriteFlag.of_writes_eq hflag heq) hcompletes
  · exact iff_of_true (WriteFlag.ioTimeout hflag) trivial
  · constructor
    · intro hright tag' htag' hwrite
      rw [htag, Option.mem_some_iff] at htag'
      subst htag'
      by_contra hfailed
      rw [Bool.not_eq_true] at hfailed
      subst hfailed
      obtain ⟨hkept, hnone, hsending⟩ :=
        takeEvent_failed hflag htag hwrite reply
      rcases hright with hcrash | hflagged
      · rw [hkept, hcrashed] at hcrash
        contradiction
      · rw [hflagged.sending, hnone] at hsending
        contradiction
    · intro hcompletes
      exact WriteFlag.takeEvent hflag htag (hcompletes tag htag) reply

theorem writeFlag_step_iff {stream next : RPCStream} {action : Action}
    (hflag : stream.WriteFlag) (hstep : stream.step action = some next) :
    next.WriteFlag ↔ stream.WriteCompletes action := by
  have hcrashed := (step_eq_some.mp hstep).1
  rcases hflag with hcrash | hflagged
  · exact absurd hcrash (by simp [hcrashed])
  · exact writeFlag_did_iff hcrashed hflagged (did_of_step hstep)

/-- In every run of the client the flag is right after every step if and only
if no Write that completes has failed. -/
theorem write_flag (actions : List Action) :
    AllSteps step (fun _ _ next => next.WriteFlag) RPCStream.new actions ↔
      AllSteps step (fun stream action _ => stream.WriteCompletes action)
        RPCStream.new actions := by
  apply allSteps_iff_of_invariant
  · intro stream action next hflag hstep hcompletes
    exact (writeFlag_step_iff hflag hstep).mpr hcompletes
  · intro stream action next hflag hstep
    exact writeFlag_step_iff hflag hstep
  · exact Or.inr (by decide)

private def connected (number : ℕ) : UpdateInput where
  ready := true
  onOpenStream := true
  onCloseStream := 0
  addPayload := []
  now := number

private def emptyReply : Reply :=
  { type := 0, msgid := 0, error := none, payload := [] }

/-- The client connects and its Connect request is written. -/
private def connecting : List Action :=
  List.replicate 3 (.update (connected 1)) ++
    [.ioTimeout, .ioEvent 0 true emptyReply] ++
    List.replicate 6 (.update (connected 2)) ++ [.ioTimeout]

/-- The connection breaks while the Connect request is being written.  The
flag stays set with no Write outstanding, and when the client wants to connect
again the TIMEOUT branch does not pop its `ESTABLISH_REQUEST`. -/
theorem write_flag_fails :
    ¬AllSteps step (fun _ _ next => next.WriteFlag) RPCStream.new
        (connecting ++ [.ioEvent 1 false emptyReply]) ∧
      ∃ final, exec step RPCStream.new
          (connecting ++
            [.ioEvent 1 false emptyReply, .ioEvent 0 false emptyReply,
              .ioDrain] ++
            List.replicate 7 (.update (connected 3)) ++
            [.ioTimeout, .ioTimeout]) = some final ∧
        final.requests = [.establishRequest] ∧
        final.iothr.cq = [] ∧ final.iothr.isSending = true :=
  ⟨by decide, _, rfl, rfl, rfl, rfl⟩

/-! ## The stuck flag -/

/-- The flag is set and no Write is outstanding. -/
structure Stuck (stream : RPCStream) : Prop where
  writing : stream.iothr.writing = 0
  sending : stream.iothr.isSending = true

theorem stuck_of_failed {stream : RPCStream} {index tag : ℕ}
    (hflag : stream.iothr.Flagged)
    (htag : stream.iothr.cq[index]? = some tag)
    (hwrite : IOThread.isWriteOperation tag = true) (reply : Reply) :
    Stuck (stream.takeEvent index false tag reply) :=
  let hfailed := takeEvent_failed hflag htag hwrite reply
  ⟨hfailed.2.1, hfailed.2.2⟩

theorem Stuck.did {stream next : RPCStream} {action : Action}
    (hstuck : Stuck stream) (hdid : Did stream action next) :
    Stuck next ∧
      next.iothr.connectSequenceNum = stream.iothr.connectSequenceNum := by
  rcases did_writes hdid with ⟨heq, -⟩ | ⟨-, rfl⟩ |
    ⟨index, ok, reply, tag, -, htag, rfl⟩
  · obtain ⟨hwriting, hkept, hseq⟩ := writing_of_writes_eq heq
    exact ⟨⟨hwriting.trans hstuck.writing, hkept.trans hstuck.sending⟩, hseq⟩
  · have hidle : stream.ioTimeout = stream := by
      unfold ioTimeout
      rw [if_pos hstuck.sending]
    rw [hidle]
    exact ⟨hstuck, rfl⟩
  · have hwriting := IOThread.writing_eraseIdx htag
    rw [hstuck.writing] at hwriting
    have hother : IOThread.isWriteOperation tag = false := by
      cases hwrite : IOThread.isWriteOperation tag with
      | false => rfl
      | true =>
          rw [hwrite, Bool.toNat_true] at hwriting
          contradiction
    obtain ⟨hkept, hflag, hseq⟩ := handleEvent_writing hother ok reply
      (stream.onIOThread fun thread =>
        { thread with cq := thread.cq.eraseIdx index })
    rw [hother, Bool.toNat_false, Nat.add_zero] at hwriting
    exact ⟨⟨hkept.trans hwriting.symm, hflag.trans hstuck.sending⟩, hseq⟩

/-- A client whose flag is stuck never opens a connection again. -/
theorem stuck_exec {stream final : RPCStream} {actions : List Action}
    (hstuck : Stuck stream) (hrun : exec step stream actions = some final) :
    Stuck final ∧
      final.iothr.connectSequenceNum = stream.iothr.connectSequenceNum := by
  let invariant (state : RPCStream) : Prop := Stuck state ∧
    state.iothr.connectSequenceNum = stream.iothr.connectSequenceNum
  have hkept : ∀ state action next, invariant state →
      step state action = some next → invariant next := by
    rintro state action next ⟨hstate, hsame⟩ hstep
    obtain ⟨hnext, hseq⟩ := hstate.did (did_of_step hstep)
    exact ⟨hnext, hseq.trans hsame⟩
  exact exec_invariant hkept ⟨hstuck, rfl⟩ hrun

end RPCStream

end GrpcMtk
