import GrpcMtk.Client.Opening

/-!
# What Stop waits for

`mtk_conn_close` calls `IOThread::Stop`, which joins the I/O thread.  While
the client connects or is connected, the wait is bounded: two seconds after
the shutdown request `alive_` is cleared.  In DISCONNECT only the completion
queue is shut down, and `AsyncNext` does not return SHUTDOWN before every
operation on the queue has completed.
-/

namespace GrpcMtk

open GrpcMtk.Proto
open GrpcMtk.Runs

namespace RPCStream

/-- A step of `Stop` or of the I/O thread for which no operation completes. -/
def Action.Unaided : Action → Prop
  | .stopTimeout | .ioTimeout | .ioShutdown | .ioDrain => True
  | _ => False

/-- As before, or an operation completes with an error. -/
def Action.Failing : Action → Prop
  | .stopTimeout | .ioTimeout | .ioShutdown | .ioDrain => True
  | .ioEvent _ ok _ => ok = false
  | _ => False

/-- `thr_.join()` returns, or there is no thread to join. -/
def Joined (stream : RPCStream) : Prop :=
  stream.crashed = false ∧
    (stream.iothr.joinable →
      stream.iothr.alive = false ∧ stream.iothr.running = .run)

/-- Some run of these actions gets to where `Stop` returns. -/
def CanReturn (allowed : Action → Prop) (stream : RPCStream) : Prop :=
  ∃ actions final, (∀ action ∈ actions, allowed action) ∧
    exec step stream actions = some final ∧ final.Joined

/-- Whichever of these actions come first, `Stop` can still return behind
them. -/
def Returns (allowed : Action → Prop) (stream : RPCStream) : Prop :=
  ∀ actions final, (∀ action ∈ actions, allowed action) →
    exec step stream actions = some final → CanReturn allowed final

/-- The I/O thread is not about to delete the constant ESTABLISH_REQUEST. -/
def DrainSafe (stream : RPCStream) : Prop :=
  stream.iothr.running = .run ∨ .establishRequest ∉ stream.requests

/-- The I/O thread can leave the loop of `Run` though no operation completes. -/
def LeavesRun (stream : RPCStream) : Prop :=
  stream.iothr.alive = false ∨
    NetworkStatus.connecting.value ≤ stream.status.value ∨
    stream.iothr.cq = []

/-- It can do so whatever it pops first: with nothing outstanding, there must
be nothing it could open or write. -/
def EndsRun (stream : RPCStream) : Prop :=
  stream.iothr.alive = false ∨
    NetworkStatus.connecting.value ≤ stream.status.value ∨
    stream.iothr.cq = [] ∧
      (stream.iothr.isSending = true ∨ stream.iothr.running ≠ .run ∨
        stream.requests = [])

/-! ## What Stop has done -/

/-- Past its beginning `Stop` has set `sending_shutdown_`, and in DISCONNECT
it has shut the completion queue down. -/
def Stopping (stream : RPCStream) : Prop :=
  stream.updating = .stop → stream.iothr.joinable →
    stream.iothr.sendingShutdown = true ∧
      (NetworkStatus.connecting.value ≤ stream.status.value ∨
        stream.iothr.cqShutdown = true)

section Stopping

variable {stream next : RPCStream}

/-- `Update` never goes on to `Stop`. -/
theorem updating_of_update {input : UpdateInput}
    (hupdate : stream.update input = some next) : next.updating ≠ .stop := by
  unfold update at hupdate
  split at hupdate
  case h_1 hupdating =>
    split at hupdate <;> obtain rfl := Option.some.inj hupdate <;> simp
  case h_2 hupdating =>
    split at hupdate
    case h_4 reply rest hreplys =>
      obtain rfl := Option.some.inj hupdate
      obtain ⟨reqmap, invoked, status, replys, notified, heq⟩ :=
        processReply_eq { stream with replys := rest } reply input.onOpenStream
      rw [heq]
      simp [hupdating]
    all_goals
      obtain rfl := Option.some.inj hupdate
      simp
  case h_3 reason hupdating =>
    split at hupdate <;> obtain rfl := Option.some.inj hupdate <;>
      simp [hupdating]
  case h_4 reason hupdating =>
    split at hupdate
    case h_1 hrequests =>
      obtain rfl := Option.some.inj hupdate
      simp
    case h_2 item rest hrequests =>
      obtain rfl := Option.some.inj hupdate
      obtain ⟨consumed, drained, crashed, heq⟩ :=
        deleteRequest_eq { stream with requests := rest } item
      rw [heq]
      simp [hupdating]
  case h_5 reason hupdating =>
    obtain rfl := Option.some.inj hupdate
    obtain ⟨restarting, reconnectWhen, reconnectAttempt, status, heq⟩ :=
      settle_eq { stream with updating := .switch }.clearReqmap reason input
    rw [heq]
    simp [clearReqmap]
  case h_6 hupdating =>
    obtain rfl := Option.some.inj hupdate
    unfold switchStatus
    split
    · split <;> simp [onIOThread, enqueueRequest]
    all_goals simp [startWrite, enqueueRequest]
  case h_7 now hupdating =>
    obtain rfl := Option.some.inj hupdate
    obtain ⟨status, replys, heq⟩ := processTimeout_eq
      { stream with updating := .start } now input.onOpenStream
    rw [heq]
    simp
  case h_8 => contradiction

theorem stopping_stop : Stopping stream.stop := by
  intro hupdating hjoinable
  unfold stop at hjoinable ⊢
  dsimp only at hjoinable ⊢
  split at hjoinable
  case isTrue hthread =>
    rw [if_pos hthread]
    split
    case isTrue hstatus => exact ⟨rfl, Or.inl hstatus⟩
    case isFalse hstatus => exact ⟨rfl, Or.inr rfl⟩
  case isFalse hthread => exact absurd hjoinable hthread

/-- A step that leaves `Stop` where it is leaves what it has done. -/
theorem Stopping.of_kept (hstopping : Stopping stream)
    (hupdating : next.updating = stream.updating)
    (hstatus : next.status = stream.status)
    (hkept : Kept stream.iothr next.iothr) : Stopping next := by
  intro hstop hjoinable
  rw [hupdating] at hstop
  rw [hkept.joinable] at hjoinable
  obtain ⟨hsending, hdone⟩ := hstopping hstop hjoinable
  rw [hkept.sendingShutdown, hstatus]
  exact ⟨hsending, hdone.imp_right hkept.cqShutdown⟩

theorem Stopping.of_step {action : Action} (hstopping : Stopping stream)
    (hstep : stream.step action = some next) : Stopping next := by
  have hdid := did_of_step hstep
  by_cases hio : action.onIOThread
  · obtain ⟨replys, requests, iothr, consumed, drained, crashed, heq⟩ :=
      did_onIOThread hdid hio
    exact hstopping.of_kept (heq ▸ rfl) (heq ▸ rfl) 
        (kept_of_did stream hdid hio)
  · cases hdid with
    | update hupdated =>
        intro hstop
        exact absurd hstop (updating_of_update (step_eq_some.mp hstep).2)
    | stop => exact stopping_stop
    | release => exact hstopping.of_kept rfl rfl (.refl _)
    | releaseEnqueue => exact hstopping.of_kept rfl rfl (.refl _)
    | callBegin request =>
        obtain ⟨-, heq⟩ | heq := callBegin_eq stream request
        all_goals
          rw [heq]
          exact hstopping.of_kept rfl rfl (.refl _)
    | callNumber now hcalling => exact hstopping.of_kept rfl rfl (.refl _)
    | callEnqueue hcalling => exact hstopping.of_kept rfl rfl (.refl _)
    | callInsert hcalling => exact hstopping.of_kept rfl rfl (.refl _)
    | _ => exact absurd trivial hio

theorem stopping_of_exec {actions : List Action}
    (hrun : exec step new actions = some stream) : Stopping stream :=
  exec_invariant (fun _ _ _ hstopping hstep => hstopping.of_step hstep)
    (fun hstop => absurd hstop (by simp [new])) hrun

end Stopping

/-! ## Runs to the join -/

section Runs

variable {stream middle : RPCStream} {allowed : Action → Prop}

theorem Joined.returns (hjoined : stream.Joined) : CanReturn allowed stream :=
  ⟨[], stream, fun _ hmem => absurd hmem List.not_mem_nil, rfl, hjoined⟩

theorem CanReturn.of_exec {actions : List Action}
    (hallowed : ∀ action ∈ actions, allowed action)
    (hrun : exec step stream actions = some middle)
    (hreturns : CanReturn allowed middle) : CanReturn allowed stream := by
  obtain ⟨others, final, hothers, hrest, hjoined⟩ := hreturns
  refine ⟨actions ++ others, final, ?_,
    exec_append_eq_some.mpr ⟨middle, hrun, hrest⟩, hjoined⟩
  intro action hmem
  exact (List.mem_append.mp hmem).elim (hallowed action) (hothers action)

theorem CanReturn.of_step {action : Action} (hallowed : allowed action)
    (hstep : stream.step action = some middle)
    (hreturns : CanReturn allowed middle) : CanReturn allowed stream :=
  .of_exec (List.forall_mem_singleton.mpr hallowed)
    (exec_cons_eq_some.mpr ⟨middle, hstep, rfl⟩) hreturns

theorem CanReturn.mono {other : Action → Prop}
    (hmono : ∀ action, allowed action → other action)
    (hreturns : CanReturn allowed stream) : CanReturn other stream := by
  obtain ⟨actions, final, hallowed, hrun, hjoined⟩ := hreturns
  exact ⟨actions, final, fun action hmem => hmono action
    (hallowed action hmem), hrun, hjoined⟩

theorem Action.Unaided.failing {action : Action} (hunaided : action.Unaided) :
    action.Failing := by
  cases action with
  | stopTimeout | ioTimeout | ioShutdown | ioDrain => trivial
  | _ => exact hunaided.elim

/-- `DrainRequestQueue` gets to its end when no constant is in its way. -/
theorem exec_drain {seq : ℕ} (hcrashed : stream.crashed = false)
    (hrunning : stream.iothr.running = .drainRequestQueue seq)
    (hsafe : .establishRequest ∉ stream.requests) :
    ∃ actions final, (∀ action ∈ actions, action = .ioDrain) ∧
      exec step stream actions = some final ∧ final.crashed = false ∧
      final.iothr = { stream.iothr with running := .run } ∧
      final.updating = stream.updating ∧ final.status = stream.status := by
  have hstep : ∀ stream : RPCStream, stream.crashed = false →
      stream.iothr.running = .drainRequestQueue seq →
        stream.step .ioDrain = some (stream.ioDrain seq) := by
    intro stream hcrashed hrunning
    rw [step_eq_some, act, hrunning]
    exact ⟨hcrashed, rfl⟩
  induction hrequests : stream.requests generalizing stream with
  | nil =>
      refine ⟨[.ioDrain], stream.ioDrain seq,
        fun _ hmem => List.mem_singleton.mp hmem,
        exec_cons_eq_some.mpr ⟨_, hstep stream hcrashed hrunning, rfl⟩, ?_⟩
      rw [ioDrain, hrequests]
      dsimp only
      split <;> exact ⟨hcrashed, rfl, rfl, rfl⟩
  | cons item rest ih =>
      rw [hrequests, List.mem_cons, not_or] at hsafe
      cases item with
      | establishRequest => exact absurd rfl hsafe.1
      | heap call request =>
          have hnext : stream.ioDrain seq =
              { stream with requests := rest }.deleteRequest
                (.heap call request) := by
            rw [ioDrain, hrequests]
          obtain ⟨actions, final, hactions, hrun, hfinal⟩ :=
            @ih (stream.ioDrain seq) (hnext ▸ hcrashed) (hnext ▸ hrunning)
              (hnext ▸ hsafe.2) (hnext ▸ rfl)
          refine ⟨.ioDrain :: actions, final,
            List.forall_mem_cons.mpr ⟨rfl, hactions⟩,
            exec_cons_eq_some.mpr ⟨_, hstep stream hcrashed hrunning, hrun⟩,
            ?_⟩
          rw [hnext] at hfinal
          exact hfinal

/-- With an error every operation but a close is only taken from the
completion queue once `sending_shutdown_` is set; a close ends the loop. -/
theorem takeEvent_of_sendingShutdown
    (hsending : stream.iothr.sendingShutdown = true)
    (index tag : ℕ) (reply : Reply) :
    ∃ iothr, stream.takeEvent index false tag reply = { stream with iothr } ∧
      iothr.cq = stream.iothr.cq.eraseIdx index ∧
      iothr.running = stream.iothr.running := by
  rw [takeEvent, handleEvent]
  split
  · exact ⟨_, rfl, rfl, rfl⟩
  · split
    · rw [readDone]
      dsimp only
      rw [if_neg Bool.false_ne_true, if_pos]
      · exact ⟨_, rfl, rfl, rfl⟩
      · exact hsending
    · split
      · exact ⟨_, rfl, rfl, rfl⟩
      · exact ⟨_, rfl, rfl, rfl⟩

/-- In the loop of `Run`, the I/O thread comes to its end by itself when it is
to, or `Stop` ends it. -/
theorem LeavesRun.returns (hcrashed : stream.crashed = false)
    (hstop : stream.updating = .stop) (hstopping : Stopping stream)
    (hrunning : stream.iothr.running = .run) (hleaves : LeavesRun stream) :
    CanReturn Action.Unaided stream := by
  by_cases hjoined : stream.iothr.joinable = true → stream.iothr.alive = false
  · exact Joined.returns ⟨hcrashed, fun hjoinable =>
      ⟨hjoined hjoinable, hrunning⟩⟩
  · rw [Classical.not_imp, Bool.not_eq_false] at hjoined
    obtain ⟨hjoinable, halive⟩ := hjoined
    by_cases hconnecting :
        NetworkStatus.connecting.value ≤ stream.status.value
    · have hstep : stream.step .stopTimeout =
          some (stream.onIOThread fun thread =>
            { thread with cqShutdown := true, alive := false }) := by
        rw [step_eq_some, act, if_pos ⟨hstop, hjoinable, hconnecting, halive⟩]
        exact ⟨hcrashed, rfl⟩
      have hunaided : Action.Unaided .stopTimeout := trivial
      exact .of_step hunaided hstep
        (Joined.returns ⟨hcrashed, fun _ => ⟨rfl, hrunning⟩⟩)
    · have hshutdown :=
        (hstopping hstop hjoinable).2.resolve_left hconnecting
      have hempty := (hleaves.resolve_left (by simp [halive])).resolve_left
        hconnecting
      have hstep : stream.step .ioShutdown =
          some (stream.onIOThread fun thread =>
            { thread with alive := false }) := by
        rw [step_eq_some, act,
          if_pos ⟨⟨hjoinable, halive, hrunning⟩, hshutdown, hempty⟩]
        exact ⟨hcrashed, rfl⟩
      have hunaided : Action.Unaided .ioShutdown := trivial
      exact .of_step hunaided hstep
        (Joined.returns ⟨hcrashed, fun _ => ⟨rfl, hrunning⟩⟩)

/-- When what is outstanding fails, the loop of `Run` ends. -/
theorem returns_failing (hcrashed : stream.crashed = false)
    (hstop : stream.updating = .stop) (hstopping : Stopping stream)
    (hrunning : stream.iothr.running = .run) :
    CanReturn Action.Failing stream := by
  induction hcq : stream.iothr.cq generalizing stream with
  | nil =>
      exact (LeavesRun.returns hcrashed hstop hstopping hrunning
        (Or.inr (Or.inr hcq))).mono fun _ => Action.Unaided.failing
  | cons tag rest ih =>
      by_cases hjoined : stream.iothr.joinable = true →
          stream.iothr.alive = false
      · exact Joined.returns ⟨hcrashed, fun hjoinable =>
          ⟨hjoined hjoinable, hrunning⟩⟩
      · rw [Classical.not_imp, Bool.not_eq_false] at hjoined
        obtain ⟨hjoinable, halive⟩ := hjoined
        let reply : Reply :=
          { type := 0, msgid := 0, error := none, payload := [] }
        have hhead : stream.iothr.cq[0]? = some tag := by rw [hcq]; rfl
        have hstep : stream.step (.ioEvent 0 false reply) =
            some (stream.takeEvent 0 false tag reply) := by
          rw [step_eq_some, act, hhead]
          exact ⟨hcrashed, if_pos ⟨hjoinable, halive, hrunning⟩⟩
        obtain ⟨iothr, heq, hrest, hthread⟩ := takeEvent_of_sendingShutdown
          (hstopping hstop hjoinable).1 0 tag reply
        have hfailing : Action.Failing (.ioEvent 0 false reply) := rfl
        refine .of_step hfailing hstep ?_
        have hafter := hstopping.of_step hstep
        rw [heq] at hafter ⊢
        refine ih hcrashed hstop hafter (hthread.trans hrunning) ?_
        rw [hrest, hcq]
        rfl

/-- The end of `DrainRequestQueue` leads back to the loop of `Run`. -/
theorem DrainSafe.returns (hallowed : allowed .ioDrain)
    (hcrashed : stream.crashed = false) (hstop : stream.updating = .stop)
    (hsafe : DrainSafe stream) (hrest : ∀ next : RPCStream,
      next.crashed = false → next.updating = .stop →
      next.iothr = { stream.iothr with running := .run } →
      next.status = stream.status → CanReturn allowed next) :
    CanReturn allowed stream := by
  cases hrunning : stream.iothr.running with
  | run =>
      refine hrest stream hcrashed hstop ?_ rfl
      rw [← hrunning]
  | drainRequestQueue seq =>
      have hmem := hsafe.resolve_left (by simp [hrunning])
      obtain ⟨actions, final, hactions, hrun, hfinal, hiothr, hupdating,
        hstatus⟩ := exec_drain hcrashed hrunning hmem
      exact .of_exec (fun action haction => hactions action haction ▸ hallowed)
        hrun (hrest final hfinal (hupdating.trans hstop) hiothr hstatus)

end Runs

/-! ## What a run to the join needs -/

section Needs

variable {stream next : RPCStream} {action : Action}

/-- The TIMEOUT branch puts operations on the completion queue and takes none
from it. -/
theorem ioTimeout_thread (stream : RPCStream) :
    stream.ioTimeout.iothr.alive = stream.iothr.alive ∧
      stream.iothr.cq <+: stream.ioTimeout.iothr.cq := by
  rw [ioTimeout]
  split
  · exact ⟨rfl, List.prefix_refl _⟩
  · split
    · exact ⟨rfl, List.prefix_refl _⟩
    · exact ⟨rfl, List.prefix_append _ _⟩
    case h_3 call request rest hrequests =>
      rw [writeRequest]
      dsimp only
      split
      · exact ⟨rfl, List.prefix_append _ _⟩
      · exact ⟨rfl, List.prefix_refl _⟩

theorem ioDrain_thread (seq : ℕ) (stream : RPCStream) :
    (stream.ioDrain seq).iothr.alive = stream.iothr.alive ∧
      (stream.ioDrain seq).iothr.cq = stream.iothr.cq := by
  rw [ioDrain]
  split
  case h_1 item rest hrequests => cases item <;> exact ⟨rfl, rfl⟩
  case h_2 hrequests =>
    dsimp only
    split <;> exact ⟨rfl, rfl⟩

theorem LeavesRun.of_pending (halive : next.iothr.alive = stream.iothr.alive)
    (hstatus : next.status = stream.status)
    (hcq : stream.iothr.cq <+: next.iothr.cq) (hleaves : LeavesRun next) :
    LeavesRun stream := by
  rcases hleaves with hdead | hconnecting | hempty
  · exact Or.inl (halive ▸ hdead)
  · exact Or.inr (Or.inl (hstatus ▸ hconnecting))
  · rw [hempty, List.prefix_nil] at hcq
    exact Or.inr (Or.inr hcq)

/-- Without a completion nothing brings the I/O thread nearer to its end than
it is. -/
theorem LeavesRun.of_step (hunaided : action.Unaided)
    (hstep : stream.step action = some next) (hleaves : LeavesRun next) :
    LeavesRun stream := by
  obtain ⟨-, hact⟩ := step_eq_some.mp hstep
  cases action with
  | stopTimeout =>
      simp only [act] at hact
      split at hact
      case isTrue hguard => exact Or.inr (Or.inl hguard.2.2.1)
      · contradiction
  | ioTimeout =>
      simp only [act] at hact
      split at hact
      · obtain rfl := Option.some.inj hact
        obtain ⟨requests, iothr, consumed, crashed, heq⟩ :=
          ioTimeout_eq stream
        obtain ⟨halive, hcq⟩ := ioTimeout_thread stream
        exact hleaves.of_pending halive (heq ▸ rfl) hcq
      · contradiction
  | ioShutdown =>
      simp only [act] at hact
      split at hact
      case isTrue hguard => exact Or.inr (Or.inr hguard.2.2)
      · contradiction
  | ioDrain =>
      simp only [act] at hact
      split at hact
      · contradiction
      case h_2 seq hrunning =>
        obtain rfl := Option.some.inj hact
        obtain ⟨replys, requests, iothr, consumed, drained, crashed, heq⟩ :=
          ioDrain_eq stream seq
        obtain ⟨halive, hcq⟩ := ioDrain_thread seq stream
        exact hleaves.of_pending halive (heq ▸ rfl) (hcq ▸ List.prefix_refl _)
  | _ => exact hunaided.elim

/-- A drain that has come past ESTABLISH_REQUEST has deleted it. -/
theorem DrainSafe.of_step (hfailing : action.Failing)
    (hstep : stream.step action = some next) (hcrashed : next.crashed = false)
    (hsafe : DrainSafe next) : DrainSafe stream := by
  obtain ⟨-, hact⟩ := step_eq_some.mp hstep
  cases action with
  | stopTimeout =>
      simp only [act] at hact
      split at hact
      · obtain rfl := Option.some.inj hact
        exact hsafe
      · contradiction
  | ioTimeout =>
      simp only [act] at hact
      split at hact
      case isTrue hwaiting => exact Or.inl hwaiting.2.2
      · contradiction
  | ioEvent index ok reply =>
      simp only [act] at hact
      split at hact
      · contradiction
      · split at hact
        case isTrue hwaiting => exact Or.inl hwaiting.2.2
        · contradiction
  | ioShutdown =>
      simp only [act] at hact
      split at hact
      case isTrue hguard => exact Or.inl hguard.1.2.2
      · contradiction
  | ioDrain =>
      simp only [act] at hact
      split at hact
      · contradiction
      case h_2 seq hrunning =>
        obtain rfl := Option.some.inj hact
        cases hrequests : stream.requests with
        | nil => exact Or.inr (hrequests ▸ List.not_mem_nil)
        | cons item rest =>
            have hnext : stream.ioDrain seq =
                { stream with requests := rest }.deleteRequest item := by
              rw [ioDrain, hrequests]
            rw [hnext] at hcrashed hsafe
            cases item with
            | establishRequest => contradiction
            | heap call request =>
                refine hsafe.imp_right fun hrest hmem => ?_
                rw [hrequests, List.mem_cons] at hmem
                exact hrest (hmem.resolve_left (by simp))
  | _ => exact hfailing.elim

theorem Action.Failing.onIOThread (hfailing : action.Failing) :
    action.onIOThread := by
  cases action with
  | stopTimeout | ioTimeout | ioEvent | ioShutdown | ioDrain => trivial
  | _ => exact hfailing.elim

/-- What holds at the join, and only comes about where it holds already, holds
where a run to the join starts. -/
theorem CanReturn.reflect {allowed : Action → Prop} (holds : RPCStream → Prop)
    (hfailing : ∀ action, allowed action → action.Failing)
    (hstep : ∀ stream action next, allowed action →
      step stream action = some next → next.crashed = false →
        holds next → holds stream)
    (hjoined : ∀ stream, stream.iothr.alive = false →
      stream.iothr.running = .run → holds stream)
    (hreturns : CanReturn allowed stream) :
    stream.iothr.joinable = false ∨ holds stream := by
  obtain ⟨actions, final, hallowed, hrun, hcrashed, hend⟩ := hreturns
  let needed (stream : RPCStream) : Prop :=
    stream.crashed = false ∧ (stream.iothr.joinable = false ∨ holds stream)
  have hneeded : ∀ stream action next, allowed action →
      step stream action = some next → needed next → needed stream := by
    intro stream action next haction hnext ⟨hnone, hrest⟩
    have hkept := kept_of_did stream (did_of_step hnext)
      (hfailing action haction).onIOThread
    refine ⟨(step_eq_some.mp hnext).1, hrest.imp ?_ ?_⟩
    · exact fun hjoinable => hkept.joinable.symm.trans hjoinable
    · exact hstep stream action next haction hnext hnone
  have hfinal : needed final := by
    refine ⟨hcrashed, ?_⟩
    cases hjoinable : final.iothr.joinable with
    | false => exact Or.inl rfl
    | true =>
        obtain ⟨halive, hrunning⟩ := hend hjoinable
        exact Or.inr (hjoined final halive hrunning)
  exact (exec_reflect_of_forall hneeded hallowed hrun hfinal).2

end Needs

/-- Once `IOThread::Stop` waits, it can return with no operation completing if
and only if the I/O thread can leave its loop by itself and does not get to
delete the constant ESTABLISH_REQUEST; when the outstanding operations fail, if
and only if it does not get to delete that constant. -/
theorem canReturn_iff (actions : List Action) (stream : RPCStream)
    (hrun : exec step new actions = some stream)
    (hstop : stream.updating = .stop) (hcrashed : stream.crashed = false) :
    (CanReturn Action.Unaided stream ↔
      stream.iothr.joinable = false ∨
        LeavesRun stream ∧ DrainSafe stream) ∧
    (CanReturn Action.Failing stream ↔
      stream.iothr.joinable = false ∨ DrainSafe stream) := by
  have hstopping := stopping_of_exec hrun
  have hjoin : stream.iothr.joinable = false → stream.Joined :=
    fun hjoinable => ⟨hcrashed, fun hthread => by simp [hjoinable] at hthread⟩
  have hafter : ∀ next : RPCStream, next.updating = .stop →
      next.iothr = { stream.iothr with running := .run } →
      next.status = stream.status → Stopping next := by
    intro next hnext hiothr hstatus
    refine hstopping.of_kept (hnext.trans hstop.symm) hstatus ?_
    rw [hiothr]
    exact ⟨rfl, rfl, id, id⟩
  refine ⟨⟨fun hreturns => ?_, fun hends => ?_⟩,
    fun hreturns => ?_, fun hends => ?_⟩
  · exact hreturns.reflect
      (fun source => LeavesRun source ∧ DrainSafe source)
      (fun _ => Action.Unaided.failing)
      (fun source action next haction hstep hnone hholds =>
        ⟨hholds.1.of_step haction hstep,
          hholds.2.of_step haction.failing hstep hnone⟩)
      fun _ halive hrunning => ⟨Or.inl halive, Or.inl hrunning⟩
  · rcases hends with hjoinable | ⟨hleaves, hsafe⟩
    · exact (hjoin hjoinable).returns
    · have hunaided : Action.Unaided .ioDrain := trivial
      refine hsafe.returns hunaided hcrashed hstop
        fun next hnone hnext hiothr hstatus => ?_
      refine LeavesRun.returns hnone hnext (hafter next hnext hiothr hstatus)
        (hiothr ▸ rfl) ?_
      rw [LeavesRun, hiothr, hstatus]
      exact hleaves
  · exact hreturns.reflect DrainSafe (fun _ => id)
      (fun source action next haction hstep hnone hholds =>
        hholds.of_step haction hstep hnone)
      fun _ _ hrunning => Or.inl hrunning
  · rcases hends with hjoinable | hsafe
    · exact (hjoin hjoinable).returns
    · have hfailing : Action.Failing .ioDrain := trivial
      exact hsafe.returns hfailing hcrashed hstop
        fun next hnone hnext hiothr hstatus => returns_failing hnone hnext
          (hafter next hnext hiothr hstatus) (hiothr ▸ rfl)

/-! ## Whatever comes first -/

section Schedules

variable {stream next : RPCStream} {action : Action}

/-- `Stop` waits, and nothing was or is about to be dereferenced that is no
object. -/
structure Waits (stream : RPCStream) : Prop where
  reached : ∃ actions, exec step new actions = some stream
  crashed : stream.crashed = false
  updating : stream.updating = .stop
  drain : DrainSafe stream

/-- The TIMEOUT branch writes through an `io_` that is set. -/
theorem ioTimeout_crashed (hopening : stream.Opened ∨ stream.Unopened) :
    stream.ioTimeout.crashed = stream.crashed := by
  rw [ioTimeout]
  split
  · rfl
  · split
    · rfl
    · rfl
    case h_3 call request rest hrequests =>
      rcases hopening with hopened | hunopened
      · unfold writeRequest
        dsimp only
        rw [if_pos hopened.1]
        rfl
      · exact (hunopened.front.not_heap hrequests).elim

theorem Waits.of_step (hwaits : Waits stream) (hfailing : action.Failing)
    (hstep : stream.step action = some next) : Waits next := by
  obtain ⟨⟨actions, hrun⟩, hcrashed, hupdating, hdrain⟩ := hwaits
  have hreached : exec step new (actions ++ [action]) = some next :=
    exec_append_eq_some.mpr
      ⟨stream, hrun, exec_cons_eq_some.mpr ⟨next, hstep, rfl⟩⟩
  have hstop : next.updating = .stop := by
    obtain ⟨replys, requests, iothr, consumed, drained, crashed, rfl⟩ :=
      did_onIOThread (did_of_step hstep) hfailing.onIOThread
    exact hupdating
  suffices hnext : next.crashed = false ∧ DrainSafe next from
    ⟨⟨_, hreached⟩, hnext.1, hstop, hnext.2⟩
  obtain ⟨-, hact⟩ := step_eq_some.mp hstep
  cases action with
  | stopTimeout =>
      simp only [act] at hact
      split at hact
      · obtain rfl := Option.some.inj hact
        exact ⟨hcrashed, hdrain⟩
      · contradiction
  | ioTimeout =>
      simp only [act] at hact
      split at hact
      case isTrue hwaiting =>
        obtain rfl := Option.some.inj hact
        have hsame := ioTimeout_crashed (opened_of_exec hrun hcrashed)
        exact ⟨hsame.trans hcrashed,
          .inl ((running_ioTimeout stream).trans hwaiting.2.2)⟩
      case isFalse => contradiction
  | ioEvent index ok reply =>
      obtain rfl : ok = false := hfailing
      simp only [act] at hact
      split at hact
      · contradiction
      case h_2 tag htag =>
        split at hact
        case isTrue hwaiting =>
          obtain rfl := Option.some.inj hact
          obtain ⟨iothr, heq, -, hrunning⟩ := takeEvent_of_sendingShutdown
            (stopping_of_exec hrun hupdating hwaiting.1).1 index tag reply
          rw [takeEvent] at heq
          rw [heq]
          exact ⟨hcrashed, .inl (hrunning.trans hwaiting.2.2)⟩
        case isFalse => contradiction
  | ioShutdown =>
      simp only [act] at hact
      split at hact
      · obtain rfl := Option.some.inj hact
        exact ⟨hcrashed, hdrain⟩
      · contradiction
  | ioDrain =>
      simp only [act] at hact
      split at hact
      · contradiction
      case h_2 seq hrunning =>
        obtain rfl := Option.some.inj hact
        have hsafe := hdrain.resolve_left (by simp [hrunning])
        unfold ioDrain
        split
        case h_1 item rest hrequests =>
          rw [hrequests, List.mem_cons, not_or] at hsafe
          cases item with
          | establishRequest => exact absurd rfl hsafe.1
          | heap call request => exact ⟨hcrashed, .inr hsafe.2⟩
        case h_2 =>
          dsimp only
          split <;> exact ⟨hcrashed, .inl rfl⟩
  | _ => exact hfailing.elim

/-- Without a completion the I/O thread pops nothing that would keep it. -/
theorem EndsRun.of_step (hends : EndsRun stream) (hunaided : action.Unaided)
    (hstep : stream.step action = some next) : EndsRun next := by
  obtain ⟨-, hact⟩ := step_eq_some.mp hstep
  cases action with
  | stopTimeout =>
      simp only [act] at hact
      split at hact
      · obtain rfl := Option.some.inj hact
        exact .inl rfl
      · contradiction
  | ioTimeout =>
      simp only [act] at hact
      split at hact
      case isTrue hwaiting =>
        obtain rfl := Option.some.inj hact
        rcases hends with hdead | hconnecting | ⟨hcq, hidle⟩
        · exact .inl ((ioTimeout_thread stream).1.trans hdead)
        · obtain ⟨requests, iothr, consumed, crashed, heq⟩ :=
            ioTimeout_eq stream
          exact .inr (.inl (heq ▸ hconnecting))
        · have hsame : stream.ioTimeout = stream := by
            rcases hidle with hsending | hrunning | hempty
            · exact if_pos hsending
            · exact absurd hwaiting.2.2 hrunning
            · rw [ioTimeout, hempty]
              exact ite_self _
          rw [hsame]
          exact .inr (.inr ⟨hcq, hidle⟩)
      case isFalse => contradiction
  | ioShutdown =>
      simp only [act] at hact
      split at hact
      · obtain rfl := Option.some.inj hact
        exact .inl rfl
      · contradiction
  | ioDrain =>
      simp only [act] at hact
      split at hact
      · contradiction
      case h_2 seq hrunning =>
        obtain rfl := Option.some.inj hact
        obtain ⟨halive, hcq⟩ := ioDrain_thread seq stream
        rcases hends with hdead | hconnecting | ⟨hnone, -⟩
        · exact .inl (halive.trans hdead)
        · obtain ⟨replys, requests, iothr, consumed, drained, crashed, heq⟩ :=
            ioDrain_eq stream seq
          exact .inr (.inl (heq ▸ hconnecting))
        · refine .inr (.inr ⟨hcq.trans hnone, .inr ?_⟩)
          unfold ioDrain
          split
          case h_1 item rest hrequests =>
            obtain ⟨consumed, drained, crashed, heq⟩ :=
              deleteRequest_eq { stream with requests := rest } item
            rw [heq]
            exact .inl (by simp [hrunning])
          case h_2 hrequests =>
            dsimp only
            split <;> exact .inr hrequests
  | _ => exact hunaided.elim

/-- `EndsRun` is all that a run to the join needs of what comes first. -/
theorem EndsRun.leavesRun (hends : EndsRun stream) : LeavesRun stream :=
  hends.imp id (Or.imp id And.left)

/-- What the TIMEOUT branch pops it opens or writes. -/
theorem ioTimeout_pending (hopening : stream.Opened ∨ stream.Unopened)
    (hsending : ¬stream.iothr.isSending = true)
    (hrequests : stream.requests ≠ []) : stream.ioTimeout.iothr.cq ≠ [] := by
  rw [ioTimeout, if_neg hsending]
  split
  case h_1 hempty => exact absurd hempty hrequests
  case h_2 rest hqueue => exact List.append_ne_nil_of_right_ne_nil _ (by simp)
  case h_3 call request rest hqueue =>
    rcases hopening with hopened | hunopened
    · unfold writeRequest
      dsimp only
      rw [if_pos hopened.1]
      exact List.append_ne_nil_of_right_ne_nil _ (by simp)
    · exact (hunopened.front.not_heap hqueue).elim

/-- What it pops is outstanding then, and without a completion `Stop` does not
return behind it. -/
theorem EndsRun.of_returns (hwaits : Waits stream)
    (hjoinable : stream.iothr.joinable = true)
    (hreturns : Returns Action.Unaided stream) : EndsRun stream := by
  obtain ⟨⟨actions, hrun⟩, hcrashed, hupdating, hdrain⟩ := hwaits
  have hleaves : ∀ next : RPCStream, Waits next →
      next.iothr.joinable = true → CanReturn Action.Unaided next →
        LeavesRun next := by
    rintro next ⟨⟨before, hbefore⟩, hnext, hstop, -⟩ hthread hcan
    have hends := (canReturn_iff before next hbefore hstop hnext).1.mp hcan
    exact (hends.resolve_left (by simp [hthread])).1
  have hwaits : Waits stream := ⟨⟨actions, hrun⟩, hcrashed, hupdating, hdrain⟩
  have hhere : LeavesRun stream := hleaves stream hwaits hjoinable
    (hreturns [] stream (fun _ hmem => absurd hmem List.not_mem_nil) rfl)
  by_contra hnot
  rw [EndsRun, not_or, not_or, not_and, not_or, not_or, not_not] at hnot
  obtain ⟨halive, hconnecting, hidle⟩ := hnot
  have hempty := (hhere.resolve_left halive).resolve_left hconnecting
  obtain ⟨hsending, hrunning, hrequests⟩ := hidle hempty
  have hstep : stream.step .ioTimeout = some stream.ioTimeout := by
    rw [step_eq_some, act, if_pos ⟨hjoinable,
      Bool.not_eq_false _ ▸ halive, hrunning⟩]
    exact ⟨hcrashed, rfl⟩
  have hunaided : Action.Unaided .ioTimeout := trivial
  have hnext := hwaits.of_step hunaided.failing hstep
  have hkept := kept_ioTimeout stream
  have hafter := hleaves _ hnext (hkept.joinable.trans hjoinable)
    (hreturns [.ioTimeout] _ (List.forall_mem_singleton.mpr hunaided)
      (exec_cons_eq_some.mpr ⟨_, hstep, rfl⟩))
  obtain ⟨requests, iothr, consumed, crashed, heq⟩ := ioTimeout_eq stream
  rcases hafter with hdead | hconnected | hnone
  · exact halive ((ioTimeout_thread stream).1.symm.trans hdead)
  · rw [heq] at hconnected
    exact hconnecting hconnected
  · exact ioTimeout_pending (opened_of_exec hrun hcrashed) hsending hrequests
      hnone

/-- The first action leaves the rest of the run to come. -/
theorem returns_of_invariant {allowed : Action → Prop}
    {holds : RPCStream → Prop}
    (hstep : ∀ stream action next, holds stream → allowed action →
      step stream action = some next → holds next)
    (hreturns : ∀ stream, holds stream → CanReturn allowed stream)
    (hholds : holds stream) : Returns allowed stream := by
  intro actions final hallowed hrun
  exact hreturns final (exec_invariant_of_forall hstep hholds hallowed hrun)

/-- Before the first `Open` nothing keeps the I/O thread. -/
theorem endsRun_of_not_joinable {actions : List Action}
    (hrun : exec step new actions = some stream)
    (hcrashed : stream.crashed = false)
    (hjoinable : stream.iothr.joinable = false) :
    EndsRun stream ∧ DrainSafe stream := by
  rcases opened_of_exec hrun hcrashed with hopened | hunopened
  · simp [hopened.2] at hjoinable
  · refine ⟨.inr ?_, .inl hunopened.running⟩
    rcases hunopened.front with ⟨-, hempty⟩ | ⟨hstatus, -⟩
    · exact .inr ⟨hunopened.cq, .inr (.inr hempty)⟩
    · exact .inl (by rw [hstatus])

end Schedules

/-- Once `IOThread::Stop` waits, it can return with no operation completing if
and only if there is no thread, or the I/O thread can leave its loop by itself
and does not get to delete the constant ESTABLISH_REQUEST, and it returns so
whatever the threads do first if and only if the I/O thread does whatever it
pops; when the outstanding operations fail, it returns if and only if it can,
which is when the I/O thread does not get to delete that constant. -/
theorem stop_returns (actions : List Action) (stream : RPCStream)
    (hrun : exec step new actions = some stream)
    (hstop : stream.updating = .stop) (hcrashed : stream.crashed = false) :
    (CanReturn Action.Unaided stream ↔
      stream.iothr.joinable = false ∨
        LeavesRun stream ∧ DrainSafe stream) ∧
    (Returns Action.Unaided stream ↔
      stream.iothr.joinable = false ∨
        EndsRun stream ∧ DrainSafe stream) ∧
    (CanReturn Action.Failing stream ↔
      stream.iothr.joinable = false ∨ DrainSafe stream) ∧
    (Returns Action.Failing stream ↔
      stream.iothr.joinable = false ∨ DrainSafe stream) := by
  obtain ⟨hunaided, hfailing⟩ := canReturn_iff actions stream hrun hstop hcrashed
  have hfree := endsRun_of_not_joinable hrun hcrashed
  have hnow : ∀ {allowed : Action → Prop}, Returns allowed stream →
      CanReturn allowed stream := fun hreturns =>
    hreturns [] stream (fun _ hmem => absurd hmem List.not_mem_nil) rfl
  have hwaits : DrainSafe stream → Waits stream := fun hdrain =>
    ⟨⟨actions, hrun⟩, hcrashed, hstop, hdrain⟩
  refine ⟨hunaided, ⟨fun hreturns => ?_, fun hends => ?_⟩, hfailing,
    fun hreturns => hfailing.mp (hnow hreturns), fun hends => ?_⟩
  · refine (hunaided.mp (hnow hreturns)).imp id fun ⟨_, hdrain⟩ => ?_
    refine ⟨?_, hdrain⟩
    cases hjoinable : stream.iothr.joinable with
    | false => exact (hfree hjoinable).1
    | true => exact .of_returns (hwaits hdrain) hjoinable hreturns
  · have hboth : EndsRun stream ∧ DrainSafe stream := hends.elim hfree id
    refine @returns_of_invariant stream _
      (fun next => Waits next ∧ EndsRun next) ?_ ?_
      ⟨hwaits hboth.2, hboth.1⟩
    · exact fun _ _ _ hholds haction hstep =>
        ⟨hholds.1.of_step haction.failing hstep,
          hholds.2.of_step haction hstep⟩
    · rintro next ⟨⟨⟨before, hbefore⟩, hnone, hupdating, hdrain⟩, hleft⟩
      exact (canReturn_iff before next hbefore hupdating hnone).1.mpr
        (.inr ⟨hleft.leavesRun, hdrain⟩)
  · have hdrain : DrainSafe stream :=
      hends.elim (fun hjoinable => (hfree hjoinable).2) id
    refine @returns_of_invariant stream _ Waits ?_ ?_ (hwaits hdrain)
    · exact fun _ _ _ hholds haction hstep => hholds.of_step haction hstep
    · rintro next ⟨⟨before, hbefore⟩, hnone, hupdating, hsafe⟩
      exact (canReturn_iff before next hbefore hupdating hnone).2.mpr
        (.inr hsafe)

private def resetInput : UpdateInput where
  ready := true
  onOpenStream := true
  onCloseStream := 5
  addPayload := []
  now := 1

private def resetReply : Reply :=
  { type := 0, msgid := 0, error := none, payload := [] }

/-- The client connects and logs in, `mtk_conn_reset` closes it, and
`mtk_conn_close` is called while it waits to connect again. -/
private def resetRun : List Action :=
  List.replicate 3 (.update resetInput) ++
    [.ioTimeout, .ioEvent 0 true resetReply] ++
    List.replicate 7 (.update resetInput) ++ [.release, .releaseEnqueue] ++
    List.replicate 7 (.update resetInput) ++ [.stop]

/-- The read of the old connection is outstanding, and `Stop` waits for the
network. -/
theorem stop_returns_resetRun :
    ∃ final, exec step new resetRun = some final ∧
      ¬CanReturn Action.Unaided final ∧ Returns Action.Failing final := by
  have hrun : (exec step new resetRun).any (fun stream =>
      stream.updating = .stop ∧ stream.crashed = false ∧
        stream.status = .disconnect ∧ stream.iothr.joinable = true ∧
        stream.iothr.alive = true ∧ stream.iothr.running = .run ∧
        stream.iothr.cq = [256]) = true := by decide +kernel
  obtain ⟨final, hrun, hfinal⟩ := (Option.any_eq_true _ _).mp hrun
  obtain ⟨hstop, hcrashed, hstatus, hjoinable, halive, hrunning, hcq⟩ :=
    of_decide_eq_true hfinal
  obtain ⟨hunaided, -, -, hfailing⟩ :=
    stop_returns resetRun final hrun hstop hcrashed
  refine ⟨final, hrun, ?_, hfailing.mpr (Or.inr (Or.inl hrunning))⟩
  rw [hunaided, LeavesRun, hjoinable, halive, hstatus, hcq]
  simp [NetworkStatus.value]

end RPCStream

end GrpcMtk
