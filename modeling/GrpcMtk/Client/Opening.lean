import GrpcMtk.Client.Steps

/-!
# Before the first connection

`io_` is null until the I/O thread has popped the first `ESTABLISH_REQUEST`.
Until then no operation is outstanding, no call is under way and the attempt is
in front of whatever `requests_` holds, so nothing is written through the null
pointer.
-/

namespace GrpcMtk

open GrpcMtk.Proto
open GrpcMtk.Runs

namespace RPCStream

/-! ## What the I/O thread never takes back -/

/-- The I/O thread leaves the first two fields to the others, and undoes
neither `cq_.Shutdown()` nor the first `Open`. -/
structure Kept (thread next : IOThread) : Prop where
  joinable : next.joinable = thread.joinable
  sendingShutdown : next.sendingShutdown = thread.sendingShutdown
  cqShutdown : thread.cqShutdown → next.cqShutdown
  io : thread.io → next.io

theorem Kept.refl (thread : IOThread) : Kept thread thread :=
  ⟨rfl, rfl, id, id⟩

theorem Kept.trans {thread next final : IOThread} (hfirst : Kept thread next)
    (hsecond : Kept next final) : Kept thread final where
  joinable := hsecond.joinable.trans hfirst.joinable
  sendingShutdown := hsecond.sendingShutdown.trans hfirst.sendingShutdown
  cqShutdown hshutdown := hsecond.cqShutdown (hfirst.cqShutdown hshutdown)
  io hio := hsecond.io (hfirst.io hio)

section Kept

variable (stream : RPCStream)

theorem kept_writeRequest (item : RequestItem) :
    Kept stream.iothr (stream.writeRequest item).iothr := by
  cases item with
  | establishRequest => exact .refl _
  | heap call request =>
      rw [writeRequest]
      dsimp only
      split <;> exact ⟨rfl, rfl, id, id⟩

theorem kept_ioTimeout : Kept stream.iothr stream.ioTimeout.iothr := by
  rw [ioTimeout]
  split
  · exact .refl _
  · split
    · exact .refl _
    · exact ⟨rfl, rfl, id, fun _ => rfl⟩
    case h_3 call request rest hrequests =>
      have hwrite := kept_writeRequest { stream with requests := rest }
        (.heap call request)
      exact hwrite.trans ⟨rfl, rfl, id, id⟩

theorem kept_writeDone (ok : Bool) :
    Kept stream.iothr (stream.writeDone ok).iothr := by
  rw [writeDone]
  split
  · split
    · exact ⟨rfl, rfl, id, id⟩
    case h_2 item rest hrequests =>
      exact kept_writeRequest { stream with requests := rest } item
  · exact .refl _

theorem kept_readDone (ok : Bool) (tag : ℕ) (reply : Reply) :
    Kept stream.iothr (stream.readDone ok tag reply).iothr := by
  rw [readDone]
  dsimp only
  split
  · exact ⟨rfl, rfl, id, id⟩
  · split
    · exact ⟨rfl, rfl, fun _ => rfl, id⟩
    · exact ⟨rfl, rfl, id, id⟩

theorem kept_takeEvent (index : ℕ) (ok : Bool) (tag : ℕ) (reply : Reply) :
    Kept stream.iothr (stream.takeEvent index ok tag reply).iothr := by
  let taken := stream.onIOThread fun thread =>
    { thread with cq := thread.cq.eraseIdx index }
  have htaken : Kept stream.iothr taken.iothr := ⟨rfl, rfl, id, id⟩
  rw [takeEvent, handleEvent]
  split
  · exact htaken.trans (kept_writeDone taken ok)
  · split
    · exact htaken.trans (kept_readDone taken ok tag reply)
    · split <;> exact ⟨rfl, rfl, id, id⟩

theorem kept_ioDrain (seq : ℕ) :
    Kept stream.iothr (stream.ioDrain seq).iothr := by
  rw [ioDrain]
  split
  case h_1 item rest hrequests => cases item <;> exact .refl _
  case h_2 hrequests =>
    dsimp only
    split <;> exact ⟨rfl, rfl, id, id⟩

theorem kept_of_did {next : RPCStream} {action : Action}
    (hdid : Did stream action next) (hio : action.onIOThread) :
    Kept stream.iothr next.iothr := by
  cases hdid with
  | stopTimeout => exact ⟨rfl, rfl, fun _ => rfl, id⟩
  | ioTimeout => exact kept_ioTimeout stream
  | @ioEvent index tag ok reply htag =>
      exact kept_takeEvent stream index ok tag reply
  | ioShutdown => exact ⟨rfl, rfl, id, id⟩
  | ioDrain seq => exact kept_ioDrain stream seq
  | _ => exact hio.elim

end Kept

/-! ## Where the I/O thread is -/

theorem running_writeRequest (stream : RPCStream) (item : RequestItem) :
    (stream.writeRequest item).iothr.running = stream.iothr.running := by
  cases item with
  | establishRequest => rfl
  | heap call request =>
      rw [writeRequest]
      dsimp only
      split <;> rfl

/-- The TIMEOUT branch stays in the loop of `Run`. -/
theorem running_ioTimeout (stream : RPCStream) :
    stream.ioTimeout.iothr.running = stream.iothr.running := by
  unfold ioTimeout
  split
  · rfl
  · split
    · rfl
    · rfl
    · exact running_writeRequest _ _

/-! ## The null pointer -/

/-- The I/O thread has been started and has opened a stream, so `io_` is set. -/
def Opened (stream : RPCStream) : Prop :=
  stream.iothr.io = true ∧ stream.iothr.joinable = true

/-- Where `Update` can be while nothing was established. -/
def Early : UpdateAt → Prop
  | .drainReplys reason | .drainRequests reason | .drainReqmap reason =>
      reason ≠ .establishedEvent
  | .processTimeout _ => False
  | _ => True

/-- `requests_` is empty, or an attempt is in front and no `DrainRequestQueue`
has got past it. -/
def AttemptInFront (stream : RPCStream) : Prop :=
  stream.status = .disconnect ∧ stream.requests = [] ∨
    stream.status = .connecting ∧
      stream.requests.head? = some .establishRequest ∧
      ∀ reason, stream.updating ≠ .drainReqmap reason

/-- Nothing was opened yet, so nothing is outstanding and `Call` refuses. -/
structure Unopened (stream : RPCStream) : Prop where
  cq : stream.iothr.cq = []
  running : stream.iothr.running = .run
  replys : ∀ item ∈ stream.replys, item = .disconnectEvent
  calling : stream.calling = .empty
  reqmap : stream.reqmap = .empty
  updating : Early stream.updating
  front : stream.AttemptInFront

section Steps

variable {stream next : RPCStream} {action : Action}

/-- The other threads start the I/O thread at most. -/
theorem Opened.did (hopened : stream.Opened)
    (hdid : Did stream action next) : next.Opened := by
  by_cases hio : action.onIOThread
  · have hkept := kept_of_did stream hdid hio
    exact ⟨hkept.io hopened.1, hkept.joinable.trans hopened.2⟩
  · cases hdid with
    | update hupdated =>
        obtain ⟨joinable, hjoinable, hiothr⟩ := iothr_of_updated hupdated
        rw [Opened, hiothr]
        exact ⟨hopened.1, hjoinable hopened.2⟩
    | stop =>
        unfold stop
        dsimp only
        split
        · split <;> exact hopened
        · exact hopened
    | callBegin request =>
        obtain ⟨-, heq⟩ | heq := callBegin_eq stream request
        all_goals
          rw [heq]
          exact hopened
    | stopTimeout | ioTimeout | ioEvent | ioShutdown | ioDrain =>
        exact absurd trivial hio
    | _ => exact hopened

/-- A step that leaves `requests_` and the status alone, and does not get to
the end of `DrainQueue`, leaves the attempt in front. -/
theorem AttemptInFront.of_eq (hfront : stream.AttemptInFront)
    (hstatus : next.status = stream.status)
    (hrequests : next.requests = stream.requests)
    (hupdating : ∀ reason, next.updating ≠ .drainReqmap reason) :
    next.AttemptInFront := by
  rw [AttemptInFront, hstatus, hrequests]
  exact hfront.imp id fun ⟨hconnecting, hhead, _⟩ =>
    ⟨hconnecting, hhead, hupdating⟩

theorem AttemptInFront.disconnect (hfront : stream.AttemptInFront)
    (hrequests : stream.requests = []) : stream.status = .disconnect := by
  rcases hfront with ⟨hstatus, -⟩ | ⟨-, hhead, -⟩
  · exact hstatus
  · rw [hrequests] at hhead
    contradiction

/-- No request is in front. -/
theorem AttemptInFront.not_heap (hfront : stream.AttemptInFront)
    {call : CallId} {request : Request} {rest : List RequestItem}
    (hrequests : stream.requests = .heap call request :: rest) : False := by
  rcases hfront with ⟨-, hempty⟩ | ⟨-, hhead, -⟩
  · rw [hrequests] at hempty
    contradiction
  · rw [hrequests, List.head?_cons, Option.some.injEq] at hhead
    contradiction

theorem AttemptInFront.status (hfront : stream.AttemptInFront) :
    stream.status.value < NetworkStatus.established.value := by
  rcases hfront with ⟨hstatus, -⟩ | ⟨hstatus, -⟩ <;>
    rw [hstatus] <;> decide

/-- `Update` handles no reply, makes no call and deletes no request, unless it
deletes the attempt. -/
theorem Unopened.update {input : UpdateInput} (hunopened : stream.Unopened)
    (hupdate : stream.update input = some next)
    (hcrashed : next.crashed = false) : next.Unopened := by
  obtain ⟨hcq, hrunning, hreplys, hcalling, hreqmap, hearly, hfront⟩ :=
    hunopened
  unfold RPCStream.update at hupdate
  split at hupdate
  case h_1 hupdating =>
    split at hupdate <;> obtain rfl := Option.some.inj hupdate <;>
      exact ⟨hcq, hrunning, hreplys, hcalling, hreqmap, by simp [Early],
        hfront.of_eq rfl rfl (by simp)⟩
  case h_2 hupdating =>
    split at hupdate
    case h_1 hempty =>
      obtain rfl := Option.some.inj hupdate
      exact ⟨hcq, hrunning, hreplys, hcalling, hreqmap, trivial,
        hfront.of_eq rfl rfl (by simp)⟩
    case h_2 rest hqueue =>
      obtain rfl := Option.some.inj hupdate
      rw [hqueue] at hreplys
      exact ⟨hcq, hrunning, (List.forall_mem_cons.mp hreplys).2, hcalling,
        hreqmap, by simp [Early], hfront.of_eq rfl rfl (by simp)⟩
    all_goals
      rename_i hqueue
      rw [hqueue] at hreplys
      exact absurd (hreplys _ List.mem_cons_self) ReplyItem.noConfusion
  case h_3 reason hupdating =>
    rw [hupdating] at hearly
    split at hupdate
    case h_1 hempty =>
      obtain rfl := Option.some.inj hupdate
      exact ⟨hcq, hrunning, hreplys, hcalling, hreqmap, hearly,
        hfront.of_eq rfl rfl (by simp)⟩
    case h_2 item rest hqueue =>
      obtain rfl := Option.some.inj hupdate
      rw [hqueue] at hreplys
      exact ⟨hcq, hrunning, (List.forall_mem_cons.mp hreplys).2, hcalling,
        hreqmap, hupdating ▸ hearly,
        hfront.of_eq rfl rfl (by simp [hupdating])⟩
  case h_4 reason hupdating =>
    rw [hupdating] at hearly
    split at hupdate
    case h_1 hempty =>
      obtain rfl := Option.some.inj hupdate
      exact ⟨hcq, hrunning, hreplys, hcalling, hreqmap, hearly,
        .inl ⟨hfront.disconnect hempty, hempty⟩⟩
    case h_2 item rest hqueue =>
      obtain rfl := Option.some.inj hupdate
      rcases hfront with ⟨-, hempty⟩ | ⟨-, hhead, -⟩
      · rw [hqueue] at hempty
        contradiction
      · rw [hqueue, List.head?_cons, Option.some.injEq] at hhead
        rw [hhead] at hcrashed
        contradiction
  case h_5 reason hupdating =>
    obtain rfl := Option.some.inj hupdate
    rw [hupdating] at hearly
    rcases hfront with ⟨hstatus, hempty⟩ | ⟨-, -, hnot⟩
    · cases reason with
      | establishedEvent => exact absurd rfl hearly
      | _ =>
          exact ⟨hcq, hrunning, hreplys, hcalling, rfl, trivial,
            .inl ⟨rfl, hempty⟩⟩
    · exact absurd hupdating (hnot reason)
  case h_6 hupdating =>
    obtain rfl := Option.some.inj hupdate
    rcases hfront with ⟨hstatus, hempty⟩ | ⟨hstatus, hhead, -⟩
    · unfold switchStatus
      simp only [hstatus]
      split
      · exact ⟨hcq, hrunning, hreplys, hcalling, hreqmap, trivial,
          .inl ⟨rfl, hempty⟩⟩
      · refine ⟨hcq, hrunning, hreplys, hcalling, hreqmap, trivial,
          .inr ⟨rfl, ?_, nofun⟩⟩
        change (stream.requests ++ [RequestItem.establishRequest]).head? = _
        rw [hempty]
        rfl
    · unfold switchStatus
      simp only [hstatus]
      exact ⟨hcq, hrunning, hreplys, hcalling, hreqmap, trivial,
        .inr ⟨rfl, hhead, nofun⟩⟩
  case h_7 now hupdating =>
    rw [hupdating] at hearly
    exact hearly.elim
  case h_8 => contradiction

theorem Unopened.stop (hunopened : stream.Unopened) :
    stream.stop.Unopened := by
  obtain ⟨hcq, hrunning, hreplys, hcalling, hreqmap, -, hfront⟩ := hunopened
  unfold RPCStream.stop
  dsimp only
  split
  · split
    case isTrue hconnecting =>
      refine ⟨hcq, hrunning, hreplys, hcalling, hreqmap, trivial, .inr ?_⟩
      rcases hfront with ⟨hstatus, -⟩ | ⟨hstatus, hhead, -⟩
      · dsimp only [onIOThread] at hconnecting
        rw [hstatus] at hconnecting
        exact absurd hconnecting (by decide)
      · refine ⟨hstatus, ?_, nofun⟩
        change (stream.requests ++ [_]).head? = _
        rw [List.head?_append, hhead, Option.some_or]
    case isFalse =>
      exact ⟨hcq, hrunning, hreplys, hcalling, hreqmap, trivial,
        hfront.of_eq rfl rfl nofun⟩
  · exact ⟨hcq, hrunning, hreplys, hcalling, hreqmap, trivial,
      hfront.of_eq rfl rfl nofun⟩

/-- The I/O thread can pop no more than the attempt in front. -/
theorem Unopened.ioTimeout (hunopened : stream.Unopened)
    (hjoinable : stream.iothr.joinable = true) :
    stream.ioTimeout.Opened ∨ stream.ioTimeout = stream := by
  unfold RPCStream.ioTimeout
  split
  · exact .inr rfl
  · split
    · exact .inr rfl
    · exact .inl ⟨rfl, hjoinable⟩
    case h_3 call request rest hrequests =>
      exact (hunopened.front.not_heap hrequests).elim

theorem Unopened.did (hunopened : stream.Unopened)
    (hstep : stream.step action = some next)
    (hcrashed : next.crashed = false) : next.Opened ∨ next.Unopened := by
  obtain ⟨hcq, hrunning, hreplys, hcalling, hreqmap, hearly, hfront⟩ :=
    hunopened
  have hcalled : ∀ call, stream.calling.find? call = none := by
    intro call
    rw [hcalling]
    rfl
  obtain ⟨-, hact⟩ := step_eq_some.mp hstep
  have hdid := did_of_act hact
  cases hdid with
  | release =>
      exact .inr ⟨hcq, hrunning, hreplys, hcalling, hreqmap, hearly, hfront⟩
  | releaseEnqueue =>
      refine .inr ⟨hcq, hrunning, fun item hitem => ?_, hcalling, hreqmap,
        hearly, hfront⟩
      rcases List.mem_append.mp hitem with hold | hnew
      · exact hreplys item hold
      · exact List.mem_singleton.mp hnew
  | callBegin request =>
      rw [callBegin, if_pos hfront.status]
      exact .inr ⟨hcq, hrunning, hreplys, hcalling, hreqmap, hearly, hfront⟩
  | callNumber now hfound =>
      rw [hcalled] at hfound
      contradiction
  | callEnqueue hfound =>
      rw [hcalled] at hfound
      contradiction
  | callInsert hfound =>
      rw [hcalled] at hfound
      contradiction
  | update hupdated =>
      exact .inr (Unopened.update ⟨hcq, hrunning, hreplys, hcalling, hreqmap,
        hearly, hfront⟩ hact hcrashed)
  | stop =>
      exact .inr (Unopened.stop ⟨hcq, hrunning, hreplys, hcalling, hreqmap,
        hearly, hfront⟩)
  | stopTimeout =>
      exact .inr ⟨hcq, hrunning, hreplys, hcalling, hreqmap, hearly, hfront⟩
  | ioTimeout =>
      simp only [act] at hact
      split at hact
      case isTrue hwaiting =>
        refine (Unopened.ioTimeout ⟨hcq, hrunning, hreplys, hcalling, hreqmap,
          hearly, hfront⟩ hwaiting.1).imp id fun heq => ?_
        rw [heq]
        exact ⟨hcq, hrunning, hreplys, hcalling, hreqmap, hearly, hfront⟩
      case isFalse => contradiction
  | ioEvent ok reply htag =>
      rw [hcq] at htag
      contradiction
  | ioShutdown =>
      exact .inr ⟨hcq, hrunning, hreplys, hcalling, hreqmap, hearly, hfront⟩
  | ioDrain seq =>
      rw [act, hrunning] at hact
      contradiction

end Steps

/-- In every run that dereferenced no constant, `io_` is set or nothing could
be written through it. -/
theorem opened_of_exec {actions : List Action} {stream : RPCStream}
    (hrun : exec step new actions = some stream)
    (hcrashed : stream.crashed = false) :
    stream.Opened ∨ stream.Unopened := by
  revert hcrashed
  refine @exec_invariant _ _ step
    (fun stream => stream.crashed = false → stream.Opened ∨ stream.Unopened)
    ?_ new stream actions ?_ hrun
  · intro stream action next hopening hstep hcrashed
    rcases hopening (step_eq_some.mp hstep).1 with hopened | hunopened
    · exact .inl (hopened.did (did_of_step hstep))
    · exact hunopened.did hstep hcrashed
  · intro _
    exact .inr ⟨rfl, rfl, by simp [new], rfl, rfl, trivial, .inl ⟨rfl, rfl⟩⟩

/-- An operation is outstanding only behind an `io_` that is set. -/
theorem io_of_cq {actions : List Action} {stream : RPCStream}
    (hrun : exec step new actions = some stream)
    (hcrashed : stream.crashed = false) {index tag : ℕ}
    (htag : stream.iothr.cq[index]? = some tag) : stream.iothr.io = true := by
  rcases opened_of_exec hrun hcrashed with hopened | hunopened
  · exact hopened.1
  · rw [hunopened.cq] at htag
    contradiction

end RPCStream

end GrpcMtk
