import GrpcMtk.Client.Steps

/-!
# Connection events

`ProcessReply` handles the first connection event it takes from `replys_`;
`DrainQueue` drops the events behind it together with the replies.  The status
`ProcessReply` leaves is therefore decided by the first event, whatever else
the queue holds and whatever the other threads put into it meanwhile.  It
agrees with the last one unless an ESTABLISHED_EVENT has come first and what is
dropped ends with a DISCONNECT_EVENT: that connection is never closed.
-/

namespace GrpcMtk

open GrpcMtk.Proto
open GrpcMtk.Runs

namespace RPCStream

/-- `DISCONNECT_EVENT` or `ESTABLISHED_EVENT`. -/
inductive ConnectionEvent where
  | disconnect
  | established
  deriving DecidableEq, Repr

/-- The connection event an item is. -/
def event : ReplyItem → List ConnectionEvent
  | .disconnectEvent => [.disconnect]
  | .establishedEvent => [.established]
  | .reply _ => []

/-- The connection event that a step takes from `replys_`. -/
def removedEvents (stream : RPCStream) : Action → List ConnectionEvent
  | .update _ =>
      match stream.updating with
      | .processReply | .drainReplys _ =>
          stream.replys.head?.toList.flatMap event
      | _ => []
  | _ => []

/-- `ProcessReply` gives this reply to the callback of `StartWrite`, which
does not open the stream. -/
def Refused (stream : RPCStream) (reply : Reply) (onOpenStream : Bool) : Prop :=
  stream.restarting = false ∧ reply.msgid ≠ 0 ∧
    ∃ entry ∈ stream.reqmap.find? reply.msgid, entry.cb = .startWrite ∧
      ¬(0 ≤ (Outcome.replied reply).result ∧ onOpenStream = true)

instance (stream : RPCStream) (reply : Reply) (onOpenStream : Bool) :
    Decidable (stream.Refused reply onOpenStream) :=
  inferInstanceAs (Decidable (_ ∧ _ ∧ ∃ _ ∈ _, _))

/-- The connection event that a step puts into `replys_` while the polling
thread is not in `ProcessTimeout`. -/
def pushedEvents (stream : RPCStream) : Action → List ConnectionEvent
  | .releaseEnqueue => [.disconnect]
  | .update input =>
      match stream.updating, stream.replys with
      | .processReply, .reply reply :: _ =>
          if stream.Refused reply input.onOpenStream then [.disconnect] else []
      | _, _ => []
  | .ioEvent index ok _ =>
      if ok = true ∧ stream.iothr.replyWork = false ∧
          ∃ tag ∈ stream.iothr.cq[index]?,
            IOThread.isReadOperation tag = true then
        [.established]
      else []
  | .ioDrain =>
      if stream.requests = [] ∧ stream.iothr.running =
          .drainRequestQueue stream.iothr.connectSequenceNum then
        [.disconnect]
      else []
  | _ => []

/-- The polling thread is still to take from `replys_`: it has not found it
empty since `ProcessReply` began. -/
def Emptying (stream : RPCStream) : Prop :=
  stream.updating = .processReply ∨
    ∃ reason, stream.updating = .drainReplys reason

instance (stream : RPCStream) : Decidable stream.Emptying :=
  match hupdating : stream.updating with
  | .processReply => isTrue (.inl hupdating)
  | .drainReplys reason => isTrue (.inr ⟨reason, hupdating⟩)
  | .start | .drainRequests _ | .drainReqmap _ | .switch | .processTimeout _
  | .stop => isFalse (by simp [Emptying, hupdating])

/-- The connection events that come into `replys_` while it is emptied. -/
def arrivals (stream : RPCStream) (action : Action) : List ConnectionEvent :=
  if stream.Emptying then stream.pushedEvents action else []

/-- The argument of the `OnCloseStream` a step calls. -/
def closings (stream : RPCStream) : Action → List ℕ
  | .update _ =>
      if stream.updating = .drainReqmap .disconnectEvent then
        [stream.reconnectAttempt]
      else []
  | _ => []

/-- The reason `DrainQueue` was called for. -/
def drainReason : UpdateAt → Option DrainReason
  | .drainReplys reason | .drainRequests reason | .drainReqmap reason =>
      some reason
  | _ => none

/-- The polling thread is inside `ProcessReply`, perhaps in the `DrainQueue` it
calls. -/
def InsideProcessReply (stream : RPCStream) : Prop :=
  stream.updating = .processReply ∨
    drainReason stream.updating = some .disconnectEvent ∨
    drainReason stream.updating = some .establishedEvent

instance (stream : RPCStream) : Decidable stream.InsideProcessReply :=
  inferInstanceAs (Decidable (_ ∨ _ ∨ _))

/-- The status agrees with an event: it is DISCONNECT behind a
DISCONNECT_EVENT, for which `OnCloseStream` was called, and ESTABLISHED only
behind an ESTABLISHED_EVENT, or when it was so before and nothing happened. -/
structure Agrees (event : Option ConnectionEvent) (closings : List ℕ)
    (before after : NetworkStatus) : Prop where
  disconnect : event = some .disconnect →
    after = .disconnect ∧ closings ≠ []
  established : after = .established →
    event = some .established ∨ event = none ∧ before = .established

/-! ## What decides the status -/

/-- The reason `DrainQueue` is called for behind an event. -/
def reasonOf : ConnectionEvent → DrainReason
  | .disconnect => .disconnectEvent
  | .established => .establishedEvent

/-- The event that decides: the one `DrainQueue` was called for, or the first
one still to be removed. -/
def decision (updating : UpdateAt) (events : List ConnectionEvent) :
    Option DrainReason :=
  (drainReason updating).or (events.head?.map reasonOf)

/-- What a decision leads to, from this status on. -/
def Outcomes (decision : Option DrainReason) (before : NetworkStatus)
    (closings : List ℕ) (after : NetworkStatus) : Prop :=
  match decision with
  | some .disconnectEvent => after = .disconnect ∧ closings.length = 1
  | some .establishedEvent => after = .established ∧ closings = []
  | some .notReady => True
  | none => (after = before ∨ after = .connect) ∧ closings = []

section Steps

variable {stream next final : RPCStream}

theorem respond_status (entry : SEntry) (outcome : Outcome)
    (onOpenStream : Bool) (stream : RPCStream) :
    (stream.respond entry outcome onOpenStream).status = stream.status ∨
      (stream.respond entry outcome onOpenStream).status = .connect := by
  rw [respond]
  dsimp only
  split
  · exact .inl rfl
  · split
    · exact .inr rfl
    · exact .inl rfl

theorem processReply_status (reply : Reply) (onOpenStream : Bool)
    (stream : RPCStream) :
    (stream.processReply reply onOpenStream).status = stream.status ∨
      (stream.processReply reply onOpenStream).status = .connect := by
  rw [processReply]
  split
  · exact .inl rfl
  · split
    · exact .inl rfl
    · split
      · exact .inl rfl
      · exact respond_status _ _ _ _

/-- The other threads neither move the polling thread nor change the status. -/
theorem did_elsewhere {action : Action} (hdid : Did stream action next)
    (hupdate : ∀ input, action ≠ .update input) (hstop : action ≠ .stop) :
    next.updating = stream.updating ∧ next.status = stream.status := by
  by_cases hio : action.onIOThread
  · obtain ⟨replys, requests, iothr, consumed, drained, crashed, rfl⟩ :=
      did_onIOThread hdid hio
    exact ⟨rfl, rfl⟩
  · cases hdid with
    | callBegin request =>
        rcases callBegin_eq stream request with ⟨-, heq⟩ | heq
        · rw [heq]
          exact ⟨rfl, rfl⟩
        · rw [heq]
          exact ⟨rfl, rfl⟩
    | @update input next hupdated => exact absurd rfl (hupdate input)
    | stop => exact absurd rfl hstop
    | stopTimeout | ioTimeout | ioEvent | ioShutdown | ioDrain =>
        exact absurd trivial hio
    | _ => exact ⟨rfl, rfl⟩

/-- A run inside `ProcessReply` ends when it leaves it. -/
theorem exec_of_left {actions : List Action}
    (hleft : ¬next.InsideProcessReply)
    (hinside : AllSteps step (fun state _ _ => state.InsideProcessReply) next
      actions)
    (hrun : exec step next actions = some final) :
    actions = [] ∧ final = next := by
  cases actions with
  | nil => exact ⟨rfl, (Option.some.inj hrun).symm⟩
  | cons action rest =>
      obtain ⟨after, hstep, -⟩ := exec_cons_eq_some.mp hrun
      exact absurd ((allSteps_cons_of_step hstep).mp hinside).1 hleft

theorem Outcomes.of_kept {reason : Option DrainReason}
    {before middle after : NetworkStatus} {closings : List ℕ}
    (houtcome : Outcomes reason middle closings after)
    (hkept : middle = before ∨ middle = .connect) :
    Outcomes reason before closings after := by
  cases reason with
  | none =>
      obtain ⟨hafter, hclosings⟩ := houtcome
      refine ⟨?_, hclosings⟩
      rcases hafter with rfl | hconnect
      · exact hkept
      · exact .inr hconnect
  | some reason => cases reason <;> exact houtcome

/-- A step of `Update` inside `ProcessReply` does not change what decides. -/
structure Undecided (stream : RPCStream) (action : Action)
    (next : RPCStream) : Prop where
  inside : next.InsideProcessReply
  status : next.status = stream.status ∨ next.status = .connect
  closings : stream.closings action = []
  decision : ∀ events, decision next.updating events =
    decision stream.updating (stream.removedEvents action ++ events)

/-- A step inside `DrainQueue`, which knows its reason. -/
theorem undecided_of_drain {input : UpdateInput} {reason : DrainReason}
    (hinside : stream.InsideProcessReply)
    (hreason : drainReason stream.updating = some reason)
    (hkept : drainReason next.updating = some reason)
    (hstatus : next.status = stream.status)
    (hclosings : stream.closings (.update input) = []) :
    Undecided stream (.update input) next where
  inside := by
    right
    rw [hkept, ← hreason]
    rcases hinside with hprocess | hdrain
    · rw [hprocess] at hreason
      contradiction
    · exact hdrain
  status := .inl hstatus
  closings := hclosings
  decision events := by
    rw [decision, decision, hkept, hreason, Option.some_or, Option.some_or]

/-- A step of `Update` leaves `ProcessReply` with the status decided, or it
stays inside. -/
theorem inside_update {input : UpdateInput}
    (hinside : stream.InsideProcessReply)
    (hupdate : stream.update input = some next) :
    ¬next.InsideProcessReply ∧
        Outcomes (decision stream.updating
            (stream.removedEvents (.update input)))
          stream.status (stream.closings (.update input)) next.status ∨
      Undecided stream (.update input) next := by
  rw [update] at hupdate
  split at hupdate
  case h_1 hupdating => simp [InsideProcessReply, hupdating, drainReason] at hinside
  case h_2 hupdating =>
    split at hupdate
    case h_1 hreplys =>
      obtain rfl := Option.some.inj hupdate
      refine .inl ⟨by simp [InsideProcessReply, drainReason], ?_⟩
      simp [hupdating, hreplys, removedEvents, closings, decision, drainReason,
        Outcomes]
    case h_2 rest hreplys =>
      obtain rfl := Option.some.inj hupdate
      refine .inr ⟨by simp [InsideProcessReply, drainReason], .inl rfl,
        by simp [closings, hupdating], fun events => ?_⟩
      simp [hupdating, hreplys, removedEvents, decision, drainReason, event,
        reasonOf]
    case h_3 rest hreplys =>
      obtain rfl := Option.some.inj hupdate
      refine .inr ⟨by simp [InsideProcessReply, drainReason], .inl rfl,
        by simp [closings, hupdating], fun events => ?_⟩
      simp [hupdating, hreplys, removedEvents, decision, drainReason, event,
        reasonOf]
    case h_4 reply rest hreplys =>
      obtain rfl := Option.some.inj hupdate
      have hstatus := processReply_status reply input.onOpenStream
        { stream with replys := rest }
      obtain ⟨reqmap, invoked, status, replys, notified, heq⟩ :=
        processReply_eq { stream with replys := rest } reply input.onOpenStream
      rw [heq] at hstatus ⊢
      refine .inr ⟨hinside, hstatus, by simp [closings, hupdating],
        fun events => ?_⟩
      simp [hupdating, hreplys, removedEvents, decision, drainReason, event]
  case h_3 reason hupdating =>
    have hreason : drainReason stream.updating = some reason := by
      rw [hupdating]
      rfl
    split at hupdate
    · obtain rfl := Option.some.inj hupdate
      exact .inr (undecided_of_drain hinside hreason rfl rfl
        (by simp [closings, hupdating]))
    · obtain rfl := Option.some.inj hupdate
      exact .inr (undecided_of_drain hinside hreason hreason rfl
        (by simp [closings, hupdating]))
  case h_4 reason hupdating =>
    have hreason : drainReason stream.updating = some reason := by
      rw [hupdating]
      rfl
    split at hupdate
    · obtain rfl := Option.some.inj hupdate
      exact .inr (undecided_of_drain hinside hreason rfl rfl
        (by simp [closings, hupdating]))
    case h_2 item rest hrequests =>
      obtain rfl := Option.some.inj hupdate
      obtain ⟨consumed, drained, crashed, heq⟩ :=
        deleteRequest_eq { stream with requests := rest } item
      rw [heq]
      exact .inr (undecided_of_drain hinside hreason hreason rfl
        (by simp [closings, hupdating]))
  case h_5 reason hupdating =>
    obtain rfl := Option.some.inj hupdate
    left
    cases reason with
    | notReady => simp [InsideProcessReply, hupdating, drainReason] at hinside
    | disconnectEvent =>
        refine ⟨by simp [InsideProcessReply, drainReason, settle, clearReqmap],
          ?_⟩
        simp [hupdating, decision, drainReason, Outcomes, closings, settle]
    | establishedEvent =>
        refine ⟨by simp [InsideProcessReply, drainReason, settle, clearReqmap],
          ?_⟩
        simp [hupdating, decision, drainReason, Outcomes, closings, settle]
  case h_6 hupdating => simp [InsideProcessReply, hupdating, drainReason] at hinside
  case h_7 now hupdating =>
    simp [InsideProcessReply, hupdating, drainReason] at hinside
  case h_8 => contradiction

/-- What another thread does inside `ProcessReply`. -/
theorem inside_elsewhere {action : Action}
    (hinside : stream.InsideProcessReply) (hdid : Did stream action next)
    (hupdate : ∀ input, action ≠ .update input) (hstop : action ≠ .stop) :
    Undecided stream action next := by
  obtain ⟨hupdating, hstatus⟩ := did_elsewhere hdid hupdate hstop
  have hsilent : stream.removedEvents action = [] ∧
      stream.closings action = [] := by
    cases action with
    | update input => exact absurd rfl (hupdate input)
    | _ => exact ⟨rfl, rfl⟩
  refine ⟨?_, .inl hstatus, hsilent.2, fun events => ?_⟩
  · rwa [InsideProcessReply, hupdating]
  · rw [hupdating, hsilent.1, List.nil_append]

theorem not_inside_of_stop (hstep : stream.step .stop = some next) :
    ¬stream.InsideProcessReply := by
  have hact := (step_eq_some.mp hstep).2
  simp only [act] at hact
  split at hact
  case isTrue hstart => simp [InsideProcessReply, hstart, drainReason]
  case isFalse => contradiction

theorem inside_step {action : Action} (hinside : stream.InsideProcessReply)
    (hstep : stream.step action = some next) :
    ¬next.InsideProcessReply ∧
        Outcomes (decision stream.updating (stream.removedEvents action))
          stream.status (stream.closings action) next.status ∨
      Undecided stream action next := by
  by_cases hupdate : ∃ input, action = .update input
  · obtain ⟨input, rfl⟩ := hupdate
    exact inside_update hinside (step_eq_some.mp hstep).2
  · right
    apply inside_elsewhere hinside (did_of_step hstep)
      (not_exists.mp hupdate)
    rintro rfl
    exact absurd hinside (not_inside_of_stop hstep)

/-- The run lemma: what the first event decides is what the run ends with. -/
theorem outcomes_of_inside {actions : List Action}
    (hinside : AllSteps step (fun state _ _ => state.InsideProcessReply) stream
      actions)
    (hrun : exec step stream actions = some final)
    (hleft : ¬final.InsideProcessReply) (hfirst : stream.InsideProcessReply) :
    Outcomes (decision stream.updating
        (observed step removedEvents stream actions))
      stream.status (observed step closings stream actions) final.status := by
  induction actions generalizing stream with
  | nil =>
      obtain rfl := Option.some.inj hrun
      exact absurd hfirst hleft
  | cons action rest ih =>
      obtain ⟨next, hstep, hrest⟩ := exec_cons_eq_some.mp hrun
      have hlater := ((allSteps_cons_of_step hstep).mp hinside).2
      rw [observed_cons_of_step hstep, observed_cons_of_step hstep]
      rcases inside_step hfirst hstep with ⟨hgone, houtcome⟩ | hundecided
      · obtain ⟨rfl, rfl⟩ := exec_of_left hgone hlater hrest
        rwa [observed, observed, List.append_nil, List.append_nil]
      · rw [hundecided.closings, List.nil_append, ← hundecided.decision]
        exact (ih hlater hrest hundecided.inside).of_kept hundecided.status

end Steps

/-- For every content of `replys_`, every state of the client and whatever the
other threads do meanwhile, `ProcessReply` leaves the status that agrees with
the first connection event it removes. -/
theorem first_event_decides {stream final : RPCStream} {actions : List Action}
    (hfirst : stream.updating = .processReply)
    (hinside : AllSteps step (fun state _ _ => state.InsideProcessReply) stream
      actions)
    (hrun : exec step stream actions = some final)
    (hleft : ¬final.InsideProcessReply) :
    Agrees (observed step removedEvents stream actions).head?
      (observed step closings stream actions) stream.status final.status := by
  have houtcome := outcomes_of_inside hinside hrun hleft (.inl hfirst)
  rw [hfirst] at houtcome
  change Outcomes ((observed step removedEvents stream actions).head?.map
    reasonOf) _ _ _ at houtcome
  cases hevent : (observed step removedEvents stream actions).head? with
  | none =>
      rw [hevent] at houtcome
      obtain ⟨hstatus, -⟩ := houtcome
      refine ⟨nofun, fun hestablished => .inr ⟨rfl, ?_⟩⟩
      rw [hestablished] at hstatus
      exact (hstatus.resolve_right nofun).symm
  | some event =>
      rw [hevent] at houtcome
      cases event with
      | disconnect =>
          obtain ⟨hstatus, hclosings⟩ := houtcome
          refine ⟨fun _ => ⟨hstatus, ?_⟩, fun hestablished => ?_⟩
          · exact List.ne_nil_of_length_eq_add_one hclosings
          · rw [hestablished] at hstatus
            contradiction
      | established => exact ⟨nofun, fun _ => .inl rfl⟩

/-! ## Which events are removed -/

/-- The connection events in `replys_` that `ProcessReply` is still to take. -/
def awaited (stream : RPCStream) : List ConnectionEvent :=
  if stream.InsideProcessReply ∧ stream.Emptying then
    stream.replys.flatMap event
  else []

section Awaited

variable {stream next final : RPCStream} {action : Action}

/-- What a completion puts into `replys_`. -/
theorem events_takeEvent {index tag : ℕ} {ok : Bool} {reply : Reply}
    (htag : stream.iothr.cq[index]? = some tag) :
    (stream.takeEvent index ok tag reply).replys.flatMap event =
      stream.replys.flatMap event ++
        stream.pushedEvents (.ioEvent index ok reply) := by
  have hpushed : stream.pushedEvents (.ioEvent index ok reply) =
      if ok = true ∧ stream.iothr.replyWork = false ∧
          IOThread.isReadOperation tag = true then
        [ConnectionEvent.established]
      else [] := by
    simp [pushedEvents, htag]
  have hquiet : ∀ other : RPCStream, other.replys = stream.replys →
      ¬(ok = true ∧ IOThread.isReadOperation tag = true) →
      other.replys.flatMap event = stream.replys.flatMap event ++
        stream.pushedEvents (.ioEvent index ok reply) := by
    intro other hreplys hnot
    rw [hpushed, if_neg fun hpush => hnot ⟨hpush.1, hpush.2.2⟩, hreplys,
      List.append_nil]
  rw [takeEvent, handleEvent]
  split
  case isTrue hwrite =>
    have hread : ¬IOThread.isReadOperation tag = true := fun hread => by
      rw [IOThread.isWriteOperation_of_isReadOperation hread] at hwrite
      contradiction
    obtain ⟨requests, iothr, consumed, crashed, heq⟩ := writeDone_eq
      (stream.onIOThread fun thread =>
        { thread with cq := thread.cq.eraseIdx index }) ok
    rw [heq]
    exact hquiet _ rfl fun hpush => hread hpush.2
  case isFalse hwrite =>
    split
    case isTrue hread =>
      unfold readDone
      cases ok with
      | true =>
          dsimp only
          rw [if_pos rfl, hpushed]
          cases hwork : stream.iothr.replyWork <;>
            simp [pushReply, onIOThread, hwork, hread, event]
      | false =>
          dsimp only
          rw [if_neg Bool.false_ne_true]
          split <;> exact hquiet _ rfl fun hpush => Bool.false_ne_true hpush.1
    case isFalse hread =>
      split <;> exact hquiet _ rfl fun hpush => hread hpush.2

/-- What the end of `DrainRequestQueue` puts into `replys_`. -/
theorem events_ioDrain {seq : ℕ}
    (hrunning : stream.iothr.running = .drainRequestQueue seq) :
    (stream.ioDrain seq).replys.flatMap event =
      stream.replys.flatMap event ++ stream.pushedEvents .ioDrain := by
  rw [pushedEvents, hrunning, ioDrain]
  split
  case h_1 item rest hrequests =>
    obtain ⟨consumed, drained, crashed, heq⟩ :=
      deleteRequest_eq { stream with requests := rest } item
    rw [heq, if_neg (by simp [hrequests]), List.append_nil]
  case h_2 hrequests =>
    dsimp only
    split
    case isTrue hseq =>
      have hseq' : stream.iothr.connectSequenceNum = seq := hseq
      rw [if_pos ⟨hrequests, congrArg _ hseq'.symm⟩]
      exact List.flatMap_append
    case isFalse hseq =>
      have hseq' : stream.iothr.connectSequenceNum ≠ seq := hseq
      rw [if_neg fun hpush => hseq'
        (IOThreadAt.drainRequestQueue.inj hpush.2).symm, List.append_nil]
      rfl

/-- The other threads only add to `replys_`. -/
theorem events_elsewhere (hstep : stream.step action = some next)
    (hupdate : ∀ input, action ≠ .update input) :
    next.replys.flatMap event =
      stream.replys.flatMap event ++ stream.pushedEvents action := by
  have hact := (step_eq_some.mp hstep).2
  cases did_of_act hact with
  | @update input next hupdated => exact absurd rfl (hupdate input)
  | releaseEnqueue => exact List.flatMap_append
  | callBegin request =>
      obtain ⟨-, heq⟩ | heq := callBegin_eq stream request
      all_goals
        rw [heq]
        exact (List.append_nil _).symm
  | stop =>
      obtain ⟨iothr, -, -, -, heq | heq⟩ := stop_eq stream
      all_goals
        rw [heq]
        exact (List.append_nil _).symm
  | ioTimeout =>
      obtain ⟨requests, iothr, consumed, crashed, heq⟩ := ioTimeout_eq stream
      rw [heq]
      exact (List.append_nil _).symm
  | ioEvent ok reply htag => exact events_takeEvent htag
  | ioDrain seq =>
      simp only [act] at hact
      split at hact
      · contradiction
      case h_2 current hrunning =>
        rw [← Option.some.inj hact]
        exact events_ioDrain hrunning
  | _ => exact (List.append_nil _).symm

/-- What the callback of a reply puts into `replys_`. -/
theorem events_processReply (reply : Reply) (onOpenStream : Bool)
    (stream : RPCStream) :
    (stream.processReply reply onOpenStream).replys.flatMap event =
      stream.replys.flatMap event ++
        if stream.Refused reply onOpenStream then [.disconnect] else [] := by
  have hquiet : ¬stream.Refused reply onOpenStream →
      stream.replys.flatMap event = stream.replys.flatMap event ++
        if stream.Refused reply onOpenStream then [.disconnect] else [] := by
    intro hnot
    rw [if_neg hnot, List.append_nil]
  rw [processReply]
  split
  case isTrue hrestarting =>
    exact hquiet fun hrefused => by simp [hrefused.1] at hrestarting
  case isFalse hrestarting =>
    split
    case isTrue hmsgid => exact hquiet fun hrefused => hrefused.2.1 hmsgid
    case isFalse hmsgid =>
      split
      case h_1 hnone =>
        refine hquiet fun hrefused => ?_
        simp [Refused, hnone] at hrefused
      case h_2 entry hentry =>
        rw [respond]
        dsimp only
        split
        case h_1 hcb =>
          refine hquiet fun hrefused => ?_
          simp [Refused, hentry, hcb] at hrefused
        case h_2 hcb =>
          split
          case isTrue hopen =>
            refine hquiet fun hrefused => ?_
            simp [Refused, hentry, hopen] at hrefused
          case isFalse hopen =>
            rw [if_pos ⟨Bool.eq_false_iff.mpr hrestarting, hmsgid, entry,
              hentry, hcb, hopen⟩]
            exact List.flatMap_append

theorem awaited_of_emptying (hinside : stream.InsideProcessReply)
    (hemptying : stream.Emptying) :
    stream.awaited = stream.replys.flatMap event :=
  if_pos ⟨hinside, hemptying⟩

theorem awaited_of_emptied (hemptied : ¬stream.Emptying) :
    stream.awaited = [] :=
  if_neg fun hboth => hemptied hboth.2

theorem arrivals_of_emptied (hemptied : ¬stream.Emptying) :
    stream.arrivals action = [] :=
  if_neg hemptied

/-- A step of `Update` takes the event at the head of `replys_`, and what the
callback of `StartWrite` puts there is still to be taken. -/
theorem awaited_update {input : UpdateInput}
    (hinside : stream.InsideProcessReply)
    (hupdate : stream.update input = some next) :
    stream.awaited ++ stream.arrivals (.update input) =
      stream.removedEvents (.update input) ++ next.awaited := by
  have hgone : ¬stream.Emptying → ¬next.Emptying →
      stream.removedEvents (.update input) = [] →
      stream.awaited ++ stream.arrivals (.update input) =
        stream.removedEvents (.update input) ++ next.awaited := by
    intro hemptied hleft hremoved
    rw [awaited_of_emptied hemptied, arrivals_of_emptied hemptied, hremoved,
      awaited_of_emptied hleft]
  unfold update at hupdate
  split at hupdate
  case h_1 hupdating =>
    simp [InsideProcessReply, hupdating, drainReason] at hinside
  case h_2 hupdating =>
    have hemptying : stream.Emptying := .inl hupdating
    rw [awaited_of_emptying hinside hemptying, arrivals, if_pos hemptying]
    split at hupdate
    case h_1 hreplys =>
      obtain rfl := Option.some.inj hupdate
      simp [removedEvents, pushedEvents, awaited, Emptying, hupdating, hreplys]
    case h_2 rest hreplys =>
      obtain rfl := Option.some.inj hupdate
      simp [removedEvents, pushedEvents, awaited, Emptying, hupdating, hreplys,
        InsideProcessReply, drainReason, event]
    case h_3 rest hreplys =>
      obtain rfl := Option.some.inj hupdate
      simp [removedEvents, pushedEvents, awaited, Emptying, hupdating, hreplys,
        InsideProcessReply, drainReason, event]
    case h_4 reply rest hreplys =>
      obtain rfl := Option.some.inj hupdate
      have hevents := events_processReply reply input.onOpenStream
        { stream with replys := rest }
      obtain ⟨reqmap, invoked, status, replys, notified, heq⟩ :=
        processReply_eq { stream with replys := rest } reply input.onOpenStream
      rw [heq] at hevents ⊢
      rw [awaited, if_pos]
      · rw [hevents]
        simp [removedEvents, pushedEvents, hupdating, hreplys, event, Refused]
      · exact ⟨hinside, hemptying⟩
  case h_3 reason hupdating =>
    have hemptying : stream.Emptying := .inr ⟨reason, hupdating⟩
    rw [awaited_of_emptying hinside hemptying, arrivals, if_pos hemptying]
    split at hupdate
    case h_1 hreplys =>
      obtain rfl := Option.some.inj hupdate
      simp [removedEvents, pushedEvents, awaited, Emptying, hupdating, hreplys]
    case h_2 item rest hreplys =>
      obtain rfl := Option.some.inj hupdate
      rw [awaited, if_pos]
      · simp [removedEvents, pushedEvents, hupdating, hreplys]
      · exact ⟨hinside, hemptying⟩
  case h_4 reason hupdating =>
    split at hupdate
    · obtain rfl := Option.some.inj hupdate
      exact hgone (by simp [Emptying, hupdating]) (by simp [Emptying])
        (by simp [removedEvents, hupdating])
    case h_2 item rest hrequests =>
      obtain rfl := Option.some.inj hupdate
      obtain ⟨consumed, drained, crashed, heq⟩ :=
        deleteRequest_eq { stream with requests := rest } item
      rw [heq] at hgone ⊢
      exact hgone (by simp [Emptying, hupdating])
        (by simp [Emptying, hupdating]) (by simp [removedEvents, hupdating])
  case h_5 reason hupdating =>
    obtain rfl := Option.some.inj hupdate
    obtain ⟨restarting, reconnectWhen, reconnectAttempt, status, heq⟩ :=
      settle_eq { stream with updating := .switch }.clearReqmap reason input
    rw [heq] at hgone ⊢
    exact hgone (by simp [Emptying, hupdating])
      (by simp [Emptying, clearReqmap]) (by simp [removedEvents, hupdating])
  case h_6 hupdating =>
    simp [InsideProcessReply, hupdating, drainReason] at hinside
  case h_7 now hupdating =>
    simp [InsideProcessReply, hupdating, drainReason] at hinside
  case h_8 => contradiction

/-- The step lemma: what a step takes and leaves of the events is what was
there and what came meanwhile. -/
theorem awaited_step (hinside : stream.InsideProcessReply)
    (hstep : stream.step action = some next) :
    stream.awaited ++ stream.arrivals action =
      stream.removedEvents action ++ next.awaited := by
  by_cases hupdate : ∃ input, action = .update input
  · obtain ⟨input, rfl⟩ := hupdate
    exact awaited_update hinside (step_eq_some.mp hstep).2
  · have helse := not_exists.mp hupdate
    have hremoved : stream.removedEvents action = [] := by
      cases action with
      | update input => exact absurd rfl (helse input)
      | _ => rfl
    have hupdating : next.updating = stream.updating := by
      refine (did_elsewhere (did_of_step hstep) helse ?_).1
      rintro rfl
      exact absurd hinside (not_inside_of_stop hstep)
    rw [hremoved, List.nil_append]
    by_cases hemptying : stream.Emptying
    · have hinside' : next.InsideProcessReply := by
        rwa [InsideProcessReply, hupdating]
      have hemptying' : next.Emptying := by rwa [Emptying, hupdating]
      rw [awaited_of_emptying hinside hemptying, arrivals, if_pos hemptying,
        awaited_of_emptying hinside' hemptying', events_elsewhere hstep helse]
    · have hemptying' : ¬next.Emptying := by rwa [Emptying, hupdating]
      rw [awaited_of_emptied hemptying, arrivals_of_emptied hemptying,
        awaited_of_emptied hemptying', List.append_nil]

/-- The run lemma: `ProcessReply` removes the events that were there when it
began and those that came while it emptied `replys_`. -/
theorem awaited_exec {actions : List Action}
    (hinside : AllSteps step (fun state _ _ => state.InsideProcessReply) stream
      actions)
    (hrun : exec step stream actions = some final)
    (hleft : ¬final.InsideProcessReply) :
    stream.awaited ++ observed step arrivals stream actions =
      observed step removedEvents stream actions := by
  induction actions generalizing stream with
  | nil =>
      obtain rfl := Option.some.inj hrun
      rw [observed, observed, awaited, if_neg fun hboth => hleft hboth.1,
        List.append_nil]
  | cons action rest ih =>
      obtain ⟨next, hstep, hrest⟩ := exec_cons_eq_some.mp hrun
      obtain ⟨hhere, hlater⟩ := (allSteps_cons_of_step hstep).mp hinside
      rw [observed_cons_of_step hstep, observed_cons_of_step hstep,
        ← List.append_assoc, awaited_step hhere hstep, List.append_assoc,
        ih hlater hrest]

end Awaited

/-- What the first event leads to agrees with the last one unless they are an
ESTABLISHED_EVENT and a DISCONNECT_EVENT. -/
theorem agrees_last_iff {events : List ConnectionEvent}
    {before after : NetworkStatus} {closings : List ℕ}
    (houtcome : Outcomes (events.head?.map reasonOf) before closings after) :
    Agrees events.getLast? closings before after ↔
      ¬(events.head? = some .established ∧
        events.getLast? = some .disconnect) := by
  cases hhead : events.head? with
  | none =>
      obtain rfl := List.head?_eq_none_iff.mp hhead
      refine iff_of_true ⟨nofun, fun hestablished => .inr ⟨rfl, ?_⟩⟩ (by simp)
      have hstatus := houtcome.1
      rw [hestablished] at hstatus
      exact (hstatus.resolve_right nofun).symm
  | some first =>
      rw [hhead] at houtcome
      cases first with
      | disconnect =>
          obtain ⟨hstatus, hclosings⟩ := houtcome
          refine iff_of_true ⟨fun _ => ⟨hstatus, ?_⟩, fun hestablished => ?_⟩
            (by simp)
          · exact List.ne_nil_of_length_eq_add_one hclosings
          · rw [hestablished] at hstatus
            contradiction
      | established =>
          obtain ⟨hstatus, -⟩ := houtcome
          constructor
          · rintro hagrees ⟨-, hlast⟩
            have hdisconnect := (hagrees.disconnect hlast).1
            rw [hstatus] at hdisconnect
            contradiction
          · intro hnot
            have hlast : events.getLast? ≠ some .disconnect :=
              fun hlast => hnot ⟨rfl, hlast⟩
            refine ⟨fun hdisconnect => absurd hdisconnect hlast, fun _ => ?_⟩
            cases hgetLast : events.getLast? with
            | none =>
                rw [List.getLast?_eq_none_iff] at hgetLast
                rw [hgetLast] at hhead
                contradiction
            | some last =>
                cases last with
                | disconnect => exact absurd hgetLast hlast
                | established => exact .inl rfl

/-- The connection events `ProcessReply` finds: those in `replys_` and those
that come before it has found it empty. -/
def offered (stream : RPCStream) (actions : List Action) :
    List ConnectionEvent :=
  stream.replys.flatMap event ++ observed step arrivals stream actions

/-- For every content of `replys_`, every state of the client and whatever the
other threads do meanwhile, `ProcessReply` leaves the status that agrees with
the last connection event it removes if and only if those it finds do not begin
with ESTABLISHED_EVENT and end with DISCONNECT_EVENT. -/
theorem last_event_decides_iff {stream final : RPCStream}
    {actions : List Action} (hfirst : stream.updating = .processReply)
    (hinside : AllSteps step (fun state _ _ => state.InsideProcessReply) stream
      actions)
    (hrun : exec step stream actions = some final)
    (hleft : ¬final.InsideProcessReply) :
    Agrees (observed step removedEvents stream actions).getLast?
        (observed step closings stream actions) stream.status final.status ↔
      ¬((stream.offered actions).head? = some .established ∧
        (stream.offered actions).getLast? = some .disconnect) := by
  have hremoved : observed step removedEvents stream actions =
      stream.offered actions := by
    rw [offered, ← awaited_exec hinside hrun hleft,
      awaited_of_emptying (.inl hfirst) (.inl hfirst)]
  have houtcome := outcomes_of_inside hinside hrun hleft (.inl hfirst)
  rw [hfirst] at houtcome
  rw [← hremoved]
  exact agrees_last_iff houtcome

private def ready : UpdateInput where
  ready := true
  onOpenStream := true
  onCloseStream := 0
  addPayload := []
  now := 1

private def anyReply : Reply :=
  { type := 0, msgid := 0, error := none, payload := [] }

/-- The application has reset the client, and does so again while `DrainQueue`
empties `replys_`. -/
private def resetTwice : RPCStream :=
  (exec step RPCStream.new
    [.release, .releaseEnqueue, .update ready]).get (by decide)

private def resetAgain : List Action :=
  [.update ready, .release, .releaseEnqueue] ++
    List.replicate 4 (.update ready)

private def resetSettled : RPCStream :=
  (exec step resetTwice resetAgain).get (by decide)

/-- Both events are DISCONNECT_EVENT, and the status agrees with the second. -/
theorem last_event_decides_iff_resetTwice :
    Agrees (observed step removedEvents resetTwice resetAgain).getLast?
      (observed step closings resetTwice resetAgain) resetTwice.status
      resetSettled.status :=
  (@last_event_decides_iff resetTwice resetSettled resetAgain (by decide)
    (by decide) (Option.some_get _).symm (by decide)).mpr (by decide)

/-- The connection is established, and before `Update` looks at `replys_` the
application resets it. -/
private def resetting : RPCStream :=
  (exec step RPCStream.new
    (List.replicate 3 (.update ready) ++
      [.ioTimeout, .ioEvent 0 true anyReply, .release, .releaseEnqueue,
        .update ready])).get (by decide)

private def settled : RPCStream :=
  (exec step resetting (List.replicate 5 (.update ready))).get (by decide)

/-- The reset is dropped: the status is not DISCONNECT behind the
DISCONNECT_EVENT. -/
theorem last_event_decides_fails :
    ¬Agrees
      (observed step removedEvents resetting
        (List.replicate 5 (.update ready))).getLast?
      (observed step closings resetting (List.replicate 5 (.update ready)))
      resetting.status settled.status := by
  intro hagrees
  have hstatus := (hagrees.disconnect (by decide)).1
  exact absurd hstatus (by decide)

end RPCStream

end GrpcMtk
