import GrpcMtk.Client.Callbacks

/-!
# The registration race

`Call` puts its request into `requests_` before it puts its entry into
`reqmap_`.  Between the two the I/O thread can write the request, the peer can
answer it and `ProcessReply` can look for the entry: the reply then finds none
and is lost.  A reply finds its call in exactly the runs in which no reply is
processed inside this window.
-/

namespace GrpcMtk

open GrpcMtk.Proto
open GrpcMtk.Runs
open GrpcMtk.CallTable

namespace RPCStream

/-- The reply that `ProcessReply` dequeues, outside `restarting_`. -/
def dequeued (stream : RPCStream) : Action → Option Reply
  | .update _ =>
      match stream.updating, stream.replys with
      | .processReply, .reply reply :: _ =>
          if stream.restarting then none else some reply
      | _, _ => none
  | _ => none

/-- The callbacks that wait for the dequeued reply run with it: those of the
calls whose request with its msgid was put into `requests_` and was neither
answered, timed out nor drained. -/
def RepliesFound (stream : RPCStream) (action : Action)
    (next : RPCStream) : Prop :=
  ∀ reply ∈ stream.dequeued action, ∀ issue ∈ stream.issued,
    issue.2 = reply.msgid → stream.invocations issue.1 = 0 →
      issue.1 ∉ stream.drained → (issue.1, .replied reply) ∈ next.invoked

instance (stream : RPCStream) (action : Action) (next : RPCStream) :
    Decidable (stream.RepliesFound action next) :=
  inferInstanceAs (Decidable (∀ reply ∈ stream.dequeued action, _))

/-- No call with the msgid of the dequeued reply is between its enqueue and
its insertion, unless its request was drained. -/
def OutsideWindow (stream : RPCStream) (action : Action) : Prop :=
  ∀ reply ∈ stream.dequeued action, ∀ entry ∈ stream.calling.entries,
    entry.2.stage = some reply.msgid → entry.1 ∈ stream.drained

instance (stream : RPCStream) (action : Action) :
    Decidable (stream.OutsideWindow action) :=
  inferInstanceAs (Decidable (∀ reply ∈ stream.dequeued action, _))

theorem dequeued_eq_some {stream : RPCStream} {action : Action}
    {reply : Reply} (hdequeued : stream.dequeued action = some reply) :
    ∃ input rest, action = .update input ∧
      stream.updating = .processReply ∧
      stream.replys = .reply reply :: rest ∧ stream.restarting = false := by
  unfold dequeued at hdequeued
  split at hdequeued
  case h_1 input =>
    split at hdequeued
    case h_1 other rest hupdating hreplys =>
      split at hdequeued
      · contradiction
      case isFalse hrestarting =>
        obtain rfl := Option.some.inj hdequeued
        exact ⟨input, rest, rfl, hupdating, hreplys,
          by simpa using hrestarting⟩
    · contradiction
  · contradiction

/-- The reply that is dequeued is the one `ProcessReply` handles. -/
theorem next_of_dequeued {stream next : RPCStream} {action : Action}
    {reply : Reply} (hdequeued : stream.dequeued action = some reply)
    (hdid : Did stream action next) :
    stream.restarting = false ∧
      ∃ rest onOpenStream, next = { stream with
        replys := rest }.processReply reply onOpenStream := by
  obtain ⟨input, rest, rfl, hupdating, hreplys, hrestarting⟩ :=
    dequeued_eq_some hdequeued
  refine ⟨hrestarting, ?_⟩
  have helsewhere {updating : UpdateAt} (hother : stream.updating = updating)
      (hne : .processReply ≠ updating) :
      ∃ rest onOpenStream, next = { stream with
        replys := rest }.processReply reply onOpenStream :=
    absurd (hupdating.symm.trans hother) hne
  cases hdid with
  | update hupdated =>
    cases hupdated with
    | move updating replys hrequests hreply =>
        exact absurd hreplys (hreply reply rest hupdating)
    | @processReply other rest' _ hreplys' =>
        rw [hreplys, List.cons.injEq, ReplyItem.reply.injEq] at hreplys'
        obtain ⟨rfl, rfl⟩ := hreplys'
        exact ⟨rest, input.onOpenStream, rfl⟩
    | drainRequest hother => exact helsewhere hother UpdateAt.noConfusion
    | drainReqmap hother => exact helsewhere hother UpdateAt.noConfusion
    | switch hother => exact helsewhere hother UpdateAt.noConfusion
    | processTimeout hother => exact helsewhere hother UpdateAt.noConfusion

/-- A reply that finds an entry runs its callback. -/
theorem processReply_of_find? {stream : RPCStream} {reply : Reply}
    {entry : SEntry} (hrestarting : stream.restarting = false)
    (hmsgid : reply.msgid ≠ 0)
    (hentry : stream.reqmap.find? reply.msgid = some entry)
    (onOpenStream : Bool) :
    (entry.call, .replied reply) ∈
      (stream.processReply reply onOpenStream).invoked := by
  have hfound : stream.processReply reply onOpenStream =
      { stream with
        reqmap := stream.reqmap.erase reply.msgid
      }.respond entry (.replied reply) onOpenStream := by
    simp [processReply, hrestarting, hmsgid, hentry]
  obtain ⟨status, replys, heq⟩ := respond_eq
    { stream with reqmap := stream.reqmap.erase reply.msgid } entry
    (.replied reply) onOpenStream
  rw [hfound, heq]
  exact List.mem_cons_self

/-! ## The msgids of calls -/

theorem newMsgId_ne_zero (seed : ℕ) : newMsgId seed ≠ 0 := by
  unfold newMsgId
  split <;> omega

/-- No call has the msgid 0, which marks a notification. -/
structure Numbered (stream : RPCStream) : Prop where
  calling : ∀ call request startAt,
    (call, .numbered request startAt) ∈ stream.calling.entries →
      request.msgid ≠ 0
  issued : ∀ issue ∈ stream.issued, issue.2 ≠ 0

theorem Numbered.of_eq {stream next : RPCStream} (hnumbered : Numbered stream)
    (hcalling : next.calling = stream.calling)
    (hissued : next.issued = stream.issued) : Numbered next where
  calling := hcalling ▸ hnumbered.calling
  issued := hissued ▸ hnumbered.issued

/-- A call goes on to a phase in which its request has a msgid. -/
theorem Numbered.assign {stream next : RPCStream} (hnumbered : Numbered stream)
    {call : CallId} {phase : Calling}
    (hphase : ∀ request startAt, phase = .numbered request startAt →
      request.msgid ≠ 0)
    (hcalling : next.calling = stream.calling.assign call phase)
    (hissued : ∀ issue ∈ next.issued, issue.2 ≠ 0) : Numbered next where
  calling other request startAt hmem := by
    rw [hcalling, OrdMap.mem_assign] at hmem
    rcases hmem with hnew | ⟨hold, -⟩
    · exact hphase request startAt (Prod.mk.inj hnew).2.symm
    · exact hnumbered.calling other request startAt hold
  issued := hissued

theorem Numbered.updated {stream next : RPCStream} {input : UpdateInput}
    (hnumbered : Numbered stream) (hupdated : Updated stream input next) :
    Numbered next := by
  cases hupdated with
  | move => exact hnumbered.of_eq rfl rfl
  | @processReply reply rest hupdating hreplys =>
      obtain ⟨reqmap, invoked, status, replys, notified, heq⟩ :=
        processReply_eq { stream with replys := rest } reply input.onOpenStream
      rw [heq]
      exact hnumbered.of_eq rfl rfl
  | @drainRequest reason item rest hupdating hrequests =>
      cases item <;> exact hnumbered.of_eq rfl rfl
  | @drainReqmap reason hupdating =>
      cases reason <;> exact hnumbered.of_eq rfl rfl
  | switch hupdating =>
      rcases switchStatus_eq stream input with ⟨updating, heq⟩ |
        ⟨status, reconnectAttempt, iothr, -, heq⟩ | ⟨-, heq⟩
      · rw [heq]
        exact hnumbered.of_eq rfl rfl
      · rw [heq]
        exact hnumbered.of_eq rfl rfl
      · rw [heq]
        refine ⟨hnumbered.calling, ?_⟩
        intro issue hissue
        rcases List.mem_cons.mp hissue with rfl | hold
        · exact newMsgId_ne_zero _
        · exact hnumbered.issued issue hold
  | @processTimeout now hupdating =>
      obtain ⟨status, replys, heq⟩ := processTimeout_eq
        { stream with updating := .start } now input.onOpenStream
      rw [heq]
      exact hnumbered.of_eq rfl rfl

theorem Numbered.did {stream next : RPCStream} {action : Action}
    (hnumbered : Numbered stream) (hdid : Did stream action next) :
    Numbered next := by
  by_cases hio : action.onIOThread
  · obtain ⟨replys, requests, iothr, consumed, drained, crashed, rfl⟩ :=
      did_onIOThread hdid hio
    exact hnumbered.of_eq rfl rfl
  · cases hdid with
    | callBegin request =>
        rcases callBegin_eq stream request with ⟨-, heq⟩ | heq
        · rw [heq]
          exact hnumbered.of_eq rfl rfl
        · rw [heq]
          exact hnumbered.assign (fun _ _ h => Calling.noConfusion h) rfl
            hnumbered.issued
    | @callNumber call request now hcalling =>
        refine hnumbered.assign ?_ rfl hnumbered.issued
        intro numbered startAt hphase
        obtain ⟨rfl, -⟩ := Calling.numbered.inj hphase
        exact newMsgId_ne_zero _
    | @callEnqueue call request startAt hcalling =>
        refine hnumbered.assign (fun _ _ h => Calling.noConfusion h) rfl ?_
        intro issue hissue
        rcases List.mem_cons.mp hissue with rfl | hold
        · exact hnumbered.calling call request startAt
            (OrdMap.find?_eq_some.mp hcalling)
        · exact hnumbered.issued issue hold
    | callInsert hcalling =>
        refine ⟨?_, hnumbered.issued⟩
        intro other request startAt hmem
        exact hnumbered.calling other request startAt
          (OrdMap.mem_erase.mp hmem).1
    | update hupdated => exact hnumbered.updated hupdated
    | stop =>
        obtain ⟨iothr, -, -, -, heq | heq⟩ := stop_eq stream
        all_goals
          rw [heq]
          exact hnumbered.of_eq rfl rfl
    | stopTimeout | ioTimeout | ioEvent | ioShutdown | ioDrain =>
        exact absurd trivial hio
    | _ => exact hnumbered.of_eq rfl rfl

/-! ## Runs -/

/-- Every call that waits for its reply can be found, or is still to be
inserted. -/
structure Findable (stream : RPCStream) : Prop where
  calls : Consistent stream.calls
  traced : Traced stream.calls
  numbered : Numbered stream

theorem findable_new : Findable new where
  calls := consistent_new
  traced _ _ hmem := absurd hmem List.not_mem_nil
  numbered :=
    ⟨fun _ _ _ hmem => absurd hmem List.not_mem_nil,
      fun _ hmem => absurd hmem List.not_mem_nil⟩

theorem Findable.step {stream next : RPCStream} {action : Action}
    (hstream : Findable stream) (hstep : stream.step action = some next)
    (hfree : stream.InsertsFree action) : Findable next := by
  have hdid := did_of_step hstep
  exact ⟨consistent_step hstream.calls hstep,
    hstream.traced.exec hstream.calls (moves_registerFree hdid hfree)
      (did_calls hstream.calls hdid),
    hstream.numbered.did hdid⟩

theorem Findable.repliesFound {stream next : RPCStream} {action : Action}
    (hstream : Findable stream) (hdid : Did stream action next)
    (houtside : stream.OutsideWindow action) :
    stream.RepliesFound action next := by
  intro reply hreply issue hissue hmsgid hzero hundrained
  have hdequeued : stream.dequeued action = some reply := hreply
  obtain ⟨hrestarting, rest, onOpenStream, rfl⟩ :=
    next_of_dequeued hdequeued hdid
  have hnonzero : reply.msgid ≠ 0 :=
    hmsgid ▸ hstream.numbered.issued issue hissue
  rcases hstream.traced issue.1 issue.2 hissue
    (invocations_eq_zero.mp hzero) hundrained with hstage | htable
  · obtain ⟨phase, hphase, hat⟩ :=
      (OrdMap.lookup_eq_some Calling.stage).mp hstage
    exact absurd (houtside reply hreply (issue.1, phase) hphase
      (hat.trans (congrArg some hmsgid))) hundrained
  · rw [hmsgid] at htable
    obtain ⟨entry, hentry, hcall⟩ :=
      (OrdMap.lookup_eq_some SEntry.call).mp htable
    rw [← hcall]
    exact @processReply_of_find? { stream with replys := rest } reply entry
      hrestarting hnonzero (OrdMap.find?_eq_some.mpr hentry) onOpenStream

/-- A reply that is processed inside the window of its call is lost. -/
theorem Findable.outsideWindow {stream next : RPCStream} {action : Action}
    (hstream : Findable stream) (hdid : Did stream action next)
    (hfound : stream.RepliesFound action next) :
    stream.OutsideWindow action := by
  rintro reply hreply ⟨call, phase⟩ hphase hstage
  have hdequeued : stream.dequeued action = some reply := hreply
  obtain ⟨hrestarting, rest, onOpenStream, rfl⟩ :=
    next_of_dequeued hdequeued hdid
  have hmaking : stream.calls.stage call = some (some reply.msgid) :=
    (OrdMap.lookup_eq_some Calling.stage).mpr ⟨phase, hphase, hstage⟩
  obtain ⟨-, hunregistered, hunsettled⟩ :=
    hstream.calls.making call _ hmaking
  by_contra hundrained
  have hrun := hfound reply hreply (call, reply.msgid)
    (hstream.calls.announced call reply.msgid hmaking) rfl
    (invocations_eq_zero.mpr hunsettled) hundrained
  rcases processReply_invoked { stream with replys := rest } reply
    onOpenStream with hsame | ⟨entry, -, -, hentry, hinvoked⟩
  · rw [hsame] at hrun
    exact hunsettled (List.mem_map_of_mem hrun)
  · rw [hinvoked] at hrun
    rcases List.mem_cons.mp hrun with hnew | hold
    · have hcall : call = entry.call := (Prod.mk.inj hnew).1
      apply hunregistered
      rw [hcall]
      exact (hstream.calls.outstanding _ _ (table_of_reqmap hentry)).2.1
    · exact hunsettled (List.mem_map_of_mem hold)

/-- In every run of the client that inserts no entry under a msgid in use,
every dequeued reply finds the calls that wait for it if and only if none is
processed between the enqueue and the insertion of such a call. -/
theorem replies_found (actions : List Action)
    (hfree : AllSteps step (fun stream action _ => stream.InsertsFree action)
      RPCStream.new actions) :
    AllSteps step RepliesFound RPCStream.new actions ↔
      AllSteps step (fun stream action _ => stream.OutsideWindow action)
        RPCStream.new actions := by
  apply @allSteps_congr_of_invariant _ _ step Findable _ _ _ _ _ _
    findable_new _ hfree
  · intro stream action next hstream hstep hinserts
    exact Findable.step hstream hstep hinserts
  · intro stream action next hstream hstep
    have hdid := did_of_step hstep
    exact ⟨hstream.outsideWindow hdid, hstream.repliesFound hdid⟩

private def answering : UpdateInput where
  ready := true
  onOpenStream := true
  onCloseStream := 0
  addPayload := []
  now := 1

private def question : Request :=
  { type := 1, msgid := 0, kind := .normal, payload := [7] }

private def answer (msgid : ℕ) : Reply :=
  { type := 1, msgid, error := none, payload := [8] }

/-- The client connects and writes its Connect request, the application calls
as far as the enqueue, the I/O thread writes the request, and the peer
answers. -/
private def answered : List Action :=
  List.replicate 3 (.update answering) ++
    [.ioTimeout, .ioEvent 0 true (answer 0)] ++
    List.replicate 7 (.update answering) ++
    [.ioTimeout, .callBegin question, .callNumber 1 1, .callEnqueue 1,
      .ioEvent 1 true (answer 0), .ioEvent 0 true (answer 2)]

/-- The call inserts its entry before the reply is processed. -/
theorem replies_found_inserted :
    AllSteps step RepliesFound RPCStream.new
      (answered ++ .callInsert 1 :: List.replicate 2 (.update answering)) :=
  (replies_found _ (by decide)).mpr (by decide)

/-- The reply is processed before the call inserts its entry. -/
theorem replies_found_fails :
    ¬AllSteps step RepliesFound RPCStream.new
      (answered ++ List.replicate 2 (.update answering)) := by
  decide

end RPCStream

end GrpcMtk
