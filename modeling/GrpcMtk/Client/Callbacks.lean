import GrpcMtk.Client.Calls

/-!
# The callbacks of a client

A callback runs at most once, and what it is given is its own: the refusal of
its call, the timeout of its entry, or a reply with its msgid.  A reply whose
msgid no outstanding call has runs nothing.
-/

namespace GrpcMtk

open GrpcMtk.Proto
open GrpcMtk.Runs
open GrpcMtk.CallTable

namespace RPCStream

/-- How often the callback of a call has run. -/
def invocations (stream : RPCStream) (call : CallId) : ℕ :=
  (stream.invoked.map Prod.fst).count call

theorem invocations_pos {stream : RPCStream} {call : CallId} :
    0 < stream.invocations call ↔ call ∈ stream.calls.done :=
  List.count_pos_iff

theorem invocations_eq_zero {stream : RPCStream} {call : CallId} :
    stream.invocations call = 0 ↔ call ∉ stream.calls.done :=
  List.count_eq_zero

theorem invocations_le_one {stream : RPCStream}
    (hcalls : Consistent stream.calls) (call : CallId) :
    stream.invocations call ≤ 1 :=
  List.nodup_iff_count_le_one.mp hcalls.once call

/-- Why a step may run a callback with an outcome. -/
inductive Justified (stream : RPCStream) (action : Action)
    (next : RPCStream) : CallId → Outcome → Prop where
  /-- `Call` itself refuses. -/
  | notConnect {request : Request} (haction : action = .callBegin request)
      (hstatus : stream.status.value < NetworkStatus.established.value) :
      Justified stream action next stream.next .notConnectError
  /-- `ProcessTimeout` has removed the expired entry of the call. -/
  | timeout {input : UpdateInput} {now msgid : ℕ} {entry : SEntry}
      (haction : action = .update input)
      (hupdating : stream.updating = .processTimeout now)
      (hentry : (msgid, entry) ∈ stream.reqmap.entries)
      (hexpired : (entry.startAt + timeoutDuration) % 2 ^ 64 < now)
      (hremoved : next.reqmap.find? msgid = none) :
      Justified stream action next entry.call .timeoutError
  /-- `ProcessReply` has found a reply with the msgid of the call. -/
  | reply {input : UpdateInput} {reply : Reply} {rest : List ReplyItem}
      {call : CallId} (haction : action = .update input)
      (hupdating : stream.updating = .processReply)
      (hreplys : stream.replys = .reply reply :: rest)
      (hrestarting : stream.restarting = false)
      (hmsgid : reply.msgid ≠ 0)
      (hissued : (call, reply.msgid) ∈ stream.issued) :
      Justified stream action next call (.replied reply)

/-- What a step does with the callbacks. -/
structure OwnReplies (stream : RPCStream) (action : Action)
    (next : RPCStream) : Prop where
  once : ∀ call, next.invocations call ≤ 1
  own : ∃ run, next.invoked = run ++ stream.invoked ∧
    ∀ call outcome, (call, outcome) ∈ run →
      Justified stream action next call outcome
  /-- A reply with msgid 0, or with one that no call has or only calls whose
  callbacks have run. -/
  silent : ∀ input reply rest, action = .update input →
    stream.updating = .processReply →
    stream.replys = .reply reply :: rest →
    (reply.msgid = 0 ∨ ∀ call, (call, reply.msgid) ∈ stream.issued →
      0 < stream.invocations call) →
        next.invoked = stream.invoked

/-! ## Consistency of the calls -/

theorem consistent_new : Consistent new.calls where
  making _ _ hstage := absurd hstage (Option.some_ne_none _).symm
  unannounced _ _ _ := List.not_mem_nil
  announced _ _ hstage := absurd hstage (Option.some_ne_none _).symm
  outstanding _ _ htable := absurd htable (Option.some_ne_none _).symm
  announced_lt _ _ hmem := absurd hmem List.not_mem_nil
  registered_lt _ hmem := absurd hmem List.not_mem_nil
  done_lt _ hmem := absurd hmem List.not_mem_nil
  one_key _ _ _ hmem := absurd hmem List.not_mem_nil
  once := List.nodup_nil

theorem consistent_step {stream next : RPCStream} {action : Action}
    (hcalls : Consistent stream.calls)
    (hstep : stream.step action = some next) : Consistent next.calls :=
  hcalls.exec (did_calls hcalls (did_of_step hstep))

/-! ## What one step runs -/

theorem processReply_invoked (stream : RPCStream) (reply : Reply)
    (onOpenStream : Bool) :
    (stream.processReply reply onOpenStream).invoked = stream.invoked ∨
      ∃ entry, stream.restarting = false ∧ reply.msgid ≠ 0 ∧
        stream.reqmap.find? reply.msgid = some entry ∧
        (stream.processReply reply onOpenStream).invoked =
          (entry.call, .replied reply) :: stream.invoked := by
  unfold processReply
  split
  · exact Or.inl rfl
  case isFalse hrestarting =>
    split
    · exact Or.inl rfl
    case isFalse hmsgid =>
      split
      · exact Or.inl rfl
      case h_2 entry hentry =>
        obtain ⟨status, replys, heq⟩ := respond_eq
          { stream with reqmap := stream.reqmap.erase reply.msgid } entry
          (.replied reply) onOpenStream
        refine Or.inr ⟨entry, by simpa using hrestarting, hmsgid, hentry, ?_⟩
        rw [heq]

/-- An entry found under a msgid is of a call that has it and waits. -/
theorem outstanding_of_find? {stream : RPCStream}
    (hcalls : Consistent stream.calls) {msgid : ℕ} {entry : SEntry}
    (hentry : stream.reqmap.find? msgid = some entry) :
    (entry.call, msgid) ∈ stream.issued ∧
      entry.call ∉ stream.calls.done := by
  obtain ⟨hannounced, -, hundone⟩ :=
    hcalls.outstanding msgid entry.call (table_of_reqmap hentry)
  exact ⟨hannounced, hundone⟩

theorem updated_own {stream next : RPCStream} {input : UpdateInput}
    (hcalls : Consistent stream.calls)
    (hupdated : Updated stream input next) :
    ∃ run, next.invoked = run ++ stream.invoked ∧
      ∀ call outcome, (call, outcome) ∈ run →
        Justified stream (.update input) next call outcome := by
  have hnothing : next.invoked = stream.invoked →
      ∃ run, next.invoked = run ++ stream.invoked ∧
        ∀ call outcome, (call, outcome) ∈ run →
          Justified stream (.update input) next call outcome := fun hsame =>
    ⟨[], hsame, fun _ _ hmem => absurd hmem List.not_mem_nil⟩
  cases hupdated with
  | move => exact hnothing rfl
  | @processReply reply rest hupdating hreplys =>
      rcases processReply_invoked { stream with replys := rest } reply
        input.onOpenStream with hsame |
          ⟨entry, hrestarting, hmsgid, hentry, hinvoked⟩
      · exact hnothing hsame
      · refine ⟨[(entry.call, .replied reply)], hinvoked, ?_⟩
        intro call outcome hmem
        obtain ⟨rfl, rfl⟩ := Prod.mk.inj (List.mem_singleton.mp hmem)
        exact .reply rfl hupdating hreplys hrestarting hmsgid
          (outstanding_of_find? hcalls hentry).1
  | @drainRequest reason item rest hupdating hrequests =>
      apply hnothing
      cases item <;> rfl
  | @drainReqmap reason hupdating =>
      apply hnothing
      cases reason <;> rfl
  | switch hupdating =>
      apply hnothing
      rcases switchStatus_eq stream input with ⟨updating, heq⟩ |
        ⟨status, reconnectAttempt, iothr, -, heq⟩ | ⟨-, heq⟩
      · rw [heq]
      · rw [heq]
      · rw [heq]
        rfl
  | @processTimeout now hupdating =>
      obtain ⟨status, replys, heq⟩ := processTimeout_eq
        { stream with updating := .start } now input.onOpenStream
      rw [heq]
      refine ⟨_, rfl, ?_⟩
      intro call outcome hmem
      obtain ⟨⟨msgid, entry⟩, hentry, hpair⟩ :=
        List.mem_map.mp (List.mem_reverse.mp hmem)
      obtain ⟨rfl, rfl⟩ := Prod.mk.inj hpair
      obtain ⟨hin, hexpired⟩ := List.mem_filter.mp hentry
      refine .timeout rfl hupdating hin (of_decide_eq_true hexpired) ?_
      exact OrdMap.find?_foldl_erase (List.mem_map_of_mem hentry)

theorem did_own {stream next : RPCStream} {action : Action}
    (hcalls : Consistent stream.calls) (hdid : Did stream action next) :
    ∃ run, next.invoked = run ++ stream.invoked ∧
      ∀ call outcome, (call, outcome) ∈ run →
        Justified stream action next call outcome := by
  have hnothing : next.invoked = stream.invoked →
      ∃ run, next.invoked = run ++ stream.invoked ∧
        ∀ call outcome, (call, outcome) ∈ run →
          Justified stream action next call outcome := fun hsame =>
    ⟨[], hsame, fun _ _ hmem => absurd hmem List.not_mem_nil⟩
  by_cases hio : action.onIOThread
  · obtain ⟨replys, requests, iothr, consumed, drained, crashed, rfl⟩ :=
      did_onIOThread hdid hio
    exact hnothing rfl
  · cases hdid with
    | callBegin request =>
        rcases callBegin_eq stream request with ⟨hstatus, heq⟩ | heq
        · rw [heq]
          refine ⟨[(stream.next, .notConnectError)], rfl, ?_⟩
          intro call outcome hmem
          obtain ⟨rfl, rfl⟩ := Prod.mk.inj (List.mem_singleton.mp hmem)
          exact .notConnect rfl hstatus
        · rw [heq] at hnothing ⊢
          exact hnothing rfl
    | update hupdated => exact updated_own hcalls hupdated
    | stop =>
        obtain ⟨iothr, -, -, -, heq | heq⟩ := stop_eq stream
        all_goals
          rw [heq] at hnothing ⊢
          exact hnothing rfl
    | stopTimeout | ioTimeout | ioEvent | ioShutdown | ioDrain =>
        exact absurd trivial hio
    | _ => exact hnothing rfl

theorem did_silent {stream next : RPCStream} {input : UpdateInput}
    {reply : Reply} {rest : List ReplyItem}
    (hcalls : Consistent stream.calls)
    (hdid : Did stream (.update input) next)
    (hupdating : stream.updating = .processReply)
    (hreplys : stream.replys = .reply reply :: rest)
    (hunknown : reply.msgid = 0 ∨
      ∀ call, (call, reply.msgid) ∈ stream.issued →
        0 < stream.invocations call) :
    next.invoked = stream.invoked := by
  have helsewhere {updating : UpdateAt} (hother : stream.updating = updating)
      (hne : .processReply ≠ updating) : next.invoked = stream.invoked :=
    absurd (hupdating.symm.trans hother) hne
  cases hdid with
  | update hupdated =>
    cases hupdated with
    | move => rfl
    | @processReply other rest' _ hreplys' =>
        rw [hreplys, List.cons.injEq, ReplyItem.reply.injEq] at hreplys'
        obtain ⟨rfl, rfl⟩ := hreplys'
        rcases processReply_invoked { stream with replys := rest } reply
          input.onOpenStream with hsame | ⟨entry, -, hmsgid, hentry, -⟩
        · exact hsame
        · obtain ⟨hissued, hundone⟩ := outstanding_of_find? hcalls hentry
          rcases hunknown with hzero | hknown
          · exact absurd hzero hmsgid
          · exact absurd (invocations_pos.mp (hknown entry.call hissued))
              hundone
    | drainRequest hother => exact helsewhere hother UpdateAt.noConfusion
    | drainReqmap hother => exact helsewhere hother UpdateAt.noConfusion
    | switch hother => exact helsewhere hother UpdateAt.noConfusion
    | processTimeout hother => exact helsewhere hother UpdateAt.noConfusion

/-! ## Runs -/

/-- In every run of the client, each step runs only callbacks that the step
justifies, and no callback runs twice. -/
theorem own_replies (actions : List Action) :
    AllSteps step OwnReplies RPCStream.new actions := by
  refine allSteps_of_invariant (fun _ _ _ => consistent_step) ?_
    consistent_new
  intro stream action next hcalls hstep
  have hdid := did_of_step hstep
  refine ⟨invocations_le_one (consistent_step hcalls hstep),
    did_own hcalls hdid, ?_⟩
  rintro input reply rest rfl hupdating hreplys hunknown
  exact did_silent hcalls hdid hupdating hreplys hunknown

end RPCStream

end GrpcMtk
