import GrpcMtk.Client.Steps
import GrpcMtk.Core.CallTable

/-!
# The calls of a client

What a client does with its calls is a run of a table of outstanding calls,
keyed by msgid: the enqueue of `Call` announces the call, its insertion into
`reqmap_` registers it, a reply or a timeout settles it, and `DrainQueue`
clears the table.  Every step of the client is a run of moves of the table.
-/

namespace GrpcMtk

open GrpcMtk.Proto
open GrpcMtk.Runs
open GrpcMtk.CallTable

namespace Calling

/-- The msgid under which the request is in `requests_`. -/
def stage : Calling → Option ℕ
  | .checked _ => none
  | .numbered _ _ => none
  | .enqueued msgid _ => some msgid

end Calling

namespace RPCStream

def calls (stream : RPCStream) : CallTable ℕ Outcome where
  next := stream.next
  stage := stream.calling.lookup Calling.stage
  table := stream.reqmap.lookup SEntry.call
  announced := stream.issued
  registered := stream.inserted
  settled := stream.invoked
  dropped := {call | call ∈ stream.drained}

/-! ## The moves of a step -/

/-- `delete drain_req` for the next request. -/
def dropMoves (stream : RPCStream) : List (Move ℕ Outcome) :=
  match stream.requests with
  | .heap id _ :: _ => [.drop id]
  | _ => []

def replyMoves (stream : RPCStream) : List (Move ℕ Outcome) :=
  match stream.replys with
  | .reply reply :: _ =>
      if stream.restarting then []
      else if reply.msgid = 0 then []
      else [.settle reply.msgid (.replied reply)]
  | _ => []

def startWriteMoves (stream : RPCStream) : List (Move ℕ Outcome) :=
  [.begin, .announce stream.next (newMsgId stream.msgidSeed),
    .register stream.next]

def timeoutMoves (now : ℕ) (stream : RPCStream) : List (Move ℕ Outcome) :=
  (stream.expired now).map fun entry => .settle entry.1 .timeoutError

def updateMoves (stream : RPCStream) : List (Move ℕ Outcome) :=
  match stream.updating with
  | .processReply => stream.replyMoves
  | .drainRequests _ => stream.dropMoves
  | .drainReqmap _ => [.clear]
  | .switch =>
      if stream.status = .established then stream.startWriteMoves else []
  | .processTimeout now => stream.timeoutMoves now
  | _ => []

def moves (stream : RPCStream) : Action → List (Move ℕ Outcome)
  | .callBegin _ =>
      if stream.status.value < NetworkStatus.established.value then
        [.refuse .notConnectError]
      else [.begin]
  | .callEnqueue call =>
      match stream.calling.find? call with
      | some (.numbered request _) => [.announce call request.msgid]
      | _ => []
  | .callInsert call => [.register call]
  | .update _ => stream.updateMoves
  | .stop =>
      if stream.iothr.joinable ∧
          stream.status.value ≥ NetworkStatus.connecting.value then [.skip]
      else []
  | .ioDrain => stream.dropMoves
  | _ => []

/-! ## The simulation -/

/-- What the table is made of. -/
structure SameCalls (before after : RPCStream) : Prop where
  next : after.next = before.next
  calling : after.calling = before.calling
  reqmap : after.reqmap = before.reqmap
  issued : after.issued = before.issued
  inserted : after.inserted = before.inserted
  invoked : after.invoked = before.invoked
  drained : after.drained = before.drained

theorem SameCalls.exec {before after : RPCStream}
    (hsame : SameCalls before after) :
    exec CallTable.step before.calls [] = some after.calls := by
  simp only [exec_nil, calls, hsame.next, hsame.calling, hsame.reqmap,
    hsame.issued, hsame.inserted, hsame.invoked, hsame.drained]

theorem exec_singleton {calls next : CallTable ℕ Outcome}
    {move : Move ℕ Outcome} (hstep : calls.step move = some next) :
    Runs.exec CallTable.step calls [move] = some next :=
  exec_cons_eq_some.mpr ⟨next, hstep, rfl⟩

theorem stage_of_calling {stream : RPCStream} {call : CallId}
    {phase : Calling} (hcalling : stream.calling.find? call = some phase) :
    stream.calls.stage call = some phase.stage :=
  OrdMap.lookup_of_find? Calling.stage hcalling

theorem table_of_reqmap {stream : RPCStream} {msgid : ℕ} {entry : SEntry}
    (hentry : stream.reqmap.find? msgid = some entry) :
    stream.calls.table msgid = some entry.call :=
  OrdMap.lookup_of_find? SEntry.call hentry

theorem table_eq_none {stream : RPCStream} {msgid : ℕ} :
    stream.calls.table msgid = none ↔ stream.reqmap.find? msgid = none :=
  Option.map_eq_none_iff

theorem stage_assign (stream : RPCStream) (call : CallId) (phase : Calling) :
    (stream.calling.assign call phase).lookup Calling.stage =
      Function.update stream.calls.stage call (some phase.stage) :=
  OrdMap.lookup_assign Calling.stage stream.calling call phase

theorem table_assign (stream : RPCStream) (msgid : ℕ) (entry : SEntry) :
    (stream.reqmap.assign msgid entry).lookup SEntry.call =
      Function.update stream.calls.table msgid (some entry.call) :=
  OrdMap.lookup_assign SEntry.call stream.reqmap msgid entry

theorem table_erase (stream : RPCStream) (msgid : ℕ) :
    (stream.reqmap.erase msgid).lookup SEntry.call =
      Function.update stream.calls.table msgid none :=
  OrdMap.lookup_erase SEntry.call stream.reqmap msgid

section Steps

variable (stream : RPCStream)

theorem callBegin_calls (request : Request) :
    exec CallTable.step stream.calls (stream.moves (.callBegin request)) =
      some (stream.callBegin request).calls := by
  unfold moves callBegin
  dsimp only
  split
  · rfl
  · apply exec_singleton
    simp only [CallTable.step, Option.some.injEq]
    apply CallTable.ext <;> try rfl
    exact (stage_assign stream stream.next (.checked request)).symm

theorem callNumber_calls {call : CallId} {request : Request}
    (hcalling : stream.calling.find? call = some (.checked request))
    (now : ℕ) : (stream.callNumber call request now).calls = stream.calls := by
  apply CallTable.ext <;> try rfl
  calc (stream.callNumber call request now).calls.stage
      = Function.update stream.calls.stage call (some none) :=
        stage_assign stream call _
    _ = stream.calls.stage :=
        Function.update_eq_self_iff.mpr (stage_of_calling hcalling).symm

theorem callEnqueue_calls {call : CallId} {request : Request} {startAt : ℕ}
    (hcalling : stream.calling.find? call =
      some (.numbered request startAt)) :
    exec CallTable.step stream.calls (stream.moves (.callEnqueue call)) =
      some (stream.callEnqueue call request startAt).calls := by
  have hmoves : stream.moves (.callEnqueue call) =
      [.announce call request.msgid] := by
    simp only [moves, hcalling]
  rw [hmoves]
  apply exec_singleton
  simp only [CallTable.step, stage_of_calling hcalling, Calling.stage,
    Option.some.injEq]
  apply CallTable.ext <;> try rfl
  exact (stage_assign stream call (.enqueued request.msgid startAt)).symm

theorem callInsert_calls {call : CallId} {msgid startAt : ℕ}
    (hcalling : stream.calling.find? call =
      some (.enqueued msgid startAt)) :
    exec CallTable.step stream.calls (stream.moves (.callInsert call)) =
      some (stream.callInsert call msgid startAt).calls := by
  apply exec_singleton
  simp only [CallTable.step, stage_of_calling hcalling, Calling.stage,
    Option.some.injEq]
  apply CallTable.ext <;> try rfl
  · exact (OrdMap.lookup_erase Calling.stage stream.calling call).symm
  · exact (table_assign stream msgid { startAt, call, cb := .user }).symm

/-- A new number belongs to no call that is being made. -/
theorem startWrite_calls (hcalls : Consistent stream.calls) (payload : Bytes)
    (now : ℕ) :
    exec CallTable.step stream.calls stream.startWriteMoves =
      some (stream.startWrite payload now).calls := by
  refine Eq.trans (exec_begin_announce_register hcalls.fresh.1
    (newMsgId stream.msgidSeed)) ?_
  rw [Option.some.injEq]
  apply CallTable.ext <;> try rfl
  exact (table_assign stream (newMsgId stream.msgidSeed)
    { startAt := now, call := stream.next, cb := .startWrite }).symm

theorem deleteRequest_calls {item : RequestItem} {rest : List RequestItem}
    (hrequests : stream.requests = item :: rest) :
    exec CallTable.step stream.calls stream.dropMoves =
      some ({ stream with requests := rest }.deleteRequest item).calls := by
  cases item with
  | establishRequest =>
      have hmoves : stream.dropMoves = [] := by
        simp only [dropMoves, hrequests]
      rw [hmoves, exec_nil]
      rfl
  | heap id request =>
      have hmoves : stream.dropMoves = [.drop id] := by
        simp only [dropMoves, hrequests]
      rw [hmoves]
      apply exec_singleton
      rw [CallTable.step, Option.some.injEq]
      apply CallTable.ext <;> try rfl
      ext call
      exact List.mem_cons.symm

theorem respond_calls (entry : SEntry) (outcome : Outcome)
    (onOpenStream : Bool) :
    (stream.respond entry outcome onOpenStream).calls =
      { stream.calls with
        settled := (entry.call, outcome) :: stream.calls.settled } := by
  obtain ⟨status, replys, heq⟩ :=
    respond_eq stream entry outcome onOpenStream
  rw [heq]
  rfl

theorem processReply_calls {reply : Reply} {rest : List ReplyItem}
    (hreplys : stream.replys = .reply reply :: rest) (onOpenStream : Bool) :
    exec CallTable.step stream.calls stream.replyMoves =
      some ({ stream with replys := rest }.processReply reply
        onOpenStream).calls := by
  simp only [replyMoves, hreplys]
  unfold processReply
  split
  · rfl
  · split
    · rfl
    · apply exec_singleton
      split
      case h_1 hnone =>
        have htable : stream.calls.table reply.msgid = none :=
          table_eq_none.mpr hnone
        simp only [CallTable.step, htable]
        rfl
      case h_2 entry hentry =>
        have htable : stream.calls.table reply.msgid = some entry.call :=
          table_of_reqmap hentry
        simp only [CallTable.step, htable, Option.some.injEq]
        rw [respond_calls]
        apply CallTable.ext <;> try rfl
        exact (table_erase stream _).symm

theorem processTimeout_calls (now : ℕ) (onOpenStream : Bool) :
    exec CallTable.step stream.calls (stream.timeoutMoves now) =
      some ({ stream with updating := .start }.processTimeout now
        onOpenStream).calls := by
  have hentries : ∀ entry ∈ stream.expired now,
      stream.calls.table entry.1 = some entry.2.call := by
    intro entry hentry
    exact table_of_reqmap
      (OrdMap.find?_eq_some.mpr (List.mem_of_mem_filter hentry))
  have hkeys : ((stream.expired now).map Prod.fst).Nodup :=
    (OrdMap.nodup_keys stream.reqmap).sublist
      (List.filter_sublist.map Prod.fst)
  refine Eq.trans (exec_settle Prod.fst (fun entry => entry.2.call) hkeys
    hentries Outcome.timeoutError) ?_
  obtain ⟨status, replys, heq⟩ := processTimeout_eq
    { stream with updating := .start } now onOpenStream
  rw [heq, Option.some.injEq]
  apply CallTable.ext <;> try rfl
  exact (OrdMap.lookup_foldl_erase SEntry.call stream.reqmap _).symm

theorem clearReqmap_calls (reason : DrainReason) (input : UpdateInput) :
    exec CallTable.step stream.calls [.clear] =
      some ({ stream with
        updating := .switch }.clearReqmap.settle reason input).calls := by
  apply exec_singleton
  obtain ⟨restarting, reconnectWhen, reconnectAttempt, status, heq⟩ :=
    settle_eq { stream with updating := .switch }.clearReqmap reason input
  rw [heq, CallTable.step, Option.some.injEq]
  apply CallTable.ext <;> try rfl
  ext call
  simp only [calls, clearReqmap, Set.mem_union, Set.mem_ofPred_eq,
    List.mem_append, List.mem_map, OrdMap.lookup_eq_some, Prod.exists]
  rw [or_comm]

theorem stop_calls :
    exec CallTable.step stream.calls (stream.moves .stop) =
      some stream.stop.calls := by
  by_cases hjoinable : stream.iothr.joinable = true
  · by_cases hstatus : stream.status.value ≥ NetworkStatus.connecting.value
    · simp only [moves, stop, onIOThread, hjoinable, hstatus, and_self,
        if_true]
      rfl
    · simp only [moves, stop, onIOThread, hjoinable, hstatus, and_false,
        if_true, if_false]
      rfl
  · rw [Bool.not_eq_true] at hjoinable
    simp only [moves, stop, hjoinable, Bool.false_eq_true, false_and,
      if_false]
    rfl

theorem switchStatus_calls (hcalls : Consistent stream.calls)
    (input : UpdateInput) :
    exec CallTable.step stream.calls
        (if stream.status = .established then stream.startWriteMoves else []) =
      some (stream.switchStatus input).calls := by
  unfold switchStatus
  cases hstatus : stream.status with
  | disconnect =>
      rw [if_neg NetworkStatus.noConfusion]
      dsimp only
      split <;> rfl
  | established =>
      exact startWrite_calls
        { stream with
          status := .initializing
          updating := .processTimeout input.now } hcalls _ _
  | _ => rfl

theorem ioTimeout_sameCalls : SameCalls stream stream.ioTimeout := by
  obtain ⟨requests, iothr, consumed, crashed, heq⟩ := ioTimeout_eq stream
  rw [heq]
  exact ⟨rfl, rfl, rfl, rfl, rfl, rfl, rfl⟩

theorem takeEvent_sameCalls (index : ℕ) (ok : Bool) (tag : ℕ)
    (reply : Reply) :
    SameCalls stream (stream.takeEvent index ok tag reply) := by
  obtain ⟨replys, requests, iothr, consumed, crashed, heq⟩ :=
    takeEvent_eq stream index ok tag reply
  rw [heq]
  exact ⟨rfl, rfl, rfl, rfl, rfl, rfl, rfl⟩

theorem ioDrain_calls (seq : ℕ) :
    exec CallTable.step stream.calls stream.dropMoves =
      some (stream.ioDrain seq).calls := by
  unfold ioDrain
  split
  case h_1 item rest hrequests => exact deleteRequest_calls stream hrequests
  case h_2 hrequests =>
    have hmoves : stream.dropMoves = [] := by
      simp only [dropMoves, hrequests]
    rw [hmoves]
    dsimp only
    split <;> rfl

end Steps

theorem updated_calls {stream next : RPCStream} {input : UpdateInput}
    (hcalls : Consistent stream.calls)
    (hupdated : Updated stream input next) :
    exec CallTable.step stream.calls stream.updateMoves = some next.calls := by
  cases hupdated with
  | move updating replys hrequests hreply hreqmap hswitch htimeout =>
      have hmoves : stream.updateMoves = [] := by
        unfold updateMoves
        split
        case h_1 hupdating =>
          unfold replyMoves
          split
          case h_1 reply rest hreplys =>
            exact absurd hreplys (hreply reply rest hupdating)
          · rfl
        case h_2 reason hupdating =>
          simp only [dropMoves, hrequests reason hupdating]
        case h_3 reason hupdating => exact absurd hupdating (hreqmap reason)
        case h_4 hupdating => exact absurd hupdating hswitch
        case h_5 now hupdating => exact absurd hupdating (htimeout now)
        · rfl
      rw [hmoves]
      rfl
  | @processReply reply rest hupdating hreplys =>
      have hmoves : stream.updateMoves = stream.replyMoves := by
        simp only [updateMoves, hupdating]
      rw [hmoves]
      exact processReply_calls stream hreplys _
  | @drainRequest reason item rest hupdating hrequests =>
      have hmoves : stream.updateMoves = stream.dropMoves := by
        simp only [updateMoves, hupdating]
      rw [hmoves]
      exact deleteRequest_calls stream hrequests
  | @drainReqmap reason hupdating =>
      have hmoves : stream.updateMoves = [.clear] := by
        simp only [updateMoves, hupdating]
      rw [hmoves]
      exact clearReqmap_calls stream reason input
  | switch hupdating =>
      have hmoves : stream.updateMoves =
          if stream.status = .established then stream.startWriteMoves
          else [] := by
        simp only [updateMoves, hupdating]
      rw [hmoves]
      exact switchStatus_calls stream hcalls input
  | @processTimeout now hupdating =>
      have hmoves : stream.updateMoves = stream.timeoutMoves now := by
        simp only [updateMoves, hupdating]
      rw [hmoves]
      exact processTimeout_calls stream now _

/-- Every step of a client makes its moves on the table of its calls. -/
theorem did_calls {stream next : RPCStream} {action : Action}
    (hcalls : Consistent stream.calls) (hdid : Did stream action next) :
    exec CallTable.step stream.calls (stream.moves action) =
      some next.calls := by
  cases hdid with
  | callBegin request => exact callBegin_calls stream request
  | @callNumber call request now hcalling =>
      exact congrArg some (callNumber_calls stream hcalling now).symm
  | callEnqueue hcalling => exact callEnqueue_calls stream hcalling
  | callInsert hcalling => exact callInsert_calls stream hcalling
  | update hupdated => exact updated_calls hcalls hupdated
  | stop => exact stop_calls stream
  | ioTimeout => exact (ioTimeout_sameCalls stream).exec
  | @ioEvent index tag ok reply htag =>
      exact (takeEvent_sameCalls stream index ok tag reply).exec
  | ioDrain seq => exact ioDrain_calls stream seq
  | _ => rfl

/-! ## Steps that keep the table -/

/-- `reqmap_[msgid] = ent` takes the place of no other entry. -/
def InsertsFree (stream : RPCStream) : Action → Prop
  | .callInsert call =>
      ∀ phase ∈ stream.calling.find? call, ∀ msgid ∈ phase.stage,
        stream.reqmap.find? msgid = none
  | .update _ =>
      stream.updating = .switch → stream.status = .established →
        stream.reqmap.find? (newMsgId stream.msgidSeed) = none
  | _ => True

instance (stream : RPCStream) :
    ∀ action, Decidable (stream.InsertsFree action)
  | .callInsert call => inferInstanceAs (Decidable
      (∀ phase ∈ stream.calling.find? call, ∀ msgid ∈ phase.stage, _))
  | .update _ => inferInstanceAs (Decidable (_ → _ → _))
  | .release | .releaseEnqueue | .callBegin _ | .callNumber _ _
  | .callEnqueue _ | .stop | .stopTimeout | .ioTimeout | .ioEvent _ _ _
  | .ioShutdown | .ioDrain => isTrue trivial

/-- `DrainQueue` finds no entry to delete. -/
def ClearsEmpty (stream : RPCStream) : Action → Prop
  | .update _ =>
      match stream.updating with
      | .drainReqmap _ => stream.reqmap.entries = []
      | _ => True
  | _ => True

theorem reqmap_entries_eq_nil {stream : RPCStream} :
    stream.reqmap.entries = [] ↔ ∀ msgid, stream.calls.table msgid = none := by
  rw [List.eq_nil_iff_forall_not_mem, Prod.forall]
  exact forall_congr' fun msgid =>
    OrdMap.find?_eq_none.symm.trans table_eq_none.symm

section Keeping

variable {stream next : RPCStream}

theorem dropMoves_keep : ∀ move ∈ stream.dropMoves,
    ∀ calls : CallTable ℕ Outcome, calls.Keeps move := by
  unfold dropMoves
  split
  · intro move hmove calls
    obtain rfl := List.mem_singleton.mp hmove
    trivial
  · exact fun _ hmove => absurd hmove List.not_mem_nil

theorem replyMoves_keep : ∀ move ∈ stream.replyMoves,
    ∀ calls : CallTable ℕ Outcome, calls.Keeps move := by
  unfold replyMoves
  split
  · split
    · exact fun _ hmove => absurd hmove List.not_mem_nil
    · split
      · exact fun _ hmove => absurd hmove List.not_mem_nil
      · intro move hmove calls
        obtain rfl := List.mem_singleton.mp hmove
        trivial
  · exact fun _ hmove => absurd hmove List.not_mem_nil

theorem timeoutMoves_keep (now : ℕ) : ∀ move ∈ stream.timeoutMoves now,
    ∀ calls : CallTable ℕ Outcome, calls.Keeps move := by
  intro move hmove calls
  obtain ⟨entry, -, rfl⟩ := List.mem_map.mp hmove
  trivial

theorem startWriteMoves_keep_iff :
    AllSteps CallTable.step (fun calls move _ => calls.Keeps move)
        stream.calls stream.startWriteMoves ↔
      stream.reqmap.find? (newMsgId stream.msgidSeed) = none := by
  rw [← table_eq_none]
  simp [startWriteMoves, AllSteps, CallTable.step, Keeps, RegistersFree,
    calls]

theorem updateMoves_keep_iff (input : UpdateInput) :
    AllSteps CallTable.step (fun calls move _ => calls.Keeps move)
        stream.calls stream.updateMoves ↔
      stream.InsertsFree (.update input) ∧
        stream.ClearsEmpty (.update input) := by
  unfold updateMoves InsertsFree ClearsEmpty
  dsimp only
  split
  case h_1 hupdating =>
    exact iff_of_true (allSteps_keeps replyMoves_keep) (by simp [hupdating])
  case h_2 reason hupdating =>
    exact iff_of_true (allSteps_keeps dropMoves_keep) (by simp [hupdating])
  case h_3 reason hupdating =>
    simp [AllSteps, CallTable.step, Keeps, hupdating, reqmap_entries_eq_nil]
  case h_4 hupdating =>
    by_cases hstatus : stream.status = .established
    · rw [if_pos hstatus, startWriteMoves_keep_iff]
      simp [hupdating, hstatus]
    · rw [if_neg hstatus]
      exact iff_of_true trivial (by simp [hupdating, hstatus])
  case h_5 now hupdating =>
    exact iff_of_true (allSteps_keeps (timeoutMoves_keep now))
      (by simp [hupdating])
  case h_6 hreply hrequests hreqmap hswitch htimeout =>
    refine iff_of_true trivial ⟨?_, ?_⟩
    · exact fun hupdating => absurd hupdating hswitch
    · split
      case h_1 reason hupdating => exact (hreqmap reason hupdating).elim
      · trivial

/-- The moves of a step keep the table if and only if it inserts under a free
msgid and clears an empty map. -/
theorem moves_keep_iff {action : Action} (hdid : Did stream action next) :
    AllSteps CallTable.step (fun calls move _ => calls.Keeps move)
        stream.calls (stream.moves action) ↔
      stream.InsertsFree action ∧ stream.ClearsEmpty action := by
  cases hdid with
  | callBegin request =>
      refine iff_of_true (allSteps_keeps ?_) ⟨trivial, trivial⟩
      unfold moves
      dsimp only
      split
      all_goals
        intro move hmove calls
        obtain rfl := List.mem_singleton.mp hmove
        trivial
  | @callEnqueue call request startAt hcalling =>
      refine iff_of_true (allSteps_keeps ?_) ⟨trivial, trivial⟩
      intro move hmove calls
      simp only [moves, hcalling, List.mem_singleton] at hmove
      subst hmove
      trivial
  | @callInsert call msgid startAt hcalling =>
      have hstage := stage_of_calling hcalling
      simp [moves, AllSteps, CallTable.step, Keeps, RegistersFree, hstage,
        InsertsFree, ClearsEmpty, hcalling, Calling.stage, table_eq_none]
  | @update input _ _ => exact updateMoves_keep_iff input
  | stop =>
      refine iff_of_true (allSteps_keeps ?_) ⟨trivial, trivial⟩
      unfold moves
      dsimp only
      split
      · intro move hmove calls
        obtain rfl := List.mem_singleton.mp hmove
        trivial
      · exact fun _ hmove => absurd hmove List.not_mem_nil
  | ioDrain seq =>
      exact iff_of_true (allSteps_keeps dropMoves_keep) ⟨trivial, trivial⟩
  | _ => exact iff_of_true trivial ⟨trivial, trivial⟩

theorem moves_registerFree {action : Action} (hdid : Did stream action next)
    (hfree : stream.InsertsFree action) :
    AllSteps CallTable.step (fun calls move _ => calls.RegistersFree move)
      stream.calls (stream.moves action) := by
  by_cases hempty : stream.ClearsEmpty action
  · apply AllSteps.mono _ ((moves_keep_iff hdid).mpr ⟨hfree, hempty⟩)
    exact fun _ _ _ _ hkeeps => RegistersFree.of_keeps hkeeps
  · cases action with
    | update input =>
        simp only [ClearsEmpty] at hempty
        split at hempty
        case h_1 reason hupdating =>
          have hmoves : stream.updateMoves = [.clear] := by
            simp only [updateMoves, hupdating]
          rw [moves, hmoves]
          exact ⟨trivial, trivial⟩
        · exact absurd trivial hempty
    | _ => exact absurd trivial hempty

end Keeping

end RPCStream

end GrpcMtk
