import GrpcMtk.Client.Steps

/-!
# The status of a connection

`StartWrite` makes the Connect request of an establishment, and its callback
sets the status to CONNECT, perhaps much later.  Here the request is recorded
beside the client, until the next establishment is processed.  While `Call`,
`Release` and `Update` are made on the polling thread, its entry is the only
one whose callback can set the status.
-/

namespace GrpcMtk

open GrpcMtk.Proto
open GrpcMtk.Runs

namespace RPCStream

/-- `Call`, `Release` and `Update` begin on the polling thread, which is not
inside another `Call` or `Release` then. -/
def OnPollingThread (stream : RPCStream) : Action → Prop
  | .callBegin _ | .release | .update _ =>
      stream.calling.entries = [] ∧ stream.releasing = 0
  | _ => True

instance (stream : RPCStream) (action : Action) :
    Decidable (stream.OnPollingThread action) :=
  match action with
  | .callBegin _ | .release | .update _ =>
      inferInstanceAs (Decidable (_ ∧ _))
  | .releaseEnqueue | .callNumber _ _ | .callEnqueue _ | .callInsert _
  | .stop | .stopTimeout | .ioTimeout | .ioEvent _ _ _ | .ioShutdown
  | .ioDrain => isTrue trivial


/-! ## What a callback does to the status -/

section Callbacks

variable (stream : RPCStream)

theorem status_respond (entry : SEntry) (outcome : Outcome)
    (onOpenStream : Bool) :
    (stream.respond entry outcome onOpenStream).status = stream.status ∨
      entry.cb = .startWrite ∧ 0 ≤ outcome.result ∧ onOpenStream = true ∧
        (stream.respond entry outcome onOpenStream).status = .connect := by
  rw [respond]
  cases hcb : entry.cb with
  | user => exact .inl rfl
  | startWrite =>
      dsimp only
      split
      case isTrue haccepted =>
        exact .inr ⟨rfl, haccepted.1, haccepted.2, rfl⟩
      · exact .inl rfl

/-- No timeout sets the status to CONNECT. -/
theorem status_foldl_timeoutError (entries : List SEntry)
    (onOpenStream : Bool) :
    (entries.foldl (fun stream entry =>
      stream.respond entry .timeoutError onOpenStream) stream).status =
        stream.status := by
  induction entries generalizing stream with
  | nil => rfl
  | cons entry rest ih =>
      rw [List.foldl_cons, ih]
      rcases status_respond stream entry .timeoutError onOpenStream with
        hstatus | ⟨-, hresult, -⟩
      · exact hstatus
      · exact absurd hresult (by decide)

theorem status_processTimeout (now : ℕ) (onOpenStream : Bool) :
    (stream.processTimeout now onOpenStream).status = stream.status := by
  rw [processTimeout]
  exact status_foldl_timeoutError _ _ _

/-- A reply leaves the status alone, or it is that to a Connect request and
accepted. -/
theorem status_processReply (reply : Reply) (onOpenStream : Bool) :
    (stream.processReply reply onOpenStream).status = stream.status ∧
        (stream.processReply reply onOpenStream).reqmap.entries ⊆
          stream.reqmap.entries ∨
      ∃ entry, stream.reqmap.find? reply.msgid = some entry ∧
        entry.cb = .startWrite ∧ 0 ≤ (Outcome.replied reply).result ∧
        onOpenStream = true ∧
        (stream.processReply reply onOpenStream).status = .connect ∧
        (stream.processReply reply onOpenStream).reqmap =
          stream.reqmap.erase reply.msgid ∧
        (stream.processReply reply onOpenStream).invoked =
          (entry.call, .replied reply) :: stream.invoked := by
  have hsame := List.Subset.refl stream.reqmap.entries
  rw [processReply]
  split
  · exact .inl ⟨rfl, hsame⟩
  · split
    · exact .inl ⟨rfl, hsame⟩
    · cases hfind : stream.reqmap.find? reply.msgid with
      | none => exact .inl ⟨rfl, hsame⟩
      | some entry =>
          dsimp only
          obtain ⟨status, replys, heq⟩ := respond_eq
            { stream with reqmap := stream.reqmap.erase reply.msgid } entry
            (.replied reply) onOpenStream
          rcases status_respond
            { stream with reqmap := stream.reqmap.erase reply.msgid } entry
            (.replied reply) onOpenStream with
            hstatus | ⟨hcb, hresult, haccepted, hstatus⟩
          · refine .inl ⟨hstatus, ?_⟩
            rw [heq]
            exact List.filter_subset_self _
          · refine .inr ⟨entry, rfl, hcb, hresult, haccepted, hstatus, ?_, ?_⟩
            all_goals rw [heq]

end Callbacks

section Connect

variable {stream next : RPCStream}

theorem status_switchStatus (input : UpdateInput)
    (hstatus : stream.status ≠ .connect) :
    (stream.switchStatus input).status ≠ .connect := by
  rw [switchStatus]
  cases hcase : stream.status with
  | disconnect =>
      dsimp only
      split <;> nofun
  | connect => exact absurd hcase hstatus
  | _ => nofun

/-- Only a reply sets the status to CONNECT. -/
theorem connect_of_updated {input : UpdateInput}
    (hupdated : Updated stream input next) (hbefore : stream.status ≠ .connect)
    (hafter : next.status = .connect) :
    stream.updating = .processReply ∧
      ∃ reply rest, stream.replys = .reply reply :: rest ∧
        next = { stream with replys := rest }.processReply reply
          input.onOpenStream := by
  cases hupdated with
  | move => exact absurd hafter hbefore
  | @processReply reply rest hupdating hreplys =>
      exact ⟨hupdating, reply, rest, hreplys, rfl⟩
  | @drainRequest reason item rest hupdating hrequests =>
      obtain ⟨consumed, drained, crashed, heq⟩ :=
        deleteRequest_eq { stream with requests := rest } item
      rw [heq] at hafter
      exact absurd hafter hbefore
  | @drainReqmap reason hupdating => cases reason <;> exact absurd hafter nofun
  | switch => exact absurd hafter (status_switchStatus input hbefore)
  | @processTimeout now hupdating =>
      rw [status_processTimeout] at hafter
      exact absurd hafter hbefore

theorem status_drainReqmap {input : UpdateInput} {reason : DrainReason}
    (hupdating : stream.updating = .drainReqmap reason)
    (hupdate : stream.update input = some next) :
    next.status ≠ .connect := by
  rw [update, hupdating] at hupdate
  obtain rfl := Option.some.inj hupdate
  cases reason <;> nofun

theorem connect_of_did {action : Action} (hdid : Did stream action next)
    (hbefore : stream.status ≠ .connect) (hafter : next.status = .connect) :
    ∃ input, action = .update input ∧ Updated stream input next := by
  cases hdid with
  | update hupdated => exact ⟨_, rfl, hupdated⟩
  | callBegin request =>
      rcases callBegin_eq stream request with ⟨-, heq⟩ | heq
      all_goals
        rw [heq] at hafter
        exact absurd hafter hbefore
  | stop =>
      obtain ⟨iothr, -, -, -, heq | heq⟩ := stop_eq stream
      all_goals
        rw [heq] at hafter
        exact absurd hafter hbefore
  | ioTimeout =>
      obtain ⟨requests, iothr, consumed, crashed, heq⟩ := ioTimeout_eq stream
      rw [heq] at hafter
      exact absurd hafter hbefore
  | @ioEvent index tag ok reply htag =>
      obtain ⟨replys, requests, iothr, consumed, crashed, heq⟩ :=
        takeEvent_eq stream index ok tag reply
      rw [heq] at hafter
      exact absurd hafter hbefore
  | ioDrain seq =>
      obtain ⟨replys, requests, iothr, consumed, drained, crashed, heq⟩ :=
        ioDrain_eq stream seq
      rw [heq] at hafter
      exact absurd hafter hbefore
  | _ => exact absurd hafter hbefore

end Connect

end RPCStream

/-- A client, with the msgid and the call of the Connect request that
`StartWrite` has made since the last establishment. -/
structure Session where
  stream : RPCStream
  connect : Option (ℕ × CallId)

namespace Session

def new : Session where
  stream := .new
  connect := none

/-- The Connect request behind an action. -/
def connectAfter (session : Session) : RPCStream.Action → Option (ℕ × CallId)
  | .update _ =>
      match session.stream.updating with
      | .drainReqmap .establishedEvent => none
      | .switch =>
          if session.stream.status = .established then
            some (RPCStream.newMsgId session.stream.msgidSeed,
              session.stream.next)
          else session.connect
      | _ => session.connect
  | _ => session.connect

def step (session : Session) (action : RPCStream.Action) : Option Session :=
  (session.stream.step action).map fun stream =>
    { stream, connect := session.connectAfter action }

/-- The Connect request is recorded beside every run of the client. -/
theorem exec_stream (session : Session) (actions : List RPCStream.Action) :
    (exec step session actions).map stream =
      exec RPCStream.step session.stream actions := by
  apply exec_erase
  intro session action
  rw [step, Option.map_map]
  exact Option.map_id_apply

/-- A reply answers the Connect request of the establishment processed last:
its result is no error, and `OnOpenStream` accepts it. -/
structure Answers (session : Session) (input : RPCStream.UpdateInput)
    (reply : Reply) (entry : SEntry) : Prop where
  status : session.stream.status = .initializing
  updating : session.stream.updating = .processReply
  replys : session.stream.replys.head? = some (.reply reply)
  found : session.stream.reqmap.find? reply.msgid = some entry
  cb : entry.cb = .startWrite
  connect : session.connect = some (reply.msgid, entry.call)
  result : 0 ≤ (Outcome.replied reply).result
  onOpenStream : input.onOpenStream = true

/-- The step runs the callback of the Connect request with an answer that
`OnOpenStream` accepts. -/
def LogsIn (session : Session) (action : RPCStream.Action) (next : Session) :
    Prop :=
  ∃ input reply entry, action = .update input ∧
    session.Answers input reply entry ∧
    next.stream.invoked =
      (entry.call, .replied reply) :: session.stream.invoked

/-! ## The invariant -/

/-- The status says which entries there can be.  Below ESTABLISHED there are
none and no call is under way; the entry of a Connect request is there only in
INITIALIZING, and is that of the request made last. -/
structure Coherent (session : Session) : Prop where
  reqmap : session.stream.status.value < NetworkStatus.established.value →
    session.stream.reqmap.entries = []
  calling : session.stream.status.value < NetworkStatus.established.value →
    session.stream.calling.entries = []
  startWrite : ∀ msgid entry, (msgid, entry) ∈ session.stream.reqmap.entries →
    entry.cb = .startWrite →
      session.stream.status = .initializing ∧
        session.connect = some (msgid, entry.call)

theorem coherent_new : Coherent Session.new where
  reqmap _ := rfl
  calling _ := rfl
  startWrite _ _ hmem := absurd hmem List.not_mem_nil

section Steps

variable {session next : Session}

theorem step_eq_some {action : RPCStream.Action} :
    session.step action = some next ↔
      session.stream.step action = some next.stream ∧
        next.connect = session.connectAfter action := by
  rw [step, Option.map_eq_some_iff]
  constructor
  · rintro ⟨stream, hstream, rfl⟩
    exact ⟨hstream, rfl⟩
  · rintro ⟨hstream, hconnect⟩
    exact ⟨next.stream, hstream, by rw [← hconnect]⟩

/-- Nothing that the status depends on is new. -/
theorem Coherent.of_subset (hcoherent : Coherent session)
    (hstatus : next.stream.status = session.stream.status)
    (hconnect : next.connect = session.connect)
    (hreqmap : next.stream.reqmap.entries ⊆ session.stream.reqmap.entries)
    (hcalling : session.stream.calling.entries = [] →
      next.stream.calling.entries = []) : Coherent next where
  reqmap hlow := by
    rw [hstatus] at hlow
    rw [hcoherent.reqmap hlow] at hreqmap
    exact List.subset_nil.mp hreqmap
  calling hlow := by
    rw [hstatus] at hlow
    exact hcalling (hcoherent.calling hlow)
  startWrite msgid entry hmem hcb := by
    rw [hstatus, hconnect]
    exact hcoherent.startWrite msgid entry (hreqmap hmem) hcb

/-- The requests are drained, and no call is under way. -/
theorem coherent_of_empty (hreqmap : next.stream.reqmap.entries = [])
    (hcalling : next.stream.calling.entries = []) : Coherent next where
  reqmap _ := hreqmap
  calling _ := hcalling
  startWrite msgid entry hmem := by
    rw [hreqmap] at hmem
    exact absurd hmem List.not_mem_nil

theorem Coherent.callBegin (hcoherent : Coherent session) (request : Request)
    (hstream : next.stream = session.stream.callBegin request)
    (hconnect : next.connect = session.connect) : Coherent next := by
  rw [RPCStream.callBegin] at hstream
  dsimp only at hstream
  split at hstream
  · exact hcoherent.of_subset (by rw [hstream]) hconnect
      (by rw [hstream]; exact List.Subset.refl _) (by rw [hstream]; exact id)
  case isFalse hhigh =>
    have hstatus : next.stream.status = session.stream.status := by
      rw [hstream]
    refine ⟨fun hlow => ?_, fun hlow => ?_, ?_⟩
    · rw [hstatus] at hlow
      exact absurd hlow hhigh
    · rw [hstatus] at hlow
      exact absurd hlow hhigh
    · rw [hstream, hconnect]
      exact hcoherent.startWrite

/-- A call is under way, so the status is not below ESTABLISHED. -/
theorem Coherent.high_of_calling (hcoherent : Coherent session)
    {call : CallId} {calling : Calling}
    (hcalling : session.stream.calling.find? call = some calling) :
    ¬session.stream.status.value < NetworkStatus.established.value := by
  intro hlow
  have hmem := OrdMap.find?_eq_some.mp hcalling
  rw [hcoherent.calling hlow] at hmem
  exact absurd hmem List.not_mem_nil

/-- A call goes on, and may put its entry into `reqmap_`. -/
theorem Coherent.call (hcoherent : Coherent session) {call : CallId}
    {calling : Calling}
    (hcalling : session.stream.calling.find? call = some calling)
    (hstatus : next.stream.status = session.stream.status)
    (hconnect : next.connect = session.connect)
    (hreqmap : ∀ msgid entry, (msgid, entry) ∈ next.stream.reqmap.entries →
      entry.cb = .startWrite →
        (msgid, entry) ∈ session.stream.reqmap.entries) : Coherent next where
  reqmap hlow := by
    rw [hstatus] at hlow
    exact absurd hlow (hcoherent.high_of_calling hcalling)
  calling hlow := by
    rw [hstatus] at hlow
    exact absurd hlow (hcoherent.high_of_calling hcalling)
  startWrite msgid entry hmem hcb := by
    rw [hstatus, hconnect]
    exact hcoherent.startWrite msgid entry (hreqmap msgid entry hmem hcb) hcb

/-! ## The polling thread -/

theorem connectAfter_update {input : RPCStream.UpdateInput}
    (hreqmap : ∀ reason, session.stream.updating ≠ .drainReqmap reason)
    (hswitch : session.stream.updating ≠ .switch) :
    session.connectAfter (.update input) = session.connect := by
  rw [connectAfter]
  split
  case h_1 hupdating => exact absurd hupdating (hreqmap .establishedEvent)
  case h_2 hupdating => exact absurd hupdating hswitch
  · rfl

/-- A reply is processed.  The callback of the Connect request may set the
status to CONNECT; its entry was the only one of its kind. -/
theorem Coherent.processReply (hcoherent : Coherent session) {reply : Reply}
    {rest : List ReplyItem} {onOpenStream : Bool}
    (hstream : next.stream = { session.stream with
      replys := rest }.processReply reply onOpenStream)
    (hconnect : next.connect = session.connect)
    (hcalling : session.stream.calling.entries = []) : Coherent next := by
  have hcalling' : next.stream.calling.entries = [] := by
    obtain ⟨reqmap, invoked, status, replys, notified, heq⟩ :=
      RPCStream.processReply_eq { session.stream with replys := rest } reply
        onOpenStream
    rw [hstream, heq, hcalling]
  rcases RPCStream.status_processReply
    { session.stream with replys := rest } reply onOpenStream with
    ⟨hstatus, hreqmap⟩ | ⟨entry, hfind, hcb, -, -, hstatus, hreqmap, -⟩
  · rw [← hstream] at hstatus hreqmap
    exact hcoherent.of_subset hstatus hconnect hreqmap fun _ => hcalling'
  · rw [← hstream] at hstatus hreqmap
    have hmem := OrdMap.find?_eq_some.mp hfind
    have hlatest := (hcoherent.startWrite _ _ hmem hcb).2
    refine ⟨fun hlow => ?_, fun _ => hcalling', ?_⟩
    · rw [hstatus] at hlow
      exact absurd hlow (by decide)
    · intro msgid other hother hstart
      rw [hreqmap, OrdMap.mem_erase] at hother
      have hsame := (hcoherent.startWrite _ _ hother.1 hstart).2
      rw [hlatest, Option.some.injEq, Prod.mk.injEq] at hsame
      exact absurd hsame.1.symm hother.2

theorem Coherent.processTimeout (hcoherent : Coherent session) {now : ℕ}
    {onOpenStream : Bool}
    (hstream : next.stream = { session.stream with
      updating := .start }.processTimeout now onOpenStream)
    (hconnect : next.connect = session.connect) : Coherent next := by
  obtain ⟨status, replys, heq⟩ := RPCStream.processTimeout_eq
    { session.stream with updating := .start } now onOpenStream
  have hstatus := RPCStream.status_processTimeout
    { session.stream with updating := .start } now onOpenStream
  rw [← hstream] at hstatus heq
  refine hcoherent.of_subset hstatus hconnect ?_ ?_
  · rw [heq]
    exact fun entry hentry => (OrdMap.mem_foldl_erase.mp hentry).1
  · rw [heq]
    exact id

/-- The switch starts a connection while there is no entry, or makes the
Connect request. -/
theorem Coherent.switchStatus (hcoherent : Coherent session)
    {input : RPCStream.UpdateInput}
    (hupdating : session.stream.updating = .switch)
    (hstream : next.stream = session.stream.switchStatus input)
    (hconnect : next.connect = session.connectAfter (.update input))
    (hcalling : session.stream.calling.entries = []) : Coherent next := by
  rw [connectAfter, hupdating] at hconnect
  dsimp only at hconnect
  rw [RPCStream.switchStatus] at hstream
  cases hstatus : session.stream.status with
  | disconnect =>
      have hlow : session.stream.status.value <
          NetworkStatus.established.value := by
        rw [hstatus]
        decide
      have hempty := hcoherent.reqmap hlow
      rw [hstatus] at hstream
      dsimp only at hstream
      split at hstream
      all_goals
        apply coherent_of_empty
        · rw [hstream]
          exact hempty
        · rw [hstream]
          exact hcalling
  | established =>
      rw [hstatus] at hstream
      rw [if_pos hstatus] at hconnect
      have hnext : next.stream.status = .initializing := by
        rw [hstream]
        rfl
      refine ⟨fun hlow => ?_, fun _ => ?_, ?_⟩
      · rw [hnext] at hlow
        exact absurd hlow (by decide)
      · rw [hstream]
        exact hcalling
      · intro msgid entry hmem hcb
        rw [hstream] at hmem
        rcases OrdMap.mem_assign.mp hmem with hnew | ⟨hold, -⟩
        · obtain ⟨rfl, rfl⟩ := Prod.mk.inj hnew
          exact ⟨hnext, hconnect⟩
        · have hinitializing := (hcoherent.startWrite _ _ hold hcb).1
          rw [hstatus] at hinitializing
          exact absurd hinitializing nofun
  | _ =>
      rw [hstatus] at hstream
      rw [hstatus, if_neg nofun] at hconnect
      exact hcoherent.of_subset (by rw [hstream]; exact hstatus.symm ▸ rfl)
        hconnect (by rw [hstream]; exact List.Subset.refl _)
        (by rw [hstream]; exact id)

theorem Coherent.update (hcoherent : Coherent session)
    {input : RPCStream.UpdateInput}
    (hupdated : RPCStream.Updated session.stream input next.stream)
    (hconnect : next.connect = session.connectAfter (.update input))
    (hcalling : session.stream.calling.entries = []) : Coherent next := by
  obtain ⟨stream, connect⟩ := next
  dsimp only at hupdated hconnect
  cases hupdated with
  | move updating replys hrequests hreply hreqmap hswitch htimeout =>
      rw [connectAfter_update hreqmap hswitch] at hconnect
      exact hcoherent.of_subset rfl hconnect (List.Subset.refl _) id
  | processReply hupdating hreplys =>
      rw [connectAfter_update (by simp [hupdating]) (by simp [hupdating])]
        at hconnect
      exact hcoherent.processReply rfl hconnect hcalling
  | @drainRequest reason item rest hupdating hrequests =>
      rw [connectAfter_update (by simp [hupdating]) (by simp [hupdating])]
        at hconnect
      obtain ⟨consumed, drained, crashed, heq⟩ := RPCStream.deleteRequest_eq
        { session.stream with requests := rest } item
      rw [heq]
      exact hcoherent.of_subset rfl hconnect (List.Subset.refl _) id
  | @drainReqmap reason hupdating =>
      obtain ⟨restarting, reconnectWhen, reconnectAttempt, status, heq⟩ :=
        RPCStream.settle_eq
          { session.stream with updating := .switch }.clearReqmap reason input
      rw [heq]
      exact coherent_of_empty rfl hcalling
  | switch hupdating =>
      exact hcoherent.switchStatus hupdating rfl hconnect hcalling
  | processTimeout hupdating =>
      rw [connectAfter_update (by simp [hupdating]) (by simp [hupdating])]
        at hconnect
      exact hcoherent.processTimeout rfl hconnect

theorem Coherent.step {action : RPCStream.Action}
    (hcoherent : Coherent session) (hstep : session.step action = some next)
    (hpolling : session.stream.OnPollingThread action) : Coherent next := by
  obtain ⟨hstream, hconnect⟩ := step_eq_some.mp hstep
  have hdid := RPCStream.did_of_step hstream
  obtain ⟨stream, connect⟩ := next
  dsimp only at hdid hconnect
  have hsame := List.Subset.refl session.stream.reqmap.entries
  cases hdid with
  | callBegin request => exact hcoherent.callBegin request rfl hconnect
  | callNumber now hcalling =>
      exact hcoherent.call hcalling rfl hconnect fun _ _ hmem _ => hmem
  | callEnqueue hcalling =>
      exact hcoherent.call hcalling rfl hconnect fun _ _ hmem _ => hmem
  | callInsert hcalling =>
      refine hcoherent.call hcalling rfl hconnect fun msgid entry hmem hcb => ?_
      rcases OrdMap.mem_assign.mp hmem with hnew | ⟨hold, -⟩
      · rw [(Prod.mk.inj hnew).2] at hcb
        exact absurd hcb nofun
      · exact hold
  | update hupdated => exact hcoherent.update hupdated hconnect hpolling.1
  | stop =>
      obtain ⟨iothr, -, -, -, heq | heq⟩ := RPCStream.stop_eq session.stream
      all_goals
        rw [heq]
        exact hcoherent.of_subset rfl hconnect hsame id
  | release => exact hcoherent.of_subset rfl hconnect hsame id
  | releaseEnqueue => exact hcoherent.of_subset rfl hconnect hsame id
  | stopTimeout => exact hcoherent.of_subset rfl hconnect hsame id
  | _ =>
      obtain ⟨replys, requests, iothr, consumed, drained, crashed, heq⟩ :=
        RPCStream.did_onIOThread (RPCStream.did_of_step hstream) trivial
      dsimp only at heq
      rw [heq]
      exact hcoherent.of_subset rfl hconnect hsame id

/-! ## The login -/

/-- A step that sets the status to CONNECT runs the callback of the Connect
request. -/
theorem Coherent.logsIn {action : RPCStream.Action}
    (hcoherent : Coherent session) (hstep : session.step action = some next)
    (hbefore : session.stream.status ≠ .connect)
    (hafter : next.stream.status = .connect) :
    session.LogsIn action next := by
  have hdid := RPCStream.did_of_step (step_eq_some.mp hstep).1
  obtain ⟨input, rfl, hupdated⟩ :=
    RPCStream.connect_of_did hdid hbefore hafter
  obtain ⟨hupdating, reply, rest, hreplys, hnext⟩ :=
    RPCStream.connect_of_updated hupdated hbefore hafter
  rcases RPCStream.status_processReply
    { session.stream with replys := rest } reply input.onOpenStream with
    ⟨hstatus, -⟩ | ⟨entry, hfind, hcb, hresult, haccepted, -, -, hinvoked⟩
  · rw [← hnext, hafter] at hstatus
    exact absurd hstatus.symm hbefore
  · obtain ⟨hinitializing, hconnect⟩ :=
      hcoherent.startWrite _ _ (OrdMap.find?_eq_some.mp hfind) hcb
    rw [← hnext] at hinvoked
    refine ⟨input, reply, entry, rfl, ⟨hinitializing, hupdating, ?_, hfind,
      hcb, hconnect, hresult, haccepted⟩, hinvoked⟩
    rw [hreplys, List.head?_cons]

/-- The recorded request is the same as long as the status stays CONNECT. -/
theorem connect_of_step {action : RPCStream.Action}
    (hstep : session.step action = some next)
    (hbefore : session.stream.status = .connect)
    (hafter : next.stream.status = .connect) :
    next.connect = session.connect := by
  obtain ⟨hstream, hconnect⟩ := step_eq_some.mp hstep
  have hact := (RPCStream.step_eq_some.mp hstream).2
  rw [hconnect]
  cases action with
  | update input =>
      rw [connectAfter]
      split
      case h_1 hupdating =>
        exact absurd hafter (RPCStream.status_drainReqmap hupdating hact)
      case h_2 =>
        rw [hbefore]
        exact if_neg nofun
      · rfl
  | _ => rfl

end Steps

section Runs

variable {session final : Session}

theorem connect_of_exec {actions : List RPCStream.Action}
    (hsince : AllSteps step (fun source _ target =>
      source.stream.status = .connect ∧ target.stream.status = .connect)
        session actions)
    (hrun : exec step session actions = some final) :
    final.connect = session.connect := by
  induction actions generalizing session with
  | nil => rw [Option.some.inj hrun]
  | cons action rest ih =>
      obtain ⟨next, hnext, hrest⟩ := exec_cons_eq_some.mp hrun
      obtain ⟨hhere, hlater⟩ := (allSteps_cons_of_step hnext).mp hsince
      rw [ih hlater hrest, connect_of_step hnext hhere.1 hhere.2]

theorem coherent_of_exec {actions : List RPCStream.Action}
    (hpolling : AllSteps step (fun source action _ =>
      source.stream.OnPollingThread action) new actions)
    (hrun : exec step new actions = some final) : Coherent final :=
  exec_invariant_of_allSteps
    (fun _ _ _ hcoherent hstep hpolling => hcoherent.step hstep hpolling)
    coherent_new hpolling hrun

end Runs

/-- A step that sets the status to CONNECT logs in. -/
def ConnectsByLogin (source : Session) (action : RPCStream.Action)
    (target : Session) : Prop :=
  source.stream.status ≠ .connect → target.stream.status = .connect →
    source.LogsIn action target

/-- A step of the run logs in with the Connect request of the establishment
processed last in it, and the status has been CONNECT since. -/
def LoggedIn (actions : List RPCStream.Action) (final : Session) : Prop :=
  ∃ before action after source target,
    actions = before ++ action :: after ∧
      exec step new before = some source ∧
      step source action = some target ∧
      source.LogsIn action target ∧
      exec step target after = some final ∧
      AllSteps step (fun source _ target =>
        source.stream.status = .connect ∧ target.stream.status = .connect)
        target after ∧
      final.connect = source.connect

/-- While `Call`, `Release` and `Update` are made on the polling thread, there
is no entry in DISCONNECT or CONNECTING, and the status is CONNECT only since
the login of the current establishment was accepted. -/
theorem connection_status {actions : List RPCStream.Action} {final : Session}
    (hpolling : AllSteps step (fun source action _ =>
      source.stream.OnPollingThread action) new actions)
    (hrun : exec step new actions = some final) :
    (final.stream.status = .disconnect ∨
        final.stream.status = .connecting →
      final.stream.reqmap.entries = []) ∧
    AllSteps step ConnectsByLogin new actions ∧
    (final.stream.status = .connect → LoggedIn actions final) := by
  have hlogsIn : AllSteps step ConnectsByLogin new actions :=
    hpolling.of_invariant
      (fun _ _ _ hcoherent hstep hpolling => hcoherent.step hstep hpolling)
      (fun _ _ _ hcoherent hstep _ => hcoherent.logsIn hstep) coherent_new
  refine ⟨?_, hlogsIn, ?_⟩
  · intro hstatus
    apply (coherent_of_exec hpolling hrun).reqmap
    rcases hstatus with hstatus | hstatus
    all_goals
      rw [hstatus]
      decide
  · intro hconnect
    obtain ⟨before, action, after, source, target, rfl, hbefore, hsource,
      hstep, htarget, hafter, hsince⟩ := @exists_last_turn _ _ _
        (fun session => session.stream.status = .connect) _ _ _ hrun nofun
        hconnect
    have hlater := ((allSteps_append hbefore).mp hlogsIn).2
    have hlogin :=
      ((allSteps_cons_of_step hstep).mp hlater).1 hsource htarget
    refine ⟨before, action, after, source, target, rfl, hbefore, hstep, hlogin,
      hafter, hsince, ?_⟩
    obtain ⟨input, reply, entry, rfl, hanswers, -⟩ := hlogin
    calc final.connect
      _ = target.connect := connect_of_exec hsince hafter
      _ = source.connectAfter (.update input) := (step_eq_some.mp hstep).2
      _ = source.connect :=
          connectAfter_update (by simp [hanswers.updating])
            (by simp [hanswers.updating])

private def answered : RPCStream.UpdateInput where
  ready := true
  onOpenStream := true
  onCloseStream := 0
  addPayload := []
  now := 1

private def loginReply : Reply :=
  { type := 0, msgid := 1, error := none, payload := [] }

/-- The stream is established, the Connect request is written and answered, and
`Update` handles the answer. -/
private def login : List RPCStream.Action :=
  List.replicate 3 (.update answered) ++
    [.ioTimeout, .ioEvent 0 true loginReply] ++
      List.replicate 7 (.update answered) ++
        [.ioTimeout, .ioEvent 0 true loginReply] ++
          List.replicate 2 (.update answered)

private def loggedIn : Session :=
  (exec step new login).get (by decide)

theorem connection_status_login :
    (loggedIn.stream.status = .disconnect ∨
        loggedIn.stream.status = .connecting →
      loggedIn.stream.reqmap.entries = []) ∧
    AllSteps step ConnectsByLogin new login ∧
    (loggedIn.stream.status = .connect → LoggedIn login loggedIn) :=
  connection_status (by decide) (Option.some_get _).symm

end Session

end GrpcMtk
