import GrpcMtk.Client.Stream

/-!
# What the steps of a client do

One constructor for each way an action can go, with the guard it passed and
the state it leads to, and for each method that branches the fields it can
change.  Later files argue by cases on these.
-/

namespace GrpcMtk

open GrpcMtk.Proto

namespace RPCStream

/-- `HandleEvent` for the operation at a place of the completion queue. -/
def takeEvent (index : ℕ) (ok : Bool) (tag : ℕ) (reply : Reply)
    (stream : RPCStream) : RPCStream :=
  (stream.onIOThread fun thread =>
    { thread with cq := thread.cq.eraseIdx index }).handleEvent ok tag reply

/-- A step of `Update`. -/
inductive Updated (stream : RPCStream) (input : UpdateInput) :
    RPCStream → Prop where
  /-- It only goes on to another place in `Update`, perhaps with an event or a
  reply to drain taken from `replys_`. -/
  | move (updating : UpdateAt) (replys : List ReplyItem)
      (hrequests : ∀ reason, stream.updating = .drainRequests reason →
        stream.requests = [])
      (hreply : ∀ reply rest, stream.updating = .processReply →
        stream.replys ≠ .reply reply :: rest)
      (hreqmap : ∀ reason, stream.updating ≠ .drainReqmap reason)
      (hswitch : stream.updating ≠ .switch)
      (htimeout : ∀ now, stream.updating ≠ .processTimeout now) :
      Updated stream input { stream with updating, replys }
  | processReply {reply : Reply} {rest : List ReplyItem}
      (hupdating : stream.updating = .processReply)
      (hreplys : stream.replys = .reply reply :: rest) :
      Updated stream input ({ stream with replys := rest }.processReply reply
        input.onOpenStream)
  | drainRequest {reason : DrainReason} {item : RequestItem}
      {rest : List RequestItem}
      (hupdating : stream.updating = .drainRequests reason)
      (hrequests : stream.requests = item :: rest) :
      Updated stream input ({ stream with requests := rest }.deleteRequest
        item)
  | drainReqmap {reason : DrainReason}
      (hupdating : stream.updating = .drainReqmap reason) :
      Updated stream input
        ({ stream with updating := .switch }.clearReqmap.settle reason input)
  | switch (hupdating : stream.updating = .switch) :
      Updated stream input (stream.switchStatus input)
  | processTimeout {now : ℕ}
      (hupdating : stream.updating = .processTimeout now) :
      Updated stream input ({ stream with
        updating := .start }.processTimeout now input.onOpenStream)

/-- A step of any thread. -/
inductive Did (stream : RPCStream) : Action → RPCStream → Prop where
  | release : Did stream .release stream.release
  | releaseEnqueue : Did stream .releaseEnqueue stream.releaseEnqueue
  | callBegin (request : Request) :
      Did stream (.callBegin request) (stream.callBegin request)
  | callNumber {call : CallId} {request : Request} (now : ℕ)
      (hcalling : stream.calling.find? call = some (.checked request)) :
      Did stream (.callNumber call now) (stream.callNumber call request now)
  | callEnqueue {call : CallId} {request : Request} {startAt : ℕ}
      (hcalling : stream.calling.find? call =
        some (.numbered request startAt)) :
      Did stream (.callEnqueue call) (stream.callEnqueue call request startAt)
  | callInsert {call : CallId} {msgid startAt : ℕ}
      (hcalling : stream.calling.find? call =
        some (.enqueued msgid startAt)) :
      Did stream (.callInsert call) (stream.callInsert call msgid startAt)
  | update {input : UpdateInput} {next : RPCStream}
      (hupdated : Updated stream input next) :
      Did stream (.update input) next
  | stop : Did stream .stop stream.stop
  | stopTimeout : Did stream .stopTimeout
      (stream.onIOThread fun thread =>
        { thread with cqShutdown := true, alive := false })
  | ioTimeout : Did stream .ioTimeout stream.ioTimeout
  | ioEvent {index tag : ℕ} (ok : Bool) (reply : Reply)
      (htag : stream.iothr.cq[index]? = some tag) :
      Did stream (.ioEvent index ok reply)
        (stream.takeEvent index ok tag reply)
  | ioShutdown : Did stream .ioShutdown
      (stream.onIOThread fun thread => { thread with alive := false })
  | ioDrain (seq : ℕ) : Did stream .ioDrain (stream.ioDrain seq)

section Inversion

variable {stream next : RPCStream}

theorem updated_of_update {input : UpdateInput}
    (hupdate : stream.update input = some next) :
    Updated stream input next := by
  unfold update at hupdate
  split at hupdate
  case h_1 hupdating =>
    split at hupdate <;> obtain rfl := Option.some.inj hupdate <;>
      exact .move _ _ (by simp [hupdating]) (by simp [hupdating])
        (by simp [hupdating]) (by simp [hupdating]) (by simp [hupdating])
  case h_2 hupdating =>
    split at hupdate
    case h_4 reply rest hreplys =>
      obtain rfl := Option.some.inj hupdate
      exact .processReply hupdating hreplys
    all_goals
      rename_i hreplys
      obtain rfl := Option.some.inj hupdate
      exact .move _ _ (by simp [hupdating]) (by simp [hreplys])
        (by simp [hupdating]) (by simp [hupdating]) (by simp [hupdating])
  case h_3 reason hupdating =>
    split at hupdate <;> obtain rfl := Option.some.inj hupdate <;>
      exact .move _ _ (by simp [hupdating]) (by simp [hupdating])
        (by simp [hupdating]) (by simp [hupdating]) (by simp [hupdating])
  case h_4 reason hupdating =>
    split at hupdate
    case h_1 hrequests =>
      obtain rfl := Option.some.inj hupdate
      exact .move _ _ (fun _ _ => hrequests) (by simp [hupdating])
        (by simp [hupdating]) (by simp [hupdating]) (by simp [hupdating])
    case h_2 item rest hrequests =>
      obtain rfl := Option.some.inj hupdate
      exact .drainRequest hupdating hrequests
  case h_5 reason hupdating =>
    obtain rfl := Option.some.inj hupdate
    exact .drainReqmap hupdating
  case h_6 hupdating =>
    obtain rfl := Option.some.inj hupdate
    exact .switch hupdating
  case h_7 now hupdating =>
    obtain rfl := Option.some.inj hupdate
    exact .processTimeout hupdating
  case h_8 => contradiction

theorem did_of_act {action : Action} (hact : stream.act action = some next) :
    Did stream action next := by
  cases action with
  | release =>
      obtain rfl := Option.some.inj hact
      exact .release
  | releaseEnqueue =>
      simp only [act] at hact
      split at hact
      · contradiction
      · obtain rfl := Option.some.inj hact
        exact .releaseEnqueue
  | callBegin request =>
      obtain rfl := Option.some.inj hact
      exact .callBegin request
  | callNumber call now =>
      simp only [act] at hact
      split at hact
      case h_1 request hcalling =>
        obtain rfl := Option.some.inj hact
        exact .callNumber now hcalling
      · contradiction
  | callEnqueue call =>
      simp only [act] at hact
      split at hact
      case h_1 request startAt hcalling =>
        obtain rfl := Option.some.inj hact
        exact .callEnqueue hcalling
      · contradiction
  | callInsert call =>
      simp only [act] at hact
      split at hact
      case h_1 msgid startAt hcalling =>
        obtain rfl := Option.some.inj hact
        exact .callInsert hcalling
      · contradiction
  | update input => exact .update (updated_of_update hact)
  | stop =>
      simp only [act] at hact
      split at hact
      · obtain rfl := Option.some.inj hact
        exact .stop
      · contradiction
  | stopTimeout =>
      simp only [act] at hact
      split at hact
      · obtain rfl := Option.some.inj hact
        exact .stopTimeout
      · contradiction
  | ioTimeout =>
      simp only [act] at hact
      split at hact
      · obtain rfl := Option.some.inj hact
        exact .ioTimeout
      · contradiction
  | ioEvent index ok reply =>
      simp only [act] at hact
      split at hact
      · contradiction
      case h_2 tag htag =>
        split at hact
        · obtain rfl := Option.some.inj hact
          exact .ioEvent ok reply htag
        · contradiction
  | ioShutdown =>
      simp only [act] at hact
      split at hact
      · obtain rfl := Option.some.inj hact
        exact .ioShutdown
      · contradiction
  | ioDrain =>
      simp only [act] at hact
      split at hact
      · contradiction
      case h_2 seq hrunning =>
        obtain rfl := Option.some.inj hact
        exact .ioDrain seq

theorem did_of_step {action : Action}
    (hstep : stream.step action = some next) : Did stream action next :=
  did_of_act (step_eq_some.mp hstep).2

end Inversion

/-! ## The fields a method can change -/

section Fields

variable (stream : RPCStream)

theorem respond_eq (entry : SEntry) (outcome : Outcome)
    (onOpenStream : Bool) :
    ∃ status replys, stream.respond entry outcome onOpenStream =
      { stream with
        invoked := (entry.call, outcome) :: stream.invoked, status, replys } :=
    by
  unfold respond
  dsimp only
  split
  · exact ⟨_, _, rfl⟩
  · split <;> exact ⟨_, _, rfl⟩

theorem processReply_eq (reply : Reply) (onOpenStream : Bool) :
    ∃ reqmap invoked status replys notified,
      stream.processReply reply onOpenStream =
        { stream with reqmap, invoked, status, replys, notified } := by
  unfold processReply
  split
  · exact ⟨_, _, _, _, _, rfl⟩
  · split
    · exact ⟨_, _, _, _, _, rfl⟩
    · split
      · exact ⟨_, _, _, _, _, rfl⟩
      case h_2 entry hentry =>
        obtain ⟨status, replys, heq⟩ := respond_eq
          { stream with reqmap := stream.reqmap.erase reply.msgid } entry
          (.replied reply) onOpenStream
        exact ⟨_, _, status, replys, _, heq⟩

theorem foldl_respond_eq (entries : List SEntry) (outcome : Outcome)
    (onOpenStream : Bool) :
    ∃ status replys,
      entries.foldl (fun stream entry =>
        stream.respond entry outcome onOpenStream) stream =
          { stream with
            invoked := (entries.map fun entry =>
              (entry.call, outcome)).reverse ++ stream.invoked
            status
            replys } := by
  induction entries generalizing stream with
  | nil => exact ⟨_, _, rfl⟩
  | cons entry rest ih =>
      obtain ⟨status, replys, hfirst⟩ :=
        respond_eq stream entry outcome onOpenStream
      obtain ⟨status', replys', hrest⟩ :=
        ih (stream.respond entry outcome onOpenStream)
      refine ⟨status', replys', ?_⟩
      rw [List.foldl_cons, hrest, hfirst, List.map_cons, List.reverse_cons,
        List.append_assoc]
      rfl

theorem processTimeout_eq (now : ℕ) (onOpenStream : Bool) :
    ∃ status replys, stream.processTimeout now onOpenStream =
      { stream with
        reqmap := ((stream.expired now).map Prod.fst).foldl OrdMap.erase
          stream.reqmap
        invoked := ((stream.expired now).map fun entry =>
          (entry.2.call, Outcome.timeoutError)).reverse ++ stream.invoked
        status
        replys } := by
  obtain ⟨status, replys, heq⟩ := foldl_respond_eq
    { stream with
      reqmap := ((stream.expired now).map Prod.fst).foldl OrdMap.erase
        stream.reqmap }
    ((stream.expired now).map Prod.snd) .timeoutError onOpenStream
  refine ⟨status, replys, ?_⟩
  rw [processTimeout, heq, List.map_map]
  rfl

theorem settle_eq (reason : DrainReason) (input : UpdateInput) :
    ∃ restarting reconnectWhen reconnectAttempt status,
      stream.settle reason input =
        { stream with
          restarting, reconnectWhen, reconnectAttempt, status } := by
  cases reason <;> exact ⟨_, _, _, _, rfl⟩

/-- The first half of `Update` left the status to the switch: nothing
happens, a connection attempt starts, or the Connect call is made. -/
theorem switchStatus_eq (input : UpdateInput) :
    (∃ updating, stream.switchStatus input = { stream with updating }) ∨
    (∃ status reconnectAttempt iothr,
      iothr = { stream.iothr with joinable := true } ∧
      stream.switchStatus input =
        { stream with
          status, reconnectAttempt, iothr, updating := .start
          requests := stream.requests ++ [.establishRequest] }) ∨
    stream.status = .established ∧
      stream.switchStatus input =
        { stream with
          status := .initializing
          updating := .processTimeout input.now
        }.startWrite input.addPayload input.now := by
  unfold switchStatus
  split
  · split
    · exact Or.inl ⟨_, rfl⟩
    · exact Or.inr (Or.inl ⟨_, _, _, rfl, rfl⟩)
  · exact Or.inl ⟨_, rfl⟩
  case h_3 hstatus => exact Or.inr (Or.inr ⟨hstatus, rfl⟩)
  all_goals exact Or.inl ⟨_, rfl⟩

/-- `Update` does no more to the I/O thread than to start it. -/
theorem iothr_of_updated {stream next : RPCStream} {input : UpdateInput}
    (hupdated : Updated stream input next) :
    ∃ joinable, (stream.iothr.joinable = true → joinable = true) ∧
      next.iothr = { stream.iothr with joinable } := by
  cases hupdated with
  | move => exact ⟨_, id, rfl⟩
  | @processReply reply rest hupdating hreplys =>
      obtain ⟨reqmap, invoked, status, replys, notified, heq⟩ :=
        processReply_eq { stream with replys := rest } reply input.onOpenStream
      rw [heq]
      exact ⟨_, id, rfl⟩
  | @drainRequest reason item rest hupdating hrequests =>
      cases item <;> exact ⟨_, id, rfl⟩
  | @drainReqmap reason hupdating => cases reason <;> exact ⟨_, id, rfl⟩
  | switch hupdating =>
      rcases switchStatus_eq stream input with ⟨updating, heq⟩ |
        ⟨status, reconnectAttempt, iothr, rfl, heq⟩ | ⟨-, heq⟩
      · rw [heq]
        exact ⟨_, id, rfl⟩
      · rw [heq]
        exact ⟨true, fun _ => rfl, rfl⟩
      · rw [heq]
        exact ⟨_, id, rfl⟩
  | @processTimeout now hupdating =>
      obtain ⟨status, replys, heq⟩ := processTimeout_eq
        { stream with updating := .start } now input.onOpenStream
      rw [heq]
      exact ⟨_, id, rfl⟩

theorem callBegin_eq (request : Request) :
    stream.status.value < NetworkStatus.established.value ∧
      stream.callBegin request =
        { stream with
          next := stream.next + 1
          invoked := (stream.next, .notConnectError) :: stream.invoked } ∨
    stream.callBegin request =
      { stream with
        next := stream.next + 1
        calling := stream.calling.assign stream.next (.checked request) } := by
  unfold callBegin
  dsimp only
  split
  case isTrue hstatus => exact Or.inl ⟨hstatus, rfl⟩
  · exact Or.inr rfl

theorem stop_eq : ∃ iothr, iothr.cq = stream.iothr.cq ∧
    iothr.isSending = stream.iothr.isSending ∧
    iothr.connectSequenceNum = stream.iothr.connectSequenceNum ∧
    (stream.stop = { stream with iothr, updating := .stop } ∨
      stream.stop =
        { stream with iothr, updating := .stop }.sendShutdownRequest) := by
  unfold stop
  dsimp only
  split
  · split
    · exact ⟨{ stream.iothr with sendingShutdown := true }, rfl, rfl, rfl,
        Or.inr rfl⟩
    · exact ⟨{ stream.iothr with
        sendingShutdown := true, cqShutdown := true }, rfl, rfl, rfl,
        Or.inl rfl⟩
  · exact ⟨stream.iothr, rfl, rfl, rfl, Or.inl rfl⟩

end Fields

/-! ## The I/O thread -/

/-- The I/O thread takes the action. -/
def Action.onIOThread : Action → Prop
  | .stopTimeout | .ioTimeout | .ioEvent _ _ _ | .ioShutdown | .ioDrain => True
  | _ => False

section IOThread

variable (stream : RPCStream)

theorem writeRequest_eq (item : RequestItem) :
    ∃ iothr consumed crashed, stream.writeRequest item =
      { stream with iothr, consumed, crashed } := by
  cases item with
  | establishRequest => exact ⟨_, _, _, rfl⟩
  | heap id request =>
      rw [writeRequest]
      dsimp only
      split <;> exact ⟨_, _, _, rfl⟩

theorem ioTimeout_eq : ∃ requests iothr consumed crashed,
    stream.ioTimeout = { stream with requests, iothr, consumed, crashed } := by
  rw [ioTimeout]
  split
  · exact ⟨_, _, _, _, rfl⟩
  · split
    · exact ⟨_, _, _, _, rfl⟩
    · exact ⟨_, _, _, _, rfl⟩
    case h_3 id request rest hrequests =>
      obtain ⟨iothr, consumed, crashed, heq⟩ := writeRequest_eq
        { stream with requests := rest } (.heap id request)
      rw [heq]
      exact ⟨_, _, _, _, rfl⟩

theorem writeDone_eq (ok : Bool) : ∃ requests iothr consumed crashed,
    stream.writeDone ok =
      { stream with requests, iothr, consumed, crashed } := by
  rw [writeDone]
  split
  · split
    · exact ⟨_, _, _, _, rfl⟩
    case h_2 item rest hrequests =>
      obtain ⟨iothr, consumed, crashed, heq⟩ := writeRequest_eq
        { stream with requests := rest } item
      rw [heq]
      exact ⟨_, _, _, _, rfl⟩
  · exact ⟨_, _, _, _, rfl⟩

theorem readDone_eq (ok : Bool) (tag : ℕ) (reply : Reply) :
    ∃ replys iothr, stream.readDone ok tag reply =
      { stream with replys, iothr } := by
  rw [readDone]
  dsimp only
  split
  · exact ⟨_, _, rfl⟩
  · split <;> exact ⟨_, _, rfl⟩

theorem takeEvent_eq (index : ℕ) (ok : Bool) (tag : ℕ) (reply : Reply) :
    ∃ replys requests iothr consumed crashed,
      stream.takeEvent index ok tag reply =
        { stream with replys, requests, iothr, consumed, crashed } := by
  rw [takeEvent, handleEvent]
  split
  · obtain ⟨requests, iothr, consumed, crashed, heq⟩ := writeDone_eq
      (stream.onIOThread fun thread =>
        { thread with cq := thread.cq.eraseIdx index }) ok
    rw [heq]
    exact ⟨_, _, _, _, _, rfl⟩
  · split
    · obtain ⟨replys, iothr, heq⟩ := readDone_eq
        (stream.onIOThread fun thread =>
          { thread with cq := thread.cq.eraseIdx index }) ok tag reply
      rw [heq]
      exact ⟨_, _, _, _, _, rfl⟩
    · split <;> exact ⟨_, _, _, _, _, rfl⟩

theorem deleteRequest_eq (item : RequestItem) : ∃ consumed drained crashed,
    stream.deleteRequest item =
      { stream with consumed, drained, crashed } := by
  cases item <;> exact ⟨_, _, _, rfl⟩

theorem ioDrain_eq (seq : ℕ) :
    ∃ replys requests iothr consumed drained crashed, stream.ioDrain seq =
      { stream with replys, requests, iothr, consumed, drained, crashed } := by
  rw [ioDrain]
  split
  case h_1 item rest hrequests =>
    obtain ⟨consumed, drained, crashed, heq⟩ := deleteRequest_eq
      { stream with requests := rest } item
    rw [heq]
    exact ⟨_, _, _, _, _, _, rfl⟩
  case h_2 hrequests =>
    dsimp only
    split <;> exact ⟨_, _, _, _, _, _, rfl⟩

end IOThread

/-- The fields the I/O thread shares with the others. -/
theorem did_onIOThread {stream next : RPCStream} {action : Action}
    (hdid : Did stream action next) (hio : action.onIOThread) :
    ∃ replys requests iothr consumed drained crashed,
      next =
        { stream with
          replys, requests, iothr, consumed, drained, crashed } := by
  cases hdid with
  | stopTimeout => exact ⟨_, _, _, _, _, _, rfl⟩
  | ioTimeout =>
      obtain ⟨requests, iothr, consumed, crashed, heq⟩ := ioTimeout_eq stream
      exact ⟨_, _, _, _, _, _, heq⟩
  | @ioEvent index tag ok reply htag =>
      obtain ⟨replys, requests, iothr, consumed, crashed, heq⟩ :=
        takeEvent_eq stream index ok tag reply
      exact ⟨_, _, _, _, _, _, heq⟩
  | ioShutdown => exact ⟨_, _, _, _, _, _, rfl⟩
  | ioDrain seq =>
      obtain ⟨replys, requests, iothr, consumed, drained, crashed, heq⟩ :=
        ioDrain_eq stream seq
      exact ⟨_, _, _, _, _, _, heq⟩
  | _ => exact hio.elim

end RPCStream

end GrpcMtk
