import GrpcMtk.Client.Steps
import Mathlib.Data.List.Nodup

/-!
# The requests a client makes

`Call`, `StartWrite` and `SendShutdownRequest` make requests on the heap and
put them into `requests_`.  The I/O thread pops one and writes it, or one of
the two `DrainRequestQueue`s pops one and deletes it.  No request goes both
ways, or one of them twice, and none is forgotten: whatever the threads do,
what was made is once in the queue or was once taken from it.
-/

namespace GrpcMtk

open GrpcMtk.Proto
open GrpcMtk.Runs

/-- The number of the call that made the object. -/
def RequestItem.maker : RequestItem → Option CallId
  | .establishRequest => none
  | .heap id _ => some id

namespace RPCStream

/-- The requests that have come into `requests_`, with those taken from it. -/
def made (stream : RPCStream) : List CallId :=
  (stream.consumed ++ stream.requests).filterMap RequestItem.maker

/-- The objects themselves. -/
def heaps (stream : RPCStream) : List RequestItem :=
  (stream.consumed ++ stream.requests).filter fun item => item.maker.isSome

/-- The object a step puts into `requests_`: `Call` the request it has
numbered, `StartWrite` the Connect request, `Stop` the shutdown request. -/
def enqueued (stream : RPCStream) : Action → List RequestItem
  | .callEnqueue call =>
      match stream.calling.find? call with
      | some (.numbered request _) => [.heap call request]
      | _ => []
  | .update input =>
      if stream.updating = .switch ∧ stream.status = .established then
        [.heap stream.next
          { type := 0, msgid := newMsgId stream.msgidSeed, kind := .connect
            payload := input.addPayload }]
      else []
  | .stop =>
      if stream.iothr.joinable = true ∧
          NetworkStatus.connecting.value ≤ stream.status.value then
        [.heap stream.next shutdownRequest]
      else []
  | _ => []

/-! ## What a step does with the queue -/

/-- The threads inside `Call` are where they were. -/
structure CallsKept (stream next : RPCStream) : Prop where
  calling : next.calling = stream.calling
  issued : next.issued = stream.issued
  next : next.next = stream.next

/-- What a step that puts these objects into `requests_` does with it and with
the calls being made. -/
inductive Passage (stream next : RPCStream) : List RequestItem → Prop where
  | kept (hcalls : CallsKept stream next)
      (hconsumed : next.consumed = stream.consumed)
      (hrequests : next.requests = stream.requests) :
      Passage stream next []
  /-- The TIMEOUT branch pops a connection attempt. -/
  | opened (hcalls : CallsKept stream next)
      (hconsumed : next.consumed = stream.consumed)
      (hrequests : stream.requests = .establishRequest :: next.requests) :
      Passage stream next []
  | used (item : RequestItem) (hcalls : CallsKept stream next)
      (hconsumed : next.consumed = item :: stream.consumed)
      (hrequests : stream.requests = item :: next.requests) :
      Passage stream next []
  | attempted (hcalls : CallsKept stream next)
      (hconsumed : next.consumed = stream.consumed)
      (hrequests : next.requests = stream.requests ++ [.establishRequest]) :
      Passage stream next []
  /-- A `Call` passes or fails its status check. -/
  | begun (hnext : next.next = stream.next + 1)
      (hcalling : next.calling = stream.calling ∨
        ∃ request, next.calling =
          stream.calling.assign stream.next (.checked request))
      (hissued : next.issued = stream.issued)
      (hconsumed : next.consumed = stream.consumed)
      (hrequests : next.requests = stream.requests) :
      Passage stream next []
  | numbered (call : CallId) (request request' : Request) (now : ℕ)
      (hchecked : stream.calling.find? call = some (.checked request))
      (hnext : next.next = stream.next)
      (hcalling : next.calling =
        stream.calling.assign call (.numbered request' now))
      (hissued : next.issued = stream.issued)
      (hconsumed : next.consumed = stream.consumed)
      (hrequests : next.requests = stream.requests) :
      Passage stream next []
  | enqueued (call : CallId) (request : Request) (startAt : ℕ)
      (hnumbered : stream.calling.find? call =
        some (.numbered request startAt))
      (hnext : next.next = stream.next)
      (hcalling : next.calling =
        stream.calling.assign call (.enqueued request.msgid startAt))
      (hissued : next.issued = (call, request.msgid) :: stream.issued)
      (hconsumed : next.consumed = stream.consumed)
      (hrequests : next.requests = stream.requests ++ [.heap call request]) :
      Passage stream next [.heap call request]
  | inserted (call : CallId) (hnext : next.next = stream.next)
      (hcalling : next.calling = stream.calling.erase call)
      (hissued : next.issued = stream.issued)
      (hconsumed : next.consumed = stream.consumed)
      (hrequests : next.requests = stream.requests) :
      Passage stream next []
  /-- `StartWrite` and `SendShutdownRequest`. -/
  | made (request : Request) (hnext : next.next = stream.next + 1)
      (hcalling : next.calling = stream.calling)
      (hissued : next.issued = stream.issued ∧ request.msgid = 0 ∨
        next.issued = (stream.next, request.msgid) :: stream.issued)
      (hconsumed : next.consumed = stream.consumed)
      (hrequests : next.requests =
        stream.requests ++ [.heap stream.next request]) :
      Passage stream next [.heap stream.next request]

section Passages

variable {stream next : RPCStream}

theorem passage_deleteRequest {item : RequestItem} {rest : List RequestItem}
    (hrequests : stream.requests = item :: rest) :
    Passage stream ({ stream with requests := rest }.deleteRequest item) [] := by
  cases item <;> exact .used _ ⟨rfl, rfl, rfl⟩ rfl hrequests

theorem writeRequest_used (stream : RPCStream) (item : RequestItem) :
    ∃ iothr crashed, stream.writeRequest item =
      { stream with consumed := item :: stream.consumed, iothr, crashed } := by
  cases item with
  | establishRequest => exact ⟨_, _, rfl⟩
  | heap id request =>
      rw [writeRequest]
      dsimp only
      split <;> exact ⟨_, _, rfl⟩

theorem passage_switch (input : UpdateInput) :
    Passage stream (stream.switchStatus input)
      (if stream.status = .established then
        [.heap stream.next
          { type := 0, msgid := newMsgId stream.msgidSeed, kind := .connect
            payload := input.addPayload }]
      else []) := by
  unfold switchStatus
  cases hstatus : stream.status with
  | disconnect =>
      dsimp only
      split
      · exact .kept ⟨rfl, rfl, rfl⟩ rfl rfl
      · exact .attempted ⟨rfl, rfl, rfl⟩ rfl rfl
  | connecting => exact .kept ⟨rfl, rfl, rfl⟩ rfl rfl
  | established => exact .made _ rfl rfl (Or.inr rfl) rfl rfl
  | initializing => exact .kept ⟨rfl, rfl, rfl⟩ rfl rfl
  | connect => exact .kept ⟨rfl, rfl, rfl⟩ rfl rfl

theorem passage_updated {input : UpdateInput}
    (hupdated : Updated stream input next) :
    Passage stream next (stream.enqueued (.update input)) := by
  have helsewhere : stream.updating ≠ .switch →
      stream.enqueued (.update input) = [] :=
    fun hupdating => if_neg fun hboth => hupdating hboth.1
  cases hupdated with
  | move updating replys hrequests hreply hreqmap hswitch =>
      rw [helsewhere hswitch]
      exact .kept ⟨rfl, rfl, rfl⟩ rfl rfl
  | @processReply reply rest hupdating hreplys =>
      obtain ⟨reqmap, invoked, status, replys, notified, heq⟩ :=
        processReply_eq { stream with replys := rest } reply input.onOpenStream
      rw [heq, helsewhere (by simp [hupdating])]
      exact .kept ⟨rfl, rfl, rfl⟩ rfl rfl
  | @drainRequest reason item rest hupdating hrequests =>
      rw [helsewhere (by simp [hupdating])]
      exact passage_deleteRequest hrequests
  | @drainReqmap reason hupdating =>
      obtain ⟨restarting, reconnectWhen, reconnectAttempt, status, heq⟩ :=
        settle_eq { stream with updating := .switch }.clearReqmap reason input
      rw [heq, helsewhere (by simp [hupdating])]
      exact .kept ⟨rfl, rfl, rfl⟩ rfl rfl
  | switch hupdating =>
      have hswitch := @passage_switch stream input
      rw [enqueued]
      simpa only [hupdating, true_and] using hswitch
  | @processTimeout now hupdating =>
      obtain ⟨status, replys, heq⟩ := processTimeout_eq
        { stream with updating := .start } now input.onOpenStream
      rw [heq, helsewhere (by simp [hupdating])]
      exact .kept ⟨rfl, rfl, rfl⟩ rfl rfl

theorem passage_stop (stream : RPCStream) :
    Passage stream stream.stop (stream.enqueued .stop) := by
  rw [enqueued, stop]
  dsimp only
  split
  case isTrue hjoinable =>
    split
    case isTrue hconnecting =>
      rw [if_pos ⟨hjoinable, hconnecting⟩]
      exact .made shutdownRequest rfl rfl (Or.inl ⟨rfl, rfl⟩) rfl rfl
    case isFalse hconnecting =>
      rw [if_neg fun hboth => hconnecting hboth.2]
      exact .kept ⟨rfl, rfl, rfl⟩ rfl rfl
  case isFalse hjoinable =>
    rw [if_neg fun hboth => hjoinable hboth.1]
    exact .kept ⟨rfl, rfl, rfl⟩ rfl rfl

theorem passage_ioTimeout (stream : RPCStream) :
    Passage stream stream.ioTimeout [] := by
  unfold ioTimeout
  split
  · exact .kept ⟨rfl, rfl, rfl⟩ rfl rfl
  · split
    · exact .kept ⟨rfl, rfl, rfl⟩ rfl rfl
    case h_2 rest hrequests => exact .opened ⟨rfl, rfl, rfl⟩ rfl hrequests
    case h_3 id request rest hrequests =>
      obtain ⟨iothr, crashed, heq⟩ := writeRequest_used
        { stream with requests := rest } (.heap id request)
      rw [heq]
      exact .used _ ⟨rfl, rfl, rfl⟩ rfl hrequests

theorem passage_takeEvent (index tag : ℕ) (ok : Bool) (reply : Reply) :
    Passage stream (stream.takeEvent index ok tag reply) [] := by
  unfold takeEvent handleEvent
  split
  · cases ok with
    | false => exact .kept ⟨rfl, rfl, rfl⟩ rfl rfl
    | true =>
        unfold writeDone
        rw [if_pos rfl]
        split
        · exact .kept ⟨rfl, rfl, rfl⟩ rfl rfl
        case h_2 item rest hrequests =>
          obtain ⟨iothr, crashed, heq⟩ := writeRequest_used
            { stream.onIOThread fun thread =>
              { thread with cq := thread.cq.eraseIdx index } with
              requests := rest } item
          rw [heq]
          exact .used item ⟨rfl, rfl, rfl⟩ rfl hrequests
  · split
    · unfold readDone
      dsimp only
      split
      · exact .kept ⟨rfl, rfl, rfl⟩ rfl rfl
      · split <;> exact .kept ⟨rfl, rfl, rfl⟩ rfl rfl
    · split <;> exact .kept ⟨rfl, rfl, rfl⟩ rfl rfl

theorem passage_ioDrain (seq : ℕ) (stream : RPCStream) :
    Passage stream (stream.ioDrain seq) [] := by
  unfold ioDrain
  split
  case h_1 item rest hrequests => exact passage_deleteRequest hrequests
  case h_2 hrequests =>
    dsimp only
    split <;> exact .kept ⟨rfl, rfl, rfl⟩ rfl rfl

theorem passage_of_did {action : Action} (hdid : Did stream action next) :
    Passage stream next (stream.enqueued action) := by
  cases hdid with
  | callBegin request =>
      rcases callBegin_eq stream request with ⟨-, heq⟩ | heq
      · rw [heq]
        exact .begun rfl (Or.inl rfl) rfl rfl rfl
      · rw [heq]
        exact .begun rfl (Or.inr ⟨request, rfl⟩) rfl rfl rfl
  | @callNumber call request now hcalling =>
      exact .numbered call request _ now hcalling rfl rfl rfl rfl rfl
  | @callEnqueue call request startAt hcalling =>
      rw [enqueued, hcalling]
      exact .enqueued call request startAt hcalling rfl rfl rfl rfl rfl
  | @callInsert call msgid startAt hcalling =>
      exact .inserted call rfl rfl rfl rfl rfl
  | update hupdated => exact passage_updated hupdated
  | stop => exact passage_stop stream
  | ioTimeout => exact passage_ioTimeout stream
  | @ioEvent index tag ok reply htag =>
      exact passage_takeEvent index tag ok reply
  | ioDrain seq => exact passage_ioDrain seq stream
  | _ => exact .kept ⟨rfl, rfl, rfl⟩ rfl rfl

end Passages

/-! ## Nothing twice, nothing forgotten -/

/-- Every request that was made is in the queue or was taken from it, once;
and what the threads inside `Call` are to make has not been made. -/
structure Outgoing (stream : RPCStream) : Prop where
  once : stream.made.Nodup
  below : ∀ id ∈ stream.made, id < stream.next
  making : ∀ call phase, stream.calling.find? call = some phase →
    call < stream.next
  unmade : ∀ call request, stream.calling.find? call = some (.checked request) →
    call ∉ stream.made
  unqueued : ∀ call request startAt,
    stream.calling.find? call = some (.numbered request startAt) →
      call ∉ stream.made
  queued : ∀ call msgid, (call, msgid) ∈ stream.issued → ∃ request : Request,
    request.msgid = msgid ∧
      .heap call request ∈ stream.consumed ++ stream.requests
  created : ∀ call request,
    .heap call request ∈ stream.consumed ++ stream.requests →
      (call, request.msgid) ∈ stream.issued ∨ request.msgid = 0

section Made

variable {stream next : RPCStream}

/-- The queue and what was taken from it hold the same requests as before. -/
structure Rearranged (stream next : RPCStream) : Prop where
  made : List.Perm next.made stream.made
  heap : ∀ id request, .heap id request ∈ next.consumed ++ next.requests ↔
    .heap id request ∈ stream.consumed ++ stream.requests

theorem Rearranged.of_perm
    (hperm : List.Perm (next.consumed ++ next.requests)
      (stream.consumed ++ stream.requests)) : Rearranged stream next where
  made := hperm.filterMap _
  heap _ _ := hperm.mem_iff

theorem Rearranged.kept (hconsumed : next.consumed = stream.consumed)
    (hrequests : next.requests = stream.requests) :
    Rearranged stream next :=
  .of_perm (by rw [hconsumed, hrequests])

/-- What is taken from the queue is what was in it. -/
theorem Rearranged.used {item : RequestItem}
    (hconsumed : next.consumed = item :: stream.consumed)
    (hrequests : stream.requests = item :: next.requests) :
    Rearranged stream next := by
  apply of_perm
  rw [hconsumed, hrequests]
  exact List.perm_middle.symm

/-- A connection attempt is no request. -/
theorem Rearranged.attempted (hconsumed : next.consumed = stream.consumed)
    (hrequests : next.requests = stream.requests ++ [.establishRequest]) :
    Rearranged stream next where
  made := by
    rw [RPCStream.made, hconsumed, hrequests, ← List.append_assoc,
      List.filterMap_append]
    exact (List.append_nil _) ▸ List.Perm.refl _
  heap id request := by
    rw [hconsumed, hrequests, ← List.append_assoc, List.mem_append,
      List.mem_singleton]
    exact or_iff_left RequestItem.noConfusion

theorem Rearranged.opened (hconsumed : next.consumed = stream.consumed)
    (hrequests : stream.requests = .establishRequest :: next.requests) :
    Rearranged stream next where
  made := by
    rw [RPCStream.made, RPCStream.made, hconsumed, hrequests,
      List.filterMap_append, List.filterMap_append]
    exact List.Perm.refl _
  heap id request := by
    rw [hconsumed, hrequests, List.mem_append, List.mem_append, List.mem_cons]
    exact or_congr Iff.rfl (or_iff_right RequestItem.noConfusion).symm

/-- A step that makes nothing keeps what is known, if the threads inside
`Call` are where they were or go on to places known to be good. -/
theorem Outgoing.of_rearranged (houtgoing : Outgoing stream)
    (hmoved : Rearranged stream next) (hissued : next.issued = stream.issued)
    (hnext : stream.next ≤ next.next)
    (hcalling : ∀ call phase, next.calling.find? call = some phase →
      stream.calling.find? call = some phase ∨
        call ∉ stream.made ∧ call < next.next) : Outgoing next := by
  have hunmade {call : CallId} {phase : Calling}
      (hcall : next.calling.find? call = some phase)
      (hold : stream.calling.find? call = some phase → call ∉ stream.made) :
      call ∉ next.made := by
    rw [hmoved.made.mem_iff]
    rcases hcalling call phase hcall with hkept | ⟨hnew, -⟩
    · exact hold hkept
    · exact hnew
  refine ⟨hmoved.made.nodup_iff.mpr houtgoing.once, ?_, ?_, ?_, ?_, ?_, ?_⟩
  · exact fun id hid =>
      (houtgoing.below id (hmoved.made.mem_iff.mp hid)).trans_le hnext
  · intro call phase hcall
    rcases hcalling call phase hcall with hkept | ⟨-, hbelow⟩
    · exact (houtgoing.making call phase hkept).trans_le hnext
    · exact hbelow
  · exact fun call request hcall =>
      hunmade hcall (houtgoing.unmade call request)
  · exact fun call request startAt hcall =>
      hunmade hcall (houtgoing.unqueued call request startAt)
  · rw [hissued]
    intro call msgid hmem
    obtain ⟨request, hmsgid, hheap⟩ := houtgoing.queued call msgid hmem
    exact ⟨request, hmsgid, (hmoved.heap call request).mpr hheap⟩
  · rw [hissued]
    exact fun call request hmem =>
      houtgoing.created call request ((hmoved.heap call request).mp hmem)

/-- A step that makes a request of its own. -/
theorem Outgoing.of_made (houtgoing : Outgoing stream) {call : CallId}
    {request : Request} (hfresh : call ∉ stream.made)
    (hbelow : call < next.next)
    (hconsumed : next.consumed = stream.consumed)
    (hrequests : next.requests = stream.requests ++ [.heap call request])
    (hissued : next.issued = stream.issued ∧ request.msgid = 0 ∨
      next.issued = (call, request.msgid) :: stream.issued)
    (hnext : stream.next ≤ next.next)
    (hcalling : ∀ other phase, next.calling.find? other = some phase →
      stream.calling.find? other = some phase ∧ other ≠ call ∨
        other < next.next ∧ (∃ msgid startAt, phase = .enqueued msgid startAt)) :
    Outgoing next := by
  have hmade : next.made = stream.made ++ [call] := by
    rw [made, made, hconsumed, hrequests, ← List.append_assoc,
      List.filterMap_append]
    rfl
  have hkept : ∀ item ∈ stream.consumed ++ stream.requests,
      item ∈ next.consumed ++ next.requests := by
    intro item hitem
    rw [hconsumed, hrequests, ← List.append_assoc]
    exact List.mem_append_left _ hitem
  refine ⟨?_, ?_, ?_, ?_, ?_, ?_, ?_⟩
  · rw [hmade, List.nodup_append]
    refine ⟨houtgoing.once, List.nodup_singleton call, ?_⟩
    rintro id hid other hother rfl
    exact hfresh (List.mem_singleton.mp hother ▸ hid)
  · rw [hmade]
    intro id hid
    rcases List.mem_append.mp hid with hold | hown
    · exact (houtgoing.below id hold).trans_le hnext
    · rwa [List.mem_singleton.mp hown]
  · intro other phase hother
    rcases hcalling other phase hother with ⟨hold, -⟩ | ⟨hlt, -⟩
    · exact (houtgoing.making other phase hold).trans_le hnext
    · exact hlt
  · intro other request' hother
    rcases hcalling other _ hother with ⟨hold, hne⟩ | ⟨-, msgid, startAt, heq⟩
    · rw [hmade, List.mem_append, List.mem_singleton]
      exact not_or.mpr ⟨houtgoing.unmade other request' hold, hne⟩
    · exact absurd heq Calling.noConfusion
  · intro other request' startAt' hother
    rcases hcalling other _ hother with ⟨hold, hne⟩ | ⟨-, msgid, startAt, heq⟩
    · rw [hmade, List.mem_append, List.mem_singleton]
      exact not_or.mpr
        ⟨houtgoing.unqueued other request' startAt' hold, hne⟩
    · exact absurd heq Calling.noConfusion
  · have hold : ∀ other msgid, (other, msgid) ∈ stream.issued →
        ∃ request : Request, request.msgid = msgid ∧
          .heap other request ∈ next.consumed ++ next.requests := by
      intro other msgid hmem
      obtain ⟨request', hmsgid, hheap⟩ := houtgoing.queued other msgid hmem
      exact ⟨request', hmsgid, hkept _ hheap⟩
    rcases hissued with ⟨hsame, -⟩ | hadded
    · rwa [hsame]
    · rw [hadded]
      intro other msgid hmem
      rcases List.mem_cons.mp hmem with hown | hrest
      · obtain ⟨rfl, rfl⟩ := Prod.mk.inj hown
        refine ⟨request, rfl, ?_⟩
        rw [hrequests, ← List.append_assoc]
        exact List.mem_append_right _ (List.mem_singleton_self _)
      · exact hold other msgid hrest
  · intro other request' hmem
    rw [hconsumed, hrequests, ← List.append_assoc, List.mem_append,
      List.mem_singleton] at hmem
    have hgrows : stream.issued ⊆ next.issued := by
      rcases hissued with ⟨hsame, -⟩ | hadded
      · exact hsame ▸ List.Subset.refl _
      · exact hadded ▸ List.subset_cons_self _ _
    rcases hmem with hold | hown
    · exact (houtgoing.created other request' hold).imp_left (@hgrows _)
    · obtain ⟨rfl, rfl⟩ := RequestItem.heap.inj hown
      rcases hissued with ⟨-, hzero⟩ | hadded
      · exact Or.inr hzero
      · exact Or.inl (hadded ▸ List.mem_cons_self)

theorem Outgoing.of_passage {items : List RequestItem}
    (houtgoing : Outgoing stream) (hpassage : Passage stream next items) :
    Outgoing next := by
  have hquiet (hcalls : CallsKept stream next)
      (hmoved : Rearranged stream next) : Outgoing next :=
    houtgoing.of_rearranged hmoved hcalls.issued hcalls.next.ge
      fun call phase hcall => Or.inl (hcalls.calling ▸ hcall)
  cases hpassage with
  | kept hcalls hconsumed hrequests =>
      exact hquiet hcalls (.kept hconsumed hrequests)
  | opened hcalls hconsumed hrequests =>
      exact hquiet hcalls (.opened hconsumed hrequests)
  | used item hcalls hconsumed hrequests =>
      exact hquiet hcalls (.used hconsumed hrequests)
  | attempted hcalls hconsumed hrequests =>
      exact hquiet hcalls (.attempted hconsumed hrequests)
  | begun hnext hcalling hissued hconsumed hrequests =>
      refine houtgoing.of_rearranged (.kept hconsumed hrequests) hissued
        (hnext ▸ Nat.le_succ _) fun call phase hcall => ?_
      rcases hcalling with hsame | ⟨request, hbegun⟩
      · exact Or.inl (hsame ▸ hcall)
      · rw [hbegun, OrdMap.find?_assign_eq_some] at hcall
        rcases hcall with ⟨rfl, -⟩ | ⟨-, hold⟩
        · exact Or.inr ⟨fun hmem =>
            absurd (houtgoing.below _ hmem) (Nat.lt_irrefl _),
            hnext ▸ Nat.lt_succ_self _⟩
        · exact Or.inl hold
  | numbered call request request' now hchecked hnext hcalling hissued
      hconsumed hrequests =>
      refine houtgoing.of_rearranged (.kept hconsumed hrequests) hissued
        hnext.ge fun other phase hother => ?_
      rw [hcalling, OrdMap.find?_assign_eq_some] at hother
      rcases hother with ⟨rfl, -⟩ | ⟨-, hold⟩
      · exact Or.inr ⟨houtgoing.unmade _ request hchecked,
          hnext ▸ houtgoing.making _ _ hchecked⟩
      · exact Or.inl hold
  | enqueued call request startAt hnumbered hnext hcalling hissued hconsumed
      hrequests =>
      have hbelow := houtgoing.making _ _ hnumbered
      refine houtgoing.of_made
        (houtgoing.unqueued call request startAt hnumbered) (hnext ▸ hbelow)
        hconsumed hrequests (Or.inr hissued) hnext.ge
        fun other phase hother => ?_
      rw [hcalling, OrdMap.find?_assign_eq_some] at hother
      rcases hother with ⟨rfl, rfl⟩ | ⟨hne, hold⟩
      · exact Or.inr ⟨hnext ▸ hbelow, _, _, rfl⟩
      · exact Or.inl ⟨hold, hne⟩
  | inserted call hnext hcalling hissued hconsumed hrequests =>
      refine houtgoing.of_rearranged (.kept hconsumed hrequests) hissued
        hnext.ge fun other phase hother => Or.inl ?_
      rw [hcalling, OrdMap.find?_erase_eq_some] at hother
      exact hother.2
  | made request hnext hcalling hissued hconsumed hrequests =>
      refine houtgoing.of_made (fun hmem : stream.next ∈ stream.made =>
        absurd (houtgoing.below _ hmem) (Nat.lt_irrefl _))
        (hnext ▸ Nat.lt_succ_self _) hconsumed hrequests hissued
        (hnext ▸ Nat.le_succ _) fun other phase hother => ?_
      rw [hcalling] at hother
      exact Or.inl ⟨hother, (houtgoing.making other phase hother).ne⟩

/-- A step keeps the objects and adds those it puts into the queue. -/
theorem heaps_of_passage {items : List RequestItem}
    (hpassage : Passage stream next items) :
    List.Perm next.heaps (stream.heaps ++ items) := by
  have hquiet (hperm : List.Perm next.heaps stream.heaps) :
      List.Perm next.heaps (stream.heaps ++ []) := by
    rwa [List.append_nil]
  have hkept (hconsumed : next.consumed = stream.consumed)
      (hrequests : next.requests = stream.requests) :
      List.Perm next.heaps (stream.heaps ++ []) :=
    hquiet (by rw [heaps, heaps, hconsumed, hrequests])
  have hadded {item : RequestItem}
      (hconsumed : next.consumed = stream.consumed)
      (hrequests : next.requests = stream.requests ++ [item])
      (hheap : item.maker.isSome = true) :
      List.Perm next.heaps (stream.heaps ++ [item]) := by
    rw [heaps, heaps, hconsumed, hrequests, ← List.append_assoc,
      List.filter_append, List.filter_singleton, hheap]
    exact List.Perm.refl _
  cases hpassage with
  | kept hcalls hconsumed hrequests => exact hkept hconsumed hrequests
  | opened hcalls hconsumed hrequests =>
      refine hquiet ?_
      rw [heaps, heaps, hconsumed, hrequests, List.filter_append,
        List.filter_append, List.filter_cons_of_neg Bool.false_ne_true]
  | used item hcalls hconsumed hrequests =>
      refine hquiet (List.Perm.filter _ ?_)
      rw [hconsumed, hrequests]
      exact List.perm_middle.symm
  | attempted hcalls hconsumed hrequests =>
      refine hquiet ?_
      rw [heaps, heaps, hconsumed, hrequests, ← List.append_assoc,
        List.filter_append]
      exact (List.append_nil _) ▸ List.Perm.refl _
  | begun hnext hcalling hissued hconsumed hrequests =>
      exact hkept hconsumed hrequests
  | numbered call request request' now hchecked hnext hcalling hissued
      hconsumed hrequests => exact hkept hconsumed hrequests
  | enqueued call request startAt hnumbered hnext hcalling hissued hconsumed
      hrequests => exact hadded hconsumed hrequests rfl
  | inserted call hnext hcalling hissued hconsumed hrequests =>
      exact hkept hconsumed hrequests
  | made request hnext hcalling hissued hconsumed hrequests =>
      exact hadded hconsumed hrequests rfl

theorem outgoing_new : Outgoing new where
  once := List.nodup_nil
  below _ hid := absurd hid List.not_mem_nil
  making _ _ hcall := absurd hcall (by simp [new, OrdMap.find?_eq_none.mpr])
  unmade _ _ _ := List.not_mem_nil
  unqueued _ _ _ _ := List.not_mem_nil
  queued _ _ hmem := absurd hmem List.not_mem_nil
  created _ _ hmem := absurd hmem List.not_mem_nil

end Made

theorem outgoing_of_exec {actions : List Action} {final : RPCStream}
    (hrun : exec step new actions = some final) : Outgoing final :=
  exec_invariant (fun _ _ _ houtgoing hstep =>
    Outgoing.of_passage houtgoing (passage_of_did (did_of_step hstep)))
    outgoing_new hrun

/-- The run lemma: what was put into the queue is there or was taken from it. -/
theorem heaps_of_exec {actions : List Action} {stream final : RPCStream}
    (hrun : exec step stream actions = some final) :
    List.Perm final.heaps
      (stream.heaps ++ observed step enqueued stream actions) := by
  induction actions generalizing stream with
  | nil =>
      obtain rfl := Option.some.inj hrun
      rw [observed, List.append_nil]
  | cons action rest ih =>
      obtain ⟨next, hstep, hrest⟩ := exec_cons_eq_some.mp hrun
      have hhere := heaps_of_passage (passage_of_did (did_of_step hstep))
      rw [observed_cons_of_step hstep, ← List.append_assoc]
      exact (ih hrest).trans (hhere.append_right _)

/-- Whatever the threads do, what is in `requests_` and what was taken from it
are together the objects that `Call`, `StartWrite` and `SendShutdownRequest`
have put there, each of them once, and the request of a call is among them with
the msgid it was enqueued under. -/
theorem requests_once (actions : List Action) (final : RPCStream)
    (hrun : exec step new actions = some final) :
    List.Perm final.heaps (observed step enqueued new actions) ∧
      final.made.Nodup ∧
      ∀ call msgid, (call, msgid) ∈ final.issued → ∃ request : Request,
        request.msgid = msgid ∧
          .heap call request ∈ final.consumed ++ final.requests :=
  ⟨heaps_of_exec hrun, (outgoing_of_exec hrun).once,
    (outgoing_of_exec hrun).queued⟩

private def pollInput : UpdateInput where
  ready := true
  onOpenStream := true
  onCloseStream := 0
  addPayload := []
  now := 1

private def noMessage : Reply :=
  { type := 0, msgid := 0, error := none, payload := [] }

private def bareRequest : Request :=
  { type := 1, msgid := 0, kind := .normal, payload := [] }

/-- The client connects, `StartWrite`'s request is written, a call's is put
into the queue, and `Stop` puts its own behind it. -/
private def writtenRun : List Action :=
  List.replicate 3 (.update pollInput) ++
    [.ioTimeout, .ioEvent 0 true noMessage] ++
    List.replicate 7 (.update pollInput) ++
    [.ioTimeout, .callBegin bareRequest, .callNumber 1 1, .callEnqueue 1, .stop]

theorem requests_once_writtenRun :
    ∃ final, exec step new writtenRun = some final ∧ final.made.Nodup ∧
      List.Perm final.heaps
        [.heap 0 { type := 0, msgid := 1, kind := .connect, payload := [] },
          .heap 1 { bareRequest with msgid := 2 },
          .heap 2 shutdownRequest] := by
  obtain ⟨final, hrun⟩ := Option.isSome_iff_exists.mp
    (by decide +kernel : (exec step new writtenRun).isSome = true)
  obtain ⟨hheaps, honce, -⟩ := requests_once writtenRun final hrun
  have hput : observed step enqueued new writtenRun =
      [.heap 0 { type := 0, msgid := 1, kind := .connect, payload := [] },
        .heap 1 { bareRequest with msgid := 2 }, .heap 2 shutdownRequest] := by
    decide +kernel
  exact ⟨final, hrun, honce, hput ▸ hheaps⟩

end RPCStream

end GrpcMtk
