import GrpcMtk.Client.Opening

/-!
# The sentinel in the request queue

`ESTABLISH_REQUEST` shares `requests_` with the requests on the heap.  The
TIMEOUT branch of `Run` compares what it pops with it; `DrainRequestQueue`, on
either thread, and the write branch of `HandleEvent` do not.  They are given
heap objects only in every run that leaves a queued connection attempt to the
TIMEOUT branch: while it is queued no drain begins and no write succeeds.
-/

namespace GrpcMtk

open GrpcMtk.Proto
open GrpcMtk.Runs

namespace RPCStream

/-- A heap object that `Call` or `SendShutdownRequest` has put into
`requests_`. -/
def Created (stream : RPCStream) : RequestItem → Prop
  | .establishRequest => False
  | .heap id request =>
      (id, request.msgid) ∈ stream.issued ∨
        id < stream.next ∧ request = shutdownRequest

instance (stream : RPCStream) (item : RequestItem) :
    Decidable (stream.Created item) := by
  unfold Created
  split <;> infer_instance

/-- Everything that was used as a heap object is one. -/
def SentinelSafe (stream : RPCStream) : Prop :=
  ∀ item ∈ stream.consumed, stream.Created item

instance (stream : RPCStream) : Decidable stream.SentinelSafe :=
  inferInstanceAs (Decidable (∀ _ ∈ _, _))

/-- The step begins to pop `requests_` without a look at what it gets: the
polling thread enters `DrainQueue`, a write has completed, or a read has failed
outside `Stop`. -/
def BeginsPopping (stream : RPCStream) : Action → Prop
  | .update input =>
      stream.updating = .start ∧ input.ready = false ∨
        stream.updating = .processReply ∧
          (stream.replys.head? = some .disconnectEvent ∨
            stream.replys.head? = some .establishedEvent)
  | .ioEvent index ok _ =>
      ∃ tag ∈ stream.iothr.cq[index]?,
        IOThread.isWriteOperation tag = true ∧ ok = true ∨
          IOThread.isReadOperation tag = true ∧ ok = false ∧
            stream.iothr.sendingShutdown = false
  | _ => False

instance (stream : RPCStream) :
    (action : Action) → Decidable (stream.BeginsPopping action)
  | .update _ => inferInstanceAs (Decidable (_ ∨ _))
  | .ioEvent _ _ _ => inferInstanceAs (Decidable (∃ _ ∈ _, _))
  | .release | .releaseEnqueue | .callBegin _ | .callNumber _ _
  | .callEnqueue _ | .callInsert _ | .stop | .stopTimeout | .ioTimeout
  | .ioShutdown | .ioDrain => isFalse id

/-- `Update` puts ESTABLISH_REQUEST into `requests_`. -/
def MakesAttempt (stream : RPCStream) : Action → Prop
  | .update input =>
      stream.updating = .switch ∧ stream.status = .disconnect ∧
        input.ready = true ∧ stream.reconnectWhen ≤ input.now
  | _ => False

instance (stream : RPCStream) :
    (action : Action) → Decidable (stream.MakesAttempt action)
  | .update _ => inferInstanceAs (Decidable (_ ∧ _))
  | .ioEvent _ _ _ | .release | .releaseEnqueue | .callBegin _
  | .callNumber _ _ | .callEnqueue _ | .callInsert _ | .stop | .stopTimeout
  | .ioTimeout | .ioShutdown | .ioDrain => isFalse id

/-- The step leaves connection attempts to the TIMEOUT branch. -/
structure SparesAttempt (stream : RPCStream) (action : Action) : Prop where
  popping : .establishRequest ∈ stream.requests →
    ¬stream.BeginsPopping action
  making : stream.MakesAttempt action → stream.iothr.running = .run

instance (stream : RPCStream) (action : Action) :
    Decidable (stream.SparesAttempt action) :=
  decidable_of_iff
    ((.establishRequest ∈ stream.requests → ¬stream.BeginsPopping action) ∧
      (stream.MakesAttempt action → stream.iothr.running = .run))
    ⟨fun h => ⟨h.1, h.2⟩, fun h => ⟨h.1, h.2⟩⟩

/-- From here on a run can come to where the sentinel was used as a heap
object. -/
def CanMisuse (stream : RPCStream) : Prop :=
  ∃ after final, exec step stream after = some final ∧ ¬final.SentinelSafe

/-- A thread is in `DrainRequestQueue`, or on its way there. -/
def Draining (stream : RPCStream) : Prop :=
  (∃ reason, stream.updating = .drainReplys reason ∨
    stream.updating = .drainRequests reason) ∨
  stream.iothr.running ≠ .run

/-! ## What happens to the queue -/

/-- Nothing that was created is forgotten. -/
structure Grows (stream next : RPCStream) : Prop where
  issued : stream.issued ⊆ next.issued
  next : stream.next ≤ next.next

theorem Grows.created {stream next : RPCStream} (hgrows : Grows stream next)
    {item : RequestItem} (hcreated : stream.Created item) :
    next.Created item := by
  cases item with
  | establishRequest => exact hcreated
  | heap id request =>
      rcases hcreated with hissued | ⟨hid, hrequest⟩
      · exact Or.inl (hgrows.issued hissued)
      · exact Or.inr ⟨Nat.lt_of_lt_of_le hid hgrows.next, hrequest⟩

/-- Nothing is used, and what is new in the queue is the attempt the action
makes, or created. -/
structure Queues (stream : RPCStream) (action : Action) (next : RPCStream) :
    Prop where
  grows : Grows stream next
  consumed : next.consumed = stream.consumed
  requests : ∀ item ∈ next.requests,
    item ∈ stream.requests ∨
      item = .establishRequest ∧ stream.MakesAttempt action ∨
      next.Created item

/-- The head of the queue is used as a heap object. -/
structure Uses (stream next : RPCStream) (item : RequestItem) : Prop where
  grows : Grows stream next
  consumed : next.consumed = item :: stream.consumed
  requests : stream.requests = item :: next.requests

theorem Queues.of_eq {stream next : RPCStream} {action : Action}
    (hrequests : next.requests = stream.requests)
    (hconsumed : next.consumed = stream.consumed)
    (hissued : next.issued = stream.issued)
    (hnext : stream.next ≤ next.next) : Queues stream action next where
  grows := ⟨hissued ▸ List.Subset.refl _, hnext⟩
  consumed := hconsumed
  requests _ hitem := Or.inl (hrequests ▸ hitem)

/-- One item is put at the end of the queue. -/
theorem Queues.of_enqueue {stream next : RPCStream} {action : Action}
    {item : RequestItem}
    (hrequests : next.requests = stream.requests ++ [item])
    (hconsumed : next.consumed = stream.consumed)
    (hissued : stream.issued ⊆ next.issued)
    (hnext : stream.next ≤ next.next)
    (hitem : item = .establishRequest ∧ stream.MakesAttempt action ∨
      next.Created item) :
    Queues stream action next where
  grows := ⟨hissued, hnext⟩
  consumed := hconsumed
  requests other hother := by
    rw [hrequests, List.mem_append, List.mem_singleton] at hother
    rcases hother with hold | rfl
    · exact Or.inl hold
    · exact Or.inr hitem

theorem uses_deleteRequest {stream : RPCStream} {item : RequestItem}
    {rest : List RequestItem} (hrequests : stream.requests = item :: rest) :
    Uses stream ({ stream with requests := rest }.deleteRequest item) item := by
  cases item <;>
    exact ⟨⟨List.Subset.refl _, Nat.le_refl _⟩, rfl, hrequests⟩

theorem uses_writeRequest {stream : RPCStream} {item : RequestItem}
    {rest : List RequestItem} (hrequests : stream.requests = item :: rest)
    (change : IOThread → IOThread) :
    Uses stream (({ stream with requests := rest }.writeRequest
      item).onIOThread change) item := by
  cases item with
  | establishRequest =>
      exact ⟨⟨List.Subset.refl _, Nat.le_refl _⟩, rfl, hrequests⟩
  | heap id request =>
      unfold writeRequest
      dsimp only
      split <;>
        exact ⟨⟨List.Subset.refl _, Nat.le_refl _⟩, rfl, hrequests⟩

/-- A step of `Update` uses a request when it drains one. -/
theorem updated_requests {stream next : RPCStream} {input : UpdateInput}
    (hupdated : Updated stream input next) :
    Queues stream (.update input) next ∨
      stream.Draining ∧ ∃ item, Uses stream next item := by
  cases hupdated with
  | move => exact .inl (Queues.of_eq rfl rfl rfl (Nat.le_refl _))
  | @processReply reply rest hupdating hreplys =>
      obtain ⟨reqmap, invoked, status, replys, notified, heq⟩ :=
        processReply_eq { stream with replys := rest } reply input.onOpenStream
      rw [heq]
      exact .inl (Queues.of_eq rfl rfl rfl (Nat.le_refl _))
  | @drainRequest reason item rest hupdating hrequests =>
      exact .inr ⟨.inl ⟨reason, .inr hupdating⟩, item,
        uses_deleteRequest hrequests⟩
  | @drainReqmap reason hupdating =>
      obtain ⟨restarting, reconnectWhen, reconnectAttempt, status, heq⟩ :=
        settle_eq { stream with updating := .switch }.clearReqmap reason input
      rw [heq]
      exact .inl (Queues.of_eq rfl rfl rfl (Nat.le_refl _))
  | switch hupdating =>
      left
      unfold switchStatus
      split
      case h_1 hstatus =>
        split
        · exact Queues.of_eq rfl rfl rfl (Nat.le_refl _)
        case isFalse hattempt =>
          rw [not_or, Bool.not_eq_false, Nat.not_lt] at hattempt
          exact Queues.of_enqueue rfl rfl (List.Subset.refl _) (Nat.le_refl _)
            (.inl ⟨rfl, hupdating, hstatus, hattempt⟩)
      case h_3 =>
        exact Queues.of_enqueue rfl rfl (List.subset_cons_self _ _)
          (Nat.le_succ _) (.inr (.inl List.mem_cons_self))
      all_goals exact Queues.of_eq rfl rfl rfl (Nat.le_refl _)
  | @processTimeout now hupdating =>
      obtain ⟨status, replys, heq⟩ := processTimeout_eq
        { stream with updating := .start } now input.onOpenStream
      rw [heq]
      exact .inl (Queues.of_eq rfl rfl rfl (Nat.le_refl _))

/-- The TIMEOUT branch uses what it pops only if it is no attempt. -/
theorem ioTimeout_requests (stream : RPCStream) :
    Queues stream .ioTimeout stream.ioTimeout ∨
      ∃ item, Uses stream stream.ioTimeout item ∧ item ≠ .establishRequest := by
  unfold ioTimeout
  split
  · exact Or.inl (Queues.of_eq rfl rfl rfl (Nat.le_refl _))
  · split
    · exact Or.inl (Queues.of_eq rfl rfl rfl (Nat.le_refl _))
    case h_2 rest hrequests =>
      refine Or.inl ⟨⟨List.Subset.refl _, Nat.le_refl _⟩, rfl, ?_⟩
      intro item hitem
      rw [hrequests]
      exact Or.inl (List.mem_cons_of_mem _ hitem)
    case h_3 id request rest hrequests =>
      exact Or.inr ⟨.heap id request, uses_writeRequest hrequests _,
        RequestItem.noConfusion⟩

/-- A completion uses the head of the queue if it is a successful write. -/
theorem takeEvent_requests {stream : RPCStream} {index tag : ℕ}
    (htag : stream.iothr.cq[index]? = some tag) (ok : Bool) (reply : Reply) :
    Queues stream (.ioEvent index ok reply)
        (stream.takeEvent index ok tag reply) ∨
      stream.BeginsPopping (.ioEvent index ok reply) ∧
        ∃ item, Uses stream (stream.takeEvent index ok tag reply) item := by
  unfold takeEvent handleEvent
  split
  case isTrue hwrite =>
    cases ok with
    | false => exact .inl (Queues.of_eq rfl rfl rfl (Nat.le_refl _))
    | true =>
        unfold writeDone
        rw [if_pos rfl]
        split
        · exact .inl (Queues.of_eq rfl rfl rfl (Nat.le_refl _))
        case h_2 item rest hrequests =>
          obtain ⟨⟨hissued, hnext⟩, hconsumed, hpopped⟩ :=
            @uses_writeRequest (stream.onIOThread fun thread =>
              { thread with cq := thread.cq.eraseIdx index })
              item rest hrequests id
          exact .inr ⟨⟨tag, htag, .inl ⟨hwrite, rfl⟩⟩, item,
            ⟨hissued, hnext⟩, hconsumed, hpopped⟩
  case isFalse hwrite =>
    left
    split
    · unfold readDone
      dsimp only
      split
      · exact Queues.of_eq rfl rfl rfl (Nat.le_refl _)
      · split <;> exact Queues.of_eq rfl rfl rfl (Nat.le_refl _)
    · split <;> exact Queues.of_eq rfl rfl rfl (Nat.le_refl _)

/-- Every step uses nothing from the queue or its head, and a head that is an
attempt only in a drain or at a successful write. -/
theorem requests_of_step {stream next : RPCStream} {action : Action}
    (hstep : stream.step action = some next) :
    Queues stream action next ∨
      ∃ item, Uses stream next item ∧
        (item = .establishRequest →
          stream.Draining ∨ stream.BeginsPopping action) := by
  have hact := (step_eq_some.mp hstep).2
  cases did_of_act hact with
  | callBegin request =>
      left
      rcases callBegin_eq stream request with ⟨-, heq⟩ | heq
      all_goals
        rw [heq]
        exact Queues.of_eq rfl rfl rfl (Nat.le_succ _)
  | @callEnqueue call request startAt hcalling =>
      exact .inl (Queues.of_enqueue rfl rfl (List.subset_cons_self _ _)
        (Nat.le_refl _) (.inr (.inl List.mem_cons_self)))
  | update hupdated =>
      rcases updated_requests hupdated with hqueues | ⟨hdrain, item, huses⟩
      · exact .inl hqueues
      · exact .inr ⟨item, huses, fun _ => .inl hdrain⟩
  | stop =>
      left
      obtain ⟨iothr, -, -, -, heq | heq⟩ := stop_eq stream
      · rw [heq]
        exact Queues.of_eq rfl rfl rfl (Nat.le_refl _)
      · rw [heq]
        exact Queues.of_enqueue rfl rfl (List.Subset.refl _) (Nat.le_succ _)
          (.inr (.inr ⟨Nat.lt_succ_self _, rfl⟩))
  | ioTimeout =>
      rcases ioTimeout_requests stream with hqueues | ⟨item, huses, hitem⟩
      · exact .inl hqueues
      · exact .inr ⟨item, huses, fun hattempt => absurd hattempt hitem⟩
  | @ioEvent index tag ok reply htag =>
      rcases takeEvent_requests htag ok reply with hqueues |
        ⟨hpopping, item, huses⟩
      · exact .inl hqueues
      · exact .inr ⟨item, huses, fun _ => .inr hpopping⟩
  | ioDrain seq =>
      have hdraining : stream.iothr.running ≠ .run := by
        intro hrunning
        rw [act, hrunning] at hact
        contradiction
      unfold ioDrain
      split
      case h_1 item rest hrequests =>
        exact .inr ⟨item, uses_deleteRequest hrequests,
          fun _ => .inl (.inr hdraining)⟩
      case h_2 =>
        dsimp only
        split <;> exact .inl (Queues.of_eq rfl rfl rfl (Nat.le_refl _))
  | _ => exact .inl (Queues.of_eq rfl rfl rfl (Nat.le_refl _))

/-! ## When a thread drains -/

section Draining

variable {stream next : RPCStream} {action : Action}

/-- The other threads leave the polling thread where it is, and the I/O thread
where it is unless a read has failed. -/
theorem Draining.of_kept (hdraining : next.Draining)
    (hupdating : next.updating = stream.updating)
    (hrunning : next.iothr.running = stream.iothr.running) :
    stream.Draining := by
  rwa [Draining, hupdating, hrunning] at hdraining

theorem draining_of_update {input : UpdateInput}
    (hupdate : stream.update input = some next)
    (hdraining : ∃ reason, next.updating = .drainReplys reason ∨
      next.updating = .drainRequests reason) :
    stream.Draining ∨ stream.BeginsPopping (.update input) := by
  unfold update at hupdate
  split at hupdate
  case h_1 hupdating =>
    split at hupdate <;> obtain rfl := Option.some.inj hupdate
    · simp at hdraining
    case isFalse hready =>
      exact .inr (.inl ⟨hupdating, Bool.eq_false_iff.mpr hready⟩)
  case h_2 hupdating =>
    split at hupdate
    case h_1 =>
      obtain rfl := Option.some.inj hupdate
      simp at hdraining
    case h_2 rest hreplys =>
      exact .inr (.inr ⟨hupdating, .inl (hreplys ▸ rfl)⟩)
    case h_3 rest hreplys =>
      exact .inr (.inr ⟨hupdating, .inr (hreplys ▸ rfl)⟩)
    case h_4 reply rest hreplys =>
      obtain rfl := Option.some.inj hupdate
      obtain ⟨reqmap, invoked, status, replys, notified, heq⟩ :=
        processReply_eq { stream with replys := rest } reply input.onOpenStream
      rw [heq] at hdraining
      simp [hupdating] at hdraining
  case h_3 reason hupdating => exact .inl (.inl ⟨reason, .inl hupdating⟩)
  case h_4 reason hupdating => exact .inl (.inl ⟨reason, .inr hupdating⟩)
  case h_5 reason hupdating =>
    obtain rfl := Option.some.inj hupdate
    obtain ⟨restarting, reconnectWhen, reconnectAttempt, status, heq⟩ :=
      settle_eq { stream with updating := .switch }.clearReqmap reason input
    rw [heq] at hdraining
    simp [clearReqmap] at hdraining
  case h_6 hupdating =>
    obtain rfl := Option.some.inj hupdate
    unfold switchStatus at hdraining
    split at hdraining
    · split at hdraining <;>
        simp [onIOThread, enqueueRequest] at hdraining
    all_goals simp [startWrite, enqueueRequest] at hdraining
  case h_7 now hupdating =>
    obtain rfl := Option.some.inj hupdate
    obtain ⟨status, replys, heq⟩ := processTimeout_eq
      { stream with updating := .start } now input.onOpenStream
    rw [heq] at hdraining
    simp at hdraining
  case h_8 => contradiction

/-- Only a read that failed outside `Stop` sends the I/O thread into
`DrainRequestQueue`. -/
theorem running_takeEvent {index tag : ℕ} {ok : Bool} {reply : Reply}
    (htag : stream.iothr.cq[index]? = some tag) :
    (stream.takeEvent index ok tag reply).iothr.running =
        stream.iothr.running ∨
      stream.BeginsPopping (.ioEvent index ok reply) := by
  unfold takeEvent handleEvent
  split
  · left
    unfold writeDone
    split
    · split
      · rfl
      · exact running_writeRequest _ _
    · rfl
  · split
    case isTrue hread =>
      unfold readDone
      dsimp only
      split
      · exact .inl rfl
      case isFalse hfailed =>
        split
        · exact .inl rfl
        case isFalse hsending =>
          exact .inr ⟨tag, htag, .inr ⟨hread, Bool.eq_false_iff.mpr hfailed,
            Bool.eq_false_iff.mpr hsending⟩⟩
    · split <;> exact .inl rfl

theorem draining_of_step (hstep : stream.step action = some next)
    (hdraining : next.Draining) :
    stream.Draining ∨ stream.BeginsPopping action := by
  have hact := (step_eq_some.mp hstep).2
  cases did_of_act hact with
  | update hupdated =>
      rcases hdraining with hupdating | hrunning
      · exact draining_of_update hact hupdating
      · obtain ⟨joinable, -, hiothr⟩ := iothr_of_updated hupdated
        rw [hiothr] at hrunning
        exact .inl (.inr hrunning)
  | stop =>
      unfold stop at hdraining
      dsimp only at hdraining
      left
      right
      split at hdraining
      · split at hdraining <;> simpa [Draining, onIOThread,
          sendShutdownRequest, enqueueRequest] using hdraining
      · simpa [Draining] using hdraining
  | callBegin request =>
      obtain ⟨-, heq⟩ | heq := callBegin_eq stream request
      all_goals
        rw [heq] at hdraining
        exact .inl hdraining
  | ioTimeout =>
      refine .inl (hdraining.of_kept ?_ (running_ioTimeout stream))
      obtain ⟨requests, iothr, consumed, crashed, heq⟩ := ioTimeout_eq stream
      rw [heq]
  | @ioEvent index tag ok reply htag =>
      rcases @running_takeEvent stream index tag ok reply htag with
        hrunning | hpopping
      · obtain ⟨replys, requests, iothr, consumed, crashed, heq⟩ :=
          takeEvent_eq stream index ok tag reply
        exact .inl (hdraining.of_kept (heq ▸ rfl) hrunning)
      · exact .inr hpopping
  | ioDrain seq =>
      left
      right
      intro hrunning
      rw [act, hrunning] at hact
      contradiction
  | _ => exact .inl hdraining

end Draining

/-! ## Runs -/

/-- Everything used is a heap object, so is everything queued that is no
attempt, and no thread drains while an attempt is queued. -/
structure Sound (stream : RPCStream) : Prop where
  consumed : stream.SentinelSafe
  requests : ∀ item ∈ stream.requests,
    item = .establishRequest ∨ stream.Created item
  draining : .establishRequest ∈ stream.requests → ¬stream.Draining

section Sound

variable {stream next : RPCStream} {action : Action}

/-- An attempt in the queue was there, or this step makes it where no thread
drains. -/
theorem Sound.draining_step (hsound : Sound stream)
    (hstep : stream.step action = some next)
    (hspares : stream.SparesAttempt action)
    (hmem : .establishRequest ∈ stream.requests ∨
      stream.MakesAttempt action) : ¬next.Draining := by
  intro hnext
  have hbefore := draining_of_step hstep hnext
  rcases hmem with hold | hmakes
  · exact hbefore.elim (hsound.draining hold) (hspares.popping hold)
  · have hrunning := hspares.making hmakes
    cases action with
    | update input =>
        obtain ⟨hupdating, -⟩ := hmakes
        simp [Draining, BeginsPopping, hupdating, hrunning] at hbefore
    | _ => exact hmakes.elim

theorem Sound.step (hsound : Sound stream)
    (hstep : stream.step action = some next)
    (hspares : stream.SparesAttempt action) : Sound next := by
  rcases requests_of_step hstep with hqueues | ⟨item, huses, hitem⟩
  · constructor
    · intro item hmem
      rw [hqueues.consumed] at hmem
      exact hqueues.grows.created (hsound.consumed item hmem)
    · intro item hmem
      rcases hqueues.requests item hmem with hold | ⟨hattempt, -⟩ | hcreated
      · exact (hsound.requests item hold).imp id hqueues.grows.created
      · exact .inl hattempt
      · exact .inr hcreated
    · intro hmem
      apply hsound.draining_step hstep hspares
      rcases hqueues.requests _ hmem with hold | ⟨-, hmakes⟩ | hcreated
      · exact .inl hold
      · exact .inr hmakes
      · exact hcreated.elim
  · have hrequests := hsound.requests
    rw [huses.requests] at hrequests
    have hmem : ∀ other, other ∈ next.requests → other ∈ stream.requests := by
      intro other hother
      rw [huses.requests]
      exact List.mem_cons_of_mem _ hother
    constructor
    · intro other hother
      rw [huses.consumed] at hother
      rcases List.mem_cons.mp hother with rfl | hold
      · rcases hrequests other List.mem_cons_self with rfl | hcreated
        · have hqueued : .establishRequest ∈ stream.requests := by
            rw [huses.requests]
            exact List.mem_cons_self
          exact ((hitem rfl).elim (hsound.draining hqueued)
            (hspares.popping hqueued)).elim
        · exact huses.grows.created hcreated
      · exact huses.grows.created (hsound.consumed other hold)
    · intro other hother
      exact (hrequests other (List.mem_cons_of_mem _ hother)).imp id
        huses.grows.created
    · intro hother
      exact hsound.draining_step hstep hspares (.inl (hmem _ hother))

theorem sound_new : Sound new where
  consumed _ hitem := absurd hitem List.not_mem_nil
  requests _ hitem := absurd hitem List.not_mem_nil
  draining hitem := absurd hitem List.not_mem_nil

end Sound

/-! ## Where an attempt that is not spared ends -/

section CanMisuse

variable {stream next : RPCStream}

theorem canMisuse_of_consumed
    (hconsumed : .establishRequest ∈ stream.consumed) : stream.CanMisuse :=
  ⟨[], stream, rfl, fun hsafe => hsafe _ hconsumed⟩

theorem CanMisuse.of_step {action : Action}
    (hstep : stream.step action = some next) (hmisuse : next.CanMisuse) :
    stream.CanMisuse := by
  obtain ⟨after, final, hrun, hunsafe⟩ := hmisuse
  exact ⟨action :: after, final, exec_cons_eq_some.mpr ⟨next, hstep, hrun⟩,
    hunsafe⟩

private def anyInput : UpdateInput where
  ready := false
  onOpenStream := false
  onCloseStream := 0
  addPayload := []
  now := 0

private def noAnswer : Reply :=
  { type := 0, msgid := 0, error := none, payload := [] }

/-- A thread that deletes what it pops comes to the attempt. -/
theorem canMisuse_of_drains {action : Action} (drains : RPCStream → Prop)
    (hpops : ∀ stream item rest, drains stream →
      stream.requests = item :: rest → stream.step action =
        some ({ stream with requests := rest }.deleteRequest item))
    (hkept : ∀ (stream : RPCStream) call request rest, drains stream →
      drains ({ stream with requests := rest }.deleteRequest
        (.heap call request)))
    (hdrains : drains stream) (hmem : .establishRequest ∈ stream.requests) :
    stream.CanMisuse := by
  induction hrequests : stream.requests generalizing stream with
  | nil =>
      rw [hrequests] at hmem
      exact absurd hmem List.not_mem_nil
  | cons item rest ih =>
      refine .of_step (hpops stream item rest hdrains hrequests) ?_
      cases item with
      | establishRequest => exact canMisuse_of_consumed List.mem_cons_self
      | heap call request =>
          rw [hrequests] at hmem
          exact ih (hkept stream call request rest hdrains)
            ((List.mem_cons.mp hmem).resolve_left RequestItem.noConfusion) rfl

/-- The `DrainRequestQueue` of the polling thread. -/
theorem canMisuse_drainRequests {reason : DrainReason}
    (hcrashed : stream.crashed = false)
    (hupdating : stream.updating = .drainRequests reason)
    (hmem : .establishRequest ∈ stream.requests) : stream.CanMisuse := by
  refine @canMisuse_of_drains stream (.update anyInput)
    (fun stream => stream.crashed = false ∧
      stream.updating = .drainRequests reason)
    ?_ (fun _ _ _ _ => id) ⟨hcrashed, hupdating⟩ hmem
  rintro stream item rest ⟨hcrashed, hupdating⟩ hrequests
  rw [step_eq_some, act, update, hupdating]
  dsimp only
  rw [hrequests]
  exact ⟨hcrashed, rfl⟩

/-- `DrainQueue` comes to its `DrainRequestQueue`. -/
theorem canMisuse_drainReplys {reason : DrainReason}
    (hcrashed : stream.crashed = false)
    (hupdating : stream.updating = .drainReplys reason)
    (hmem : .establishRequest ∈ stream.requests) : stream.CanMisuse := by
  induction hreplys : stream.replys generalizing stream with
  | nil =>
      have hstep : stream.step (.update anyInput) =
          some { stream with updating := .drainRequests reason } := by
        rw [step_eq_some, act, update, hupdating]
        dsimp only
        rw [hreplys]
        exact ⟨hcrashed, rfl⟩
      exact .of_step hstep
        (@canMisuse_drainRequests { stream with
          updating := .drainRequests reason } reason hcrashed rfl hmem)
  | cons item rest ih =>
      have hstep : stream.step (.update anyInput) =
          some { stream with replys := rest } := by
        rw [step_eq_some, act, update, hupdating]
        dsimp only
        rw [hreplys]
        exact ⟨hcrashed, rfl⟩
      exact .of_step hstep (ih hcrashed hupdating hmem rfl)

/-- The `DrainRequestQueue` of the I/O thread. -/
theorem canMisuse_ioDrain {seq : ℕ} (hcrashed : stream.crashed = false)
    (hrunning : stream.iothr.running = .drainRequestQueue seq)
    (hmem : .establishRequest ∈ stream.requests) : stream.CanMisuse := by
  refine @canMisuse_of_drains stream .ioDrain
    (fun stream => stream.crashed = false ∧
      stream.iothr.running = .drainRequestQueue seq)
    ?_ (fun _ _ _ _ => id) ⟨hcrashed, hrunning⟩ hmem
  rintro stream item rest ⟨hcrashed, hrunning⟩ hrequests
  rw [step_eq_some, act, hrunning]
  dsimp only
  rw [ioDrain, hrequests]
  exact ⟨hcrashed, rfl⟩

/-- The state behind a successful write that popped this item. -/
theorem takeEvent_write {index tag : ℕ} {reply : Reply} {item : RequestItem}
    {rest : List RequestItem} (hwrite : IOThread.isWriteOperation tag = true)
    (hrequests : stream.requests = item :: rest) :
    stream.takeEvent index true tag reply =
      { stream.onIOThread fun thread =>
          { thread with cq := thread.cq.eraseIdx index } with
        requests := rest }.writeRequest item := by
  rw [takeEvent, handleEvent, if_pos hwrite, writeDone, if_pos rfl]
  have hqueue : (stream.onIOThread fun thread =>
      { thread with cq := thread.cq.eraseIdx index }).requests =
        item :: rest := hrequests
  rw [hqueue]

/-- Every successful write pops what is next and writes it, so one comes to
the attempt. -/
theorem canMisuse_takeEvent {index tag : ℕ} {reply : Reply}
    (hcrashed : stream.crashed = false) (hwaiting : stream.Waiting)
    (hio : stream.iothr.io = true)
    (hwrite : IOThread.isWriteOperation tag = true)
    (hmem : .establishRequest ∈ stream.requests) :
    (stream.takeEvent index true tag reply).CanMisuse := by
  induction hrequests : stream.requests
      generalizing stream index tag reply with
  | nil =>
      rw [hrequests] at hmem
      exact absurd hmem List.not_mem_nil
  | cons item rest ih =>
      rw [takeEvent_write hwrite hrequests]
      cases item with
      | establishRequest => exact canMisuse_of_consumed List.mem_cons_self
      | heap call request =>
          rw [hrequests] at hmem
          have hrest := (List.mem_cons.mp hmem).resolve_left RequestItem.noConfusion
          let others := stream.iothr.cq.eraseIdx index
          let written := IOThread.generateWriteTag request.msgid
          let next : RPCStream :=
            { stream with
              requests := rest
              consumed := .heap call request :: stream.consumed
              iothr := { stream.iothr with cq := others ++ [written] } }
          have hnext : { stream.onIOThread fun thread =>
              { thread with cq := thread.cq.eraseIdx index } with
              requests := rest }.writeRequest (.heap call request) = next := by
            unfold writeRequest
            exact if_pos hio
          have htag : next.iothr.cq[others.length]? = some written :=
            List.getElem?_concat_length
          have hstep : next.step (.ioEvent others.length true noAnswer) =
              some (next.takeEvent others.length true written noAnswer) := by
            rw [step_eq_some, act, htag]
            exact ⟨hcrashed, if_pos hwaiting⟩
          rw [hnext]
          exact .of_step hstep (@ih next others.length written noAnswer hcrashed
            hwaiting hio (IOThread.isWriteOperation_writeTag _) hrest rfl)

/-- The state behind a read that failed outside `Stop`. -/
theorem takeEvent_readFailed {index tag : ℕ} {reply : Reply}
    (hread : IOThread.isReadOperation tag = true)
    (hsending : stream.iothr.sendingShutdown = false) :
    stream.takeEvent index false tag reply =
      stream.onIOThread fun thread =>
        { thread with
          cq := thread.cq.eraseIdx index
          replyWork := false
          running := .drainRequestQueue
            (IOThread.connectSequenceFromReadTag tag) } := by
  have hwrite := IOThread.isWriteOperation_of_isReadOperation hread
  rw [takeEvent, handleEvent, hwrite, if_neg Bool.false_ne_true, if_pos hread,
    readDone]
  dsimp only
  rw [if_neg Bool.false_ne_true, if_neg]
  · rfl
  · exact Bool.eq_false_iff.mp hsending

/-- Where a step does not spare the attempt, a run can go on to misuse it. -/
theorem canMisuse_of_popping {actions : List Action} {action : Action}
    (hrun : exec step new actions = some stream)
    (hstep : stream.step action = some next)
    (hmem : .establishRequest ∈ stream.requests)
    (hpopping : stream.BeginsPopping action) : next.CanMisuse := by
  obtain ⟨hcrashed, hact⟩ := step_eq_some.mp hstep
  cases action with
  | update input =>
      rcases hpopping with ⟨hupdating, hready⟩ | ⟨hupdating, hhead⟩
      · simp only [act, update, hupdating, hready, Bool.false_eq_true,
          if_false, Option.some.injEq] at hact
        rw [← hact]
        exact canMisuse_drainReplys hcrashed rfl hmem
      · cases hreplys : stream.replys with
        | nil => simp [hreplys] at hhead
        | cons item rest =>
            rw [hreplys, List.head?_cons, Option.some.injEq,
              Option.some.injEq] at hhead
            rcases hhead with rfl | rfl
            all_goals
              simp only [act, update, hupdating, hreplys,
                Option.some.injEq] at hact
              rw [← hact]
              exact canMisuse_drainReplys hcrashed rfl hmem
  | ioEvent index ok reply =>
      obtain ⟨tag, htag, hevent⟩ := hpopping
      simp only [act, Option.mem_def.mp htag] at hact
      split at hact
      case isFalse => contradiction
      case isTrue hwaiting =>
        obtain rfl := Option.some.inj hact
        rcases hevent with ⟨hwrite, rfl⟩ | ⟨hread, rfl, hsending⟩
        · exact canMisuse_takeEvent hcrashed hwaiting
            (io_of_cq hrun hcrashed htag) hwrite hmem
        · rw [← takeEvent, takeEvent_readFailed hread hsending]
          exact canMisuse_ioDrain hcrashed rfl hmem
  | _ => exact hpopping.elim

theorem canMisuse_of_making {action : Action}
    (hstep : stream.step action = some next)
    (hmakes : stream.MakesAttempt action)
    (hrunning : stream.iothr.running ≠ .run) : next.CanMisuse := by
  obtain ⟨hcrashed, hact⟩ := step_eq_some.mp hstep
  cases action with
  | update input =>
      obtain ⟨hupdating, hstatus, hready, hwhen⟩ := hmakes
      cases hdrain : stream.iothr.running with
      | run => exact absurd hdrain hrunning
      | drainRequestQueue seq =>
          have hattempt : ¬(input.ready = false ∨
              stream.reconnectWhen > input.now) := by
            rw [not_or, Bool.not_eq_false, Nat.not_lt]
            exact ⟨hready, hwhen⟩
          simp only [act, update, hupdating, switchStatus, hstatus,
            if_neg hattempt, Option.some.injEq] at hact
          rw [← hact]
          exact canMisuse_ioDrain hcrashed hdrain
            (List.mem_append_right _ (List.mem_singleton_self _))
  | _ => exact hmakes.elim

end CanMisuse

/-- In every run of the client in which each step spares the queued connection
attempt, only requests made by `Call`, `StartWrite` and `SendShutdownRequest`
are used as heap objects; and behind every step that does not, a run can go on
to where ESTABLISH_REQUEST is used as one. -/
theorem sentinel_safe (actions : List Action) :
    (AllSteps step (fun stream action _ => stream.SparesAttempt action)
        RPCStream.new actions →
      AllSteps step (fun _ _ next => next.SentinelSafe) RPCStream.new
        actions) ∧
    ∀ stream action next, exec step RPCStream.new actions = some stream →
      stream.step action = some next → ¬stream.SparesAttempt action →
        next.CanMisuse := by
  constructor
  · exact AllSteps.of_invariant
      (fun _ _ _ hsound hstep hspares => hsound.step hstep hspares)
      (fun _ _ _ hsound hstep hspares => (hsound.step hstep hspares).consumed)
      sound_new
  · intro stream action next hrun hstep hspares
    by_contra hmisuse
    refine hspares ⟨fun hmem hpopping => hmisuse ?_, fun hmakes => ?_⟩
    · exact canMisuse_of_popping hrun hstep hmem hpopping
    · by_contra hrunning
      exact hmisuse (canMisuse_of_making hstep hmakes hrunning)

private def asked (ready : Bool) : UpdateInput where
  ready
  onOpenStream := true
  onCloseStream := 0
  addPayload := []
  now := 1

/-- A connection that is opened, and lost again when its read fails. -/
example : AllSteps step (fun stream action _ => stream.SparesAttempt action)
    RPCStream.new
    (List.replicate 3 (.update (asked true)) ++
      [.ioTimeout, .ioEvent 0 true noAnswer] ++
      List.replicate 6 (.update (asked true)) ++
      [.ioTimeout, .ioEvent 0 false noAnswer, .ioDrain, .ioDrain]) := by
  decide

/-- `Update` starts a connection attempt, and `Ready()` turns false before the
I/O thread has popped it: `DrainRequestQueue` deletes the sentinel. -/
theorem sentinel_safe_fails :
    ¬AllSteps step (fun _ _ next => next.SentinelSafe) RPCStream.new
      (List.replicate 3 (.update (asked true)) ++
        List.replicate 3 (.update (asked false))) := by
  decide

end RPCStream

end GrpcMtk
