import Mathlib.Data.List.Forall2
import GrpcMtk.Client.StaleRead

/-!
# Completion tags

A tag is a number and the kind of an operation in one `uint32_t`: the shift by
eight bits loses what the number has from bit 24 on.  `HandleEvent` takes the
number out of the tag of a failed read and compares it with
`connect_sequence_num_`, which still has these bits.  Here the connections are
counted without a bound, and each operation on the completion queue is recorded
with the connection it was started for.
-/

namespace GrpcMtk

open GrpcMtk.Proto
open GrpcMtk.Runs

namespace IOThread

def generateCloseTag (connectSequenceNum : ℕ) : ℕ :=
  (connectSequenceNum * 2 ^ 8 % 2 ^ 32 + 2) % 2 ^ 32

def connectSequenceFromCloseTag (tag : ℕ) : ℕ :=
  connectSequenceFromReadTag tag

/-- The operations that have a generator and a predicate of their own. -/
inductive TagKind where
  | write
  | read
  | close
  deriving DecidableEq, Repr

namespace TagKind

def generateTag : TagKind → ℕ → ℕ
  | .write => generateWriteTag
  | .read => generateReadTag
  | .close => generateCloseTag

def isOperation : TagKind → ℕ → Bool
  | .write => isWriteOperation
  | .read => isReadOperation
  | .close => isCloseOperation

/-- The value that the predicate of the kind looks for in the low byte. -/
def lowByte : TagKind → ℕ
  | .write => 1
  | .read => 0
  | .close => 2

theorem generateTag_mod (kind : TagKind) (number : ℕ) :
    kind.generateTag number % 256 = kind.lowByte := by
  cases kind with
  | write =>
      rw [generateTag, generateWriteTag, lowByte]
      omega
  | read =>
      rw [generateTag, generateReadTag, lowByte]
      omega
  | close =>
      rw [generateTag, generateCloseTag, lowByte]
      omega

theorem isOperation_iff (kind : TagKind) (tag : ℕ) :
    kind.isOperation tag = true ↔ tag % 256 = kind.lowByte := by
  cases kind <;> exact decide_eq_true_iff

theorem lowByte_injective : Function.Injective lowByte := by
  intro kind other heq
  cases kind <;> cases other <;> first | rfl | contradiction

/-- A tag is recognised as an operation of its generator's kind only. -/
theorem isOperation_generateTag (other kind : TagKind) (number : ℕ) :
    other.isOperation (kind.generateTag number) = true ↔ other = kind := by
  rw [isOperation_iff, generateTag_mod, lowByte_injective.eq_iff, eq_comm]

end TagKind

/-- 24 bits of the number come back. -/
theorem connectSequenceFromReadTag_readTag (seq : ℕ) :
    connectSequenceFromReadTag (generateReadTag seq) = seq % 2 ^ 24 := by
  rw [connectSequenceFromReadTag, generateReadTag]
  omega

theorem connectSequenceFromCloseTag_closeTag (seq : ℕ) :
    connectSequenceFromCloseTag (generateCloseTag seq) = seq % 2 ^ 24 := by
  rw [connectSequenceFromCloseTag, connectSequenceFromReadTag,
    generateCloseTag]
  omega

/-- The tag depends on the number as a `uint32_t`. -/
theorem generateReadTag_mod (seq : ℕ) :
    generateReadTag (seq % 2 ^ 32) = generateReadTag seq := by
  rw [generateReadTag, generateReadTag, Nat.mod_mul_mod]

end IOThread

/-! ## What a step does to the tags -/

namespace RPCStream

/-- `Run` calls `Open`. -/
def Opens (stream : RPCStream) (action : Action) : Prop :=
  action = .ioTimeout ∧ stream.iothr.isSending = false ∧
    stream.requests.head? = some .establishRequest

instance (stream : RPCStream) (action : Action) :
    Decidable (stream.Opens action) :=
  inferInstanceAs (Decidable (_ ∧ _ ∧ _))

/-- The tag of the read at this place of the completion queue, if its failure
is taken for the end of a connection and not for that of the client. -/
def failedRead (stream : RPCStream) (index : ℕ) : Option ℕ :=
  if stream.iothr.sendingShutdown then none
  else stream.iothr.cq[index]?.filter IOThread.isReadOperation

/-- What is recorded for each operation of the completion queue, without the
one that an action takes out of it. -/
def Action.undelivered {Item : Type} (items : List Item) :
    Action → List Item
  | .ioEvent index _ _ => items.eraseIdx index
  | _ => items

/-- Where the I/O thread is after an action. -/
def runningAfter (stream : RPCStream) : Action → IOThreadAt
  | .ioEvent index false _ =>
      match stream.failedRead index with
      | none => stream.iothr.running
      | some tag =>
          .drainRequestQueue (IOThread.connectSequenceFromReadTag tag)
  | .ioDrain =>
      if stream.requests = [] then .run else stream.iothr.running
  | _ => stream.iothr.running

/-- What a step does to the tags: at most `Open` counts the connection on, and
what is started is a write, or the start or a read of the newest one. -/
structure Tags (stream : RPCStream) (action : Action) (next : RPCStream) :
    Prop where
  cq : ∃ started, next.iothr.cq =
      action.undelivered stream.iothr.cq ++ started ∧
    ∀ tag ∈ started, IOThread.isWriteOperation tag = true ∨
      tag = IOThread.generateReadTag next.iothr.connectSequenceNum
  seq : next.iothr.connectSequenceNum =
    if stream.Opens action then
      (stream.iothr.connectSequenceNum + 1) % 2 ^ 32
    else stream.iothr.connectSequenceNum
  running : next.iothr.running = stream.runningAfter action

section Tags

variable {stream next : RPCStream}

theorem not_opens {action : Action} (haction : action ≠ .ioTimeout) :
    ¬stream.Opens action :=
  fun hopens => haction hopens.1

/-- No operation is started. -/
theorem Tags.of_kept {action : Action} (hopens : ¬stream.Opens action)
    (hcq : next.iothr.cq = action.undelivered stream.iothr.cq)
    (hseq : next.iothr.connectSequenceNum = stream.iothr.connectSequenceNum)
    (hrunning : next.iothr.running = stream.runningAfter action) :
    Tags stream action next where
  cq := ⟨[], by rw [hcq, List.append_nil], by simp⟩
  seq := by rw [hseq, if_neg hopens]
  running := hrunning

/-- Only writes are started. -/
theorem Tags.of_writes {action : Action} (hopens : ¬stream.Opens action)
    {started : List ℕ} {isSending : Bool}
    (hwrites : ∀ tag ∈ started, IOThread.isWriteOperation tag = true)
    (hiothr : next.iothr =
      { stream.iothr with
        cq := action.undelivered stream.iothr.cq ++ started, isSending })
    (hrunning : stream.runningAfter action = stream.iothr.running) :
    Tags stream action next where
  cq := ⟨started, by rw [hiothr], fun tag htag => .inl (hwrites tag htag)⟩
  seq := by rw [hiothr, if_neg hopens]
  running := by rw [hiothr, hrunning]

/-- Another thread leaves the tags and the place of the I/O thread alone. -/
theorem Tags.of_elsewhere {action : Action} (hio : ¬action.onIOThread)
    (hcq : next.iothr.cq = stream.iothr.cq)
    (hseq : next.iothr.connectSequenceNum = stream.iothr.connectSequenceNum)
    (hrunning : next.iothr.running = stream.iothr.running) :
    Tags stream action next := by
  have hopens : ¬stream.Opens action := not_opens <| by
    rintro rfl
    exact hio trivial
  apply Tags.of_kept hopens _ hseq
  all_goals
    cases action with
    | ioEvent => exact absurd trivial hio
    | ioDrain => exact absurd trivial hio
    | _ => assumption

theorem stop_running (stream : RPCStream) :
    stream.stop.iothr.running = stream.iothr.running := by
  rw [stop]
  dsimp only
  split
  · split <;> rfl
  · rfl

/-- At most a write is started. -/
theorem writeRequest_iothr (item : RequestItem) (stream : RPCStream) :
    ∃ started, (∀ tag ∈ started, IOThread.isWriteOperation tag = true) ∧
      (stream.writeRequest item).iothr =
        { stream.iothr with cq := stream.iothr.cq ++ started } := by
  cases item with
  | establishRequest => exact ⟨[], by simp, by rw [List.append_nil]; rfl⟩
  | heap id request =>
      rw [writeRequest]
      dsimp only
      split
      · exact ⟨[IOThread.generateWriteTag request.msgid], by simp, rfl⟩
      · exact ⟨[], by simp, by rw [List.append_nil]; rfl⟩

theorem Tags.ioTimeout (stream : RPCStream) :
    Tags stream .ioTimeout stream.ioTimeout := by
  by_cases hsending : stream.iothr.isSending = true
  · have hdone : stream.ioTimeout = stream := by
      rw [RPCStream.ioTimeout, if_pos hsending]
    rw [hdone]
    exact .of_kept (by simp [Opens, hsending]) rfl rfl rfl
  · rw [Bool.not_eq_true] at hsending
    cases hrequests : stream.requests with
    | nil =>
        have hdone : stream.ioTimeout = stream := by
          simp [RPCStream.ioTimeout, hrequests]
        rw [hdone]
        exact .of_kept (by simp [Opens, hrequests]) rfl rfl rfl
    | cons item rest =>
        cases item with
        | establishRequest =>
            have hopens : stream.Opens .ioTimeout :=
              ⟨rfl, hsending, by rw [hrequests]; rfl⟩
            have hdone : stream.ioTimeout =
                { stream with requests := rest }.onIOThread
                  IOThread.openStream := by
              simp [RPCStream.ioTimeout, hsending, hrequests]
            rw [hdone]
            refine ⟨⟨_, rfl, fun tag htag => .inr ?_⟩,
              by rw [if_pos hopens]; rfl, rfl⟩
            exact List.mem_singleton.mp htag
        | heap id request =>
            obtain ⟨started, hwrites, hiothr⟩ := writeRequest_iothr
              (.heap id request) { stream with requests := rest }
            apply @Tags.of_writes _ _ _ (by simp [Opens, hrequests]) _ true
              hwrites _ rfl
            simp only [RPCStream.ioTimeout, hsending, hrequests, onIOThread,
              Bool.false_eq_true, if_false, hiothr, Action.undelivered]

theorem failedRead_eq {index tag : ℕ}
    (htag : stream.iothr.cq[index]? = some tag) :
    stream.failedRead index =
      if stream.iothr.sendingShutdown = false ∧
          IOThread.isReadOperation tag = true then some tag
      else none := by
  rw [failedRead, htag, Option.filter_some]
  cases stream.iothr.sendingShutdown <;> simp

/-- A failed completion leaves the I/O thread in `Run`, unless it is that of a
read of a client that is not shutting down. -/
theorem runningAfter_ioEvent {index tag : ℕ} {ok : Bool} {reply : Reply}
    (htag : stream.iothr.cq[index]? = some tag)
    (hnot : ok = false → IOThread.isReadOperation tag = true →
      stream.iothr.sendingShutdown = true) :
    stream.runningAfter (.ioEvent index ok reply) =
      stream.iothr.running := by
  cases ok with
  | true => rfl
  | false =>
      have hnone : stream.failedRead index = none := by
        rw [failedRead_eq htag]
        apply if_neg
        rintro ⟨hshutdown, hread⟩
        rw [hnot rfl hread] at hshutdown
        contradiction
      rw [runningAfter, hnone]

/-- A completed write starts at most the next one. -/
theorem writeDone_iothr (ok : Bool) (stream : RPCStream) :
    ∃ started isSending,
      (∀ tag ∈ started, IOThread.isWriteOperation tag = true) ∧
      (stream.writeDone ok).iothr =
        { stream.iothr with cq := stream.iothr.cq ++ started, isSending } := by
  rw [writeDone]
  split
  · split
    · exact ⟨[], false, by simp, by rw [List.append_nil]; rfl⟩
    case h_2 item rest hrequests =>
      obtain ⟨started, hwrites, hiothr⟩ := writeRequest_iothr item
        { stream with requests := rest }
      exact ⟨started, _, hwrites, hiothr⟩
  · exact ⟨[], _, by simp, by rw [List.append_nil]⟩

theorem Tags.ioEvent {index tag : ℕ} (ok : Bool) (reply : Reply)
    (htag : stream.iothr.cq[index]? = some tag) :
    Tags stream (.ioEvent index ok reply)
      (stream.takeEvent index ok tag reply) := by
  have hopens : ¬stream.Opens (.ioEvent index ok reply) :=
    not_opens (by simp)
  rw [takeEvent, handleEvent]
  cases hwrite : IOThread.isWriteOperation tag with
  | true =>
      have hread : IOThread.isReadOperation tag ≠ true := fun hread =>
        absurd hwrite (by
          rw [IOThread.isWriteOperation_of_isReadOperation hread]
          exact Bool.false_ne_true)
      obtain ⟨started, isSending, hwrites, hiothr⟩ := writeDone_iothr ok
        (stream.onIOThread fun thread =>
          { thread with cq := thread.cq.eraseIdx index })
      exact .of_writes hopens hwrites hiothr
        (runningAfter_ioEvent htag fun _ h => absurd h hread)
  | false =>
      rw [if_neg Bool.false_ne_true]
      cases hread : IOThread.isReadOperation tag with
      | true =>
          rw [if_pos rfl, readDone]
          cases ok with
          | true =>
              refine ⟨⟨_, rfl, fun tag htag => .inr ?_⟩,
                by rw [if_neg hopens]; rfl, rfl⟩
              exact List.mem_singleton.mp htag
          | false =>
              rw [if_neg Bool.false_ne_true]
              split
              case isTrue hshutdown =>
                exact .of_kept hopens rfl rfl
                  (runningAfter_ioEvent htag fun _ _ => hshutdown).symm
              case isFalse hshutdown =>
                have hfailed : stream.failedRead index = some tag := by
                  rw [failedRead_eq htag]
                  exact if_pos ⟨eq_false_of_ne_true hshutdown, hread⟩
                refine .of_kept hopens rfl rfl ?_
                rw [runningAfter, hfailed]
                rfl
      | false =>
          have hrunning : stream.runningAfter (.ioEvent index ok reply) =
              stream.iothr.running :=
            runningAfter_ioEvent htag fun _ h =>
              absurd h (by rw [hread]; exact Bool.false_ne_true)
          rw [if_neg Bool.false_ne_true]
          split <;> exact .of_kept hopens rfl rfl hrunning.symm

theorem Tags.ioDrain (seq : ℕ) (stream : RPCStream) :
    Tags stream .ioDrain (stream.ioDrain seq) := by
  have hopens : ¬stream.Opens .ioDrain := not_opens (by simp)
  rw [RPCStream.ioDrain]
  split
  case h_1 item rest hrequests =>
    obtain ⟨consumed, drained, crashed, heq⟩ :=
      deleteRequest_eq { stream with requests := rest } item
    rw [heq]
    exact .of_kept hopens rfl rfl (if_neg (by simp [hrequests])).symm
  case h_2 hrequests =>
    dsimp only
    split <;> exact .of_kept hopens rfl rfl (if_pos hrequests).symm

theorem tags_of_step {action : Action}
    (hstep : stream.step action = some next) : Tags stream action next := by
  cases did_of_step hstep with
  | callBegin request =>
      rcases callBegin_eq stream request with ⟨-, heq⟩ | heq
      all_goals
        rw [heq]
        exact .of_elsewhere id rfl rfl rfl
  | update hupdated =>
      obtain ⟨joinable, -, hiothr⟩ := iothr_of_updated hupdated
      apply Tags.of_elsewhere id
      all_goals rw [hiothr]
  | stop =>
      obtain ⟨iothr, hcq, -, hseq, heq⟩ := stop_eq stream
      have hiothr : stream.stop.iothr = iothr := by
        rcases heq with heq | heq
        · rw [heq]
        · rw [heq]
          rfl
      exact .of_elsewhere id (by rw [hiothr, hcq]) (by rw [hiothr, hseq])
        (stop_running stream)
  | stopTimeout => exact .of_kept (not_opens (by simp)) rfl rfl rfl
  | ioTimeout => exact .ioTimeout stream
  | ioEvent ok reply htag => exact .ioEvent ok reply htag
  | ioShutdown => exact .of_kept (not_opens (by simp)) rfl rfl rfl
  | ioDrain seq => exact .ioDrain seq stream
  | _ => exact .of_elsewhere id rfl rfl rfl

end Tags

end RPCStream

/-! ## The connections of a client -/

/-- A client with its connections: how often `Open` was called, the connection
that each operation of the completion queue was started for, and the one whose
failed read the I/O thread is handling. -/
structure Attributed where
  stream : RPCStream
  opened : ℕ
  owners : List ℕ
  failed : Option ℕ

namespace Attributed

def new : Attributed where
  stream := .new
  opened := 0
  owners := []
  failed := none

def openedAfter (attributed : Attributed) (action : RPCStream.Action) : ℕ :=
  if attributed.stream.Opens action then attributed.opened + 1
  else attributed.opened

/-- `io_` is the newest connection, so what an action starts is started for
this one. -/
def ownersAfter (attributed : Attributed) (action : RPCStream.Action)
    (stream : RPCStream) : List ℕ :=
  let kept := action.undelivered attributed.owners
  kept ++ List.replicate (stream.iothr.cq.length - kept.length)
    (attributed.openedAfter action)

/-- The connection of the operation that an action takes out of the completion
queue. -/
def owner (attributed : Attributed) : RPCStream.Action → Option ℕ
  | .ioEvent index _ _ => attributed.owners[index]?
  | _ => none

def failedAfter (attributed : Attributed) (action : RPCStream.Action)
    (stream : RPCStream) : Option ℕ :=
  match stream.iothr.running with
  | .run => none
  | .drainRequestQueue _ => (attributed.owner action).or attributed.failed

def step (attributed : Attributed) (action : RPCStream.Action) :
    Option Attributed :=
  (attributed.stream.step action).map fun stream =>
    { stream
      opened := attributed.openedAfter action
      owners := attributed.ownersAfter action stream
      failed := attributed.failedAfter action stream }

/-- The connections are recorded beside every run of the client. -/
theorem exec_stream (attributed : Attributed)
    (actions : List RPCStream.Action) :
    (exec step attributed actions).map stream =
      exec RPCStream.step attributed.stream actions := by
  apply exec_erase
  intro attributed action
  rw [step, Option.map_map]
  exact Option.map_id_apply

/-- What the comparison is to push for a failed read of the connection. -/
def report (attributed : Attributed) (conn : ℕ) : List ReplyItem :=
  if conn = attributed.opened then [.disconnectEvent] else []

/-- A failed read is handled as one of its connection, stays so until
`requests_` is empty, and then DISCONNECT_EVENT is pushed exactly if the
connection is the current one. -/
def Reported (attributed : Attributed) (action : RPCStream.Action)
    (next : Attributed) : Prop :=
  match action with
  | .ioEvent index false _ =>
      if (attributed.stream.failedRead index).isSome then
        ∃ conn ∈ attributed.owners[index]?, next.failed = some conn
      else next.failed = attributed.failed
  | .ioDrain =>
      if attributed.stream.requests = [] then
        next.failed = none ∧ ∃ conn ∈ attributed.failed,
          next.stream.replys =
            attributed.stream.replys ++ attributed.report conn
      else next.failed = attributed.failed
  | _ => next.failed = attributed.failed

/-- 24 bits of the number of the connection tell whether it is the current
one: if it is, its number fits in them; if it is an earlier one, the current
number does not, or the two differ there. -/
def Tells (attributed : Attributed) (conn : ℕ) : Prop :=
  conn = attributed.opened ∧ attributed.opened % 2 ^ 32 < 2 ^ 24 ∨
    conn ≠ attributed.opened ∧
      (2 ^ 24 ≤ attributed.opened % 2 ^ 32 ∨
        conn % 2 ^ 24 ≠ attributed.opened % 2 ^ 24)

instance (attributed : Attributed) (conn : ℕ) :
    Decidable (attributed.Tells conn) :=
  inferInstanceAs (Decidable (_ ∧ _ ∨ _ ∧ (_ ∨ _)))

/-- The number of a connection tells whether it is the current one when its
failed read comes to the comparison. -/
def Distinguished (attributed : Attributed) : RPCStream.Action → Prop
  | .ioDrain => attributed.stream.requests = [] →
      ∀ conn ∈ attributed.failed, attributed.Tells conn
  | _ => True

/-! ## Connections and tags -/

/-- Where the I/O thread is while it handles a failed read of the
connection. -/
def runningFor : Option ℕ → IOThreadAt
  | none => .run
  | some conn => .drainRequestQueue (conn % 2 ^ 24)

def Owns (tag conn : ℕ) : Prop :=
  IOThread.isReadOperation tag = true → tag = IOThread.generateReadTag conn

/-- The tags are those of the connections, and so are the sequence numbers. -/
structure Traced (attributed : Attributed) : Prop where
  tags : List.Forall₂ Owns attributed.stream.iothr.cq attributed.owners
  seq : attributed.stream.iothr.connectSequenceNum =
    attributed.opened % 2 ^ 32
  running : attributed.stream.iothr.running = runningFor attributed.failed
  owners : ∀ conn ∈ attributed.owners, conn ≤ attributed.opened
  failed : ∀ conn ∈ attributed.failed, conn ≤ attributed.opened

section Traced

variable {attributed next : Attributed}

theorem traced_new : Traced new where
  tags := .nil
  seq := rfl
  running := rfl
  owners _ hconn := absurd hconn List.not_mem_nil
  failed _ hconn := by contradiction

theorem step_eq_some {action : RPCStream.Action} :
    attributed.step action = some next ↔
      attributed.stream.step action = some next.stream ∧
        next.opened = attributed.openedAfter action ∧
        next.owners = attributed.ownersAfter action next.stream ∧
        next.failed = attributed.failedAfter action next.stream := by
  rw [step, Option.map_eq_some_iff]
  constructor
  · rintro ⟨stream, hstream, rfl⟩
    exact ⟨hstream, rfl, rfl, rfl⟩
  · rintro ⟨hstream, hopened, howners, hfailed⟩
    exact ⟨next.stream, hstream, by rw [← hopened, ← howners, ← hfailed]⟩

theorem forall₂_undelivered {tags conns : List ℕ}
    (howns : List.Forall₂ Owns tags conns) (action : RPCStream.Action) :
    List.Forall₂ Owns (action.undelivered tags)
      (action.undelivered conns) := by
  cases action with
  | ioEvent index ok reply =>
      simp only [RPCStream.Action.undelivered,
        List.eraseIdx_eq_take_drop_succ]
      exact List.rel_append (List.forall₂_take index howns)
        (List.forall₂_drop (index + 1) howns)
  | _ => exact howns

theorem forall₂_replicate {tags : List ℕ} {conn : ℕ}
    (howns : ∀ tag ∈ tags, Owns tag conn) :
    List.Forall₂ Owns tags (List.replicate tags.length conn) := by
  induction tags with
  | nil => exact .nil
  | cons tag rest ih =>
      exact .cons (howns tag List.mem_cons_self)
        (ih fun tag htag => howns tag (List.mem_cons_of_mem _ htag))

theorem opened_le (attributed : Attributed) (action : RPCStream.Action) :
    attributed.opened ≤ attributed.openedAfter action := by
  rw [openedAfter]
  split
  · exact Nat.le_succ _
  · exact Nat.le_refl _

theorem Traced.opened_step {action : RPCStream.Action}
    (htraced : Traced attributed)
    (htags : RPCStream.Tags attributed.stream action next.stream)
    (hopened : next.opened = attributed.openedAfter action) :
    next.stream.iothr.connectSequenceNum = next.opened % 2 ^ 32 := by
  rw [htags.seq, hopened, openedAfter, htraced.seq]
  split
  · rw [Nat.mod_add_mod]
  · rfl

theorem Traced.owners_step {action : RPCStream.Action}
    (htraced : Traced attributed)
    (htags : RPCStream.Tags attributed.stream action next.stream)
    (hseq : next.stream.iothr.connectSequenceNum = next.opened % 2 ^ 32)
    (hopened : next.opened = attributed.openedAfter action)
    (howners : next.owners = attributed.ownersAfter action next.stream) :
    List.Forall₂ Owns next.stream.iothr.cq next.owners := by
  obtain ⟨started, hcq, hstarted⟩ := htags.cq
  have hkept := forall₂_undelivered htraced.tags action
  have hlength : next.stream.iothr.cq.length -
      (action.undelivered attributed.owners).length = started.length := by
    rw [hcq, List.length_append, hkept.length_eq, Nat.add_sub_cancel_left]
  rw [howners, ownersAfter, hlength, hcq, ← hopened]
  refine List.rel_append hkept (forall₂_replicate fun tag htag hread => ?_)
  rcases hstarted tag htag with hwrite | heq
  · rw [IOThread.isWriteOperation_of_isReadOperation hread] at hwrite
    contradiction
  · rw [heq, hseq, IOThread.generateReadTag_mod]

theorem mem_of_undelivered {conns : List ℕ} {conn : ℕ}
    {action : RPCStream.Action} (hconn : conn ∈ action.undelivered conns) :
    conn ∈ conns := by
  cases action with
  | ioEvent index ok reply => exact List.mem_of_mem_eraseIdx hconn
  | _ => exact hconn

theorem Traced.owners_le {action : RPCStream.Action}
    (htraced : Traced attributed)
    (hopened : next.opened = attributed.openedAfter action)
    (howners : next.owners = attributed.ownersAfter action next.stream) :
    ∀ conn ∈ next.owners, conn ≤ next.opened := by
  intro conn hconn
  rw [howners, ownersAfter] at hconn
  rw [hopened]
  rcases List.mem_append.mp hconn with hkept | hstarted
  · exact (htraced.owners conn (mem_of_undelivered hkept)).trans
      (opened_le attributed action)
  · exact (List.eq_of_mem_replicate hstarted).le

/-- The connection of a read in the completion queue is the one of its tag. -/
theorem Traced.readTag (htraced : Traced attributed) {index tag : ℕ}
    (htag : attributed.stream.failedRead index = some tag) :
    ∃ conn ∈ attributed.owners[index]?,
      IOThread.connectSequenceFromReadTag tag = conn % 2 ^ 24 := by
  rw [RPCStream.failedRead] at htag
  split at htag
  · contradiction
  · obtain ⟨hget, hread⟩ := Option.filter_eq_some_iff.mp htag
    have hbound := (List.getElem?_eq_some_iff.mp hget).1
    rw [htraced.tags.length_eq] at hbound
    have hconn := List.getElem?_eq_getElem hbound
    refine ⟨_, hconn, ?_⟩
    have howns := (List.forall₂_iff_get.mp htraced.tags).2 index
      (List.getElem?_eq_some_iff.mp hget).1 hbound
    rw [List.get_eq_getElem, (List.getElem?_eq_some_iff.mp hget).2] at howns
    rw [howns hread, IOThread.connectSequenceFromReadTag_readTag,
      List.get_eq_getElem]

/-- The connection whose failed read the I/O thread handles after an action. -/
def handling (attributed : Attributed) : RPCStream.Action → Option ℕ
  | .ioEvent index false _ =>
      if (attributed.stream.failedRead index).isSome then
        attributed.owners[index]?
      else attributed.failed
  | .ioDrain =>
      if attributed.stream.requests = [] then none else attributed.failed
  | _ => attributed.failed

/-- A completion is delivered while no failed read is being handled. -/
theorem Traced.failed_ioEvent (htraced : Traced attributed) {index : ℕ}
    {ok : Bool} {reply : Reply} {stream : RPCStream}
    (hstep : attributed.stream.step (.ioEvent index ok reply) = some stream) :
    attributed.failed = none := by
  have hact := (RPCStream.step_eq_some.mp hstep).2
  rw [RPCStream.act] at hact
  split at hact
  · contradiction
  · split at hact
    case isTrue hwaiting =>
      have hrunning := htraced.running.symm.trans hwaiting.2.2
      cases hfailed : attributed.failed with
      | none => rfl
      | some conn =>
          rw [hfailed] at hrunning
          contradiction
    · contradiction

theorem Traced.running_step {action : RPCStream.Action}
    (htraced : Traced attributed)
    (hstep : attributed.stream.step action = some next.stream) :
    next.stream.iothr.running = runningFor (attributed.handling action) := by
  rw [(RPCStream.tags_of_step hstep).running]
  cases action with
  | ioEvent index ok reply =>
      cases ok with
      | true => exact htraced.running
      | false =>
          rw [RPCStream.runningAfter, handling]
          cases htag : attributed.stream.failedRead index with
          | none => exact htraced.running
          | some tag =>
              obtain ⟨conn, hconn, hseq⟩ := htraced.readTag htag
              rw [Option.isSome_some, if_pos rfl, Option.mem_def.mp hconn]
              exact congrArg IOThreadAt.drainRequestQueue hseq
  | ioDrain =>
      rw [RPCStream.runningAfter, handling]
      split
      · rfl
      · exact htraced.running
  | _ => exact htraced.running

theorem Traced.failed_step {action : RPCStream.Action}
    (htraced : Traced attributed)
    (hstep : attributed.stream.step action = some next.stream)
    (hfailed : next.failed = attributed.failedAfter action next.stream) :
    next.failed = attributed.handling action := by
  rw [hfailed, failedAfter, htraced.running_step hstep]
  cases hhandling : attributed.handling action with
  | none => rfl
  | some conn =>
      rw [runningFor]
      cases action with
      | ioEvent index ok reply =>
          have hnone := htraced.failed_ioEvent hstep
          cases ok with
          | true => exact absurd (hnone.symm.trans hhandling) (by simp)
          | false =>
              rw [handling, hnone] at hhandling
              split at hhandling
              · rw [owner, hnone, Option.or_none, hhandling]
              · contradiction
      | ioDrain =>
          rw [handling] at hhandling
          split at hhandling
          · contradiction
          · exact hhandling
      | _ => exact hhandling

theorem Traced.handling_le (htraced : Traced attributed)
    (action : RPCStream.Action) :
    ∀ conn ∈ attributed.handling action, conn ≤ attributed.opened := by
  intro conn hconn
  cases action with
  | ioEvent index ok reply =>
      cases ok with
      | true => exact htraced.failed conn hconn
      | false =>
          rw [handling] at hconn
          split at hconn
          · exact htraced.owners conn (List.mem_of_getElem? hconn)
          · exact htraced.failed conn hconn
  | ioDrain =>
      rw [handling] at hconn
      split at hconn
      · contradiction
      · exact htraced.failed conn hconn
  | _ => exact htraced.failed conn hconn

theorem traced_step {action : RPCStream.Action} (htraced : Traced attributed)
    (hstep : attributed.step action = some next) :
    Traced next ∧ next.failed = attributed.handling action := by
  obtain ⟨hstream, hopened, howners, hfailed⟩ := step_eq_some.mp hstep
  have htags := RPCStream.tags_of_step hstream
  have hseq := htraced.opened_step htags hopened
  have hhandling := htraced.failed_step hstream hfailed
  have htraced' : Traced next :=
    { tags := htraced.owners_step htags hseq hopened howners
      seq := hseq
      running := by rw [htraced.running_step hstream, hhandling]
      owners := htraced.owners_le hopened howners
      failed := fun conn hconn => by
        rw [hhandling] at hconn
        rw [hopened]
        exact (htraced.handling_le action conn hconn).trans
          (opened_le attributed action) }
  exact ⟨htraced', hhandling⟩

/-! ## The comparison -/

theorem replys_ioDrain {stream : RPCStream} (hrequests : stream.requests = [])
    (seq : ℕ) :
    (stream.ioDrain seq).replys = stream.replys ++
      if stream.iothr.connectSequenceNum = seq then [.disconnectEvent]
      else [] := by
  rw [RPCStream.ioDrain, hrequests]
  dsimp only [RPCStream.onIOThread]
  split
  · rfl
  · exact (List.append_nil _).symm

/-- `connect_sequence_num_` is compared with 24 bits of the number of the
connection. -/
theorem Traced.compare_iff (htraced : Traced attributed) (conn : ℕ) :
    (attributed.stream.iothr.connectSequenceNum = conn % 2 ^ 24 ↔
      conn = attributed.opened) ↔ attributed.Tells conn := by
  rw [htraced.seq, Tells]
  omega

theorem Traced.report_iff (htraced : Traced attributed)
    (hrequests : attributed.stream.requests = []) (conn : ℕ) :
    (attributed.stream.ioDrain (conn % 2 ^ 24)).replys =
        attributed.stream.replys ++ attributed.report conn ↔
      attributed.Tells conn := by
  rw [replys_ioDrain hrequests, report, List.append_cancel_left_eq,
    ← htraced.compare_iff]
  by_cases hcurrent : conn = attributed.opened <;> simp [hcurrent]

theorem Traced.ioDrain (htraced : Traced attributed)
    (hstep : attributed.stream.step .ioDrain = some next.stream) :
    ∃ conn ∈ attributed.failed,
      next.stream = attributed.stream.ioDrain (conn % 2 ^ 24) := by
  have hact := (RPCStream.step_eq_some.mp hstep).2
  rw [RPCStream.act, htraced.running] at hact
  cases hfailed : attributed.failed with
  | none =>
      rw [hfailed] at hact
      contradiction
  | some conn =>
      rw [hfailed] at hact
      exact ⟨conn, rfl, (Option.some.inj hact).symm⟩

theorem Traced.reported_iff {action : RPCStream.Action}
    (htraced : Traced attributed)
    (hstep : attributed.step action = some next) :
    attributed.Reported action next ↔ attributed.Distinguished action := by
  have hhandling := (traced_step htraced hstep).2
  have hstream := (step_eq_some.mp hstep).1
  cases action with
  | ioEvent index ok reply =>
      cases ok with
      | true => exact iff_of_true hhandling trivial
      | false =>
          refine iff_of_true ?_ trivial
          rw [handling] at hhandling
          rw [Reported]
          split
          case isTrue hsome =>
            obtain ⟨tag, htag⟩ := Option.isSome_iff_exists.mp hsome
            obtain ⟨conn, hconn, -⟩ := htraced.readTag htag
            rw [if_pos hsome, Option.mem_def.mp hconn] at hhandling
            exact ⟨conn, hconn, hhandling⟩
          case isFalse hnone => rwa [if_neg hnone] at hhandling
  | ioDrain =>
      rw [handling] at hhandling
      rw [Reported, Distinguished]
      split
      case isTrue hrequests =>
        rw [if_pos hrequests] at hhandling
        obtain ⟨conn, hconn, hdone⟩ := htraced.ioDrain hstream
        have hreport := htraced.report_iff hrequests conn
        rw [← hdone] at hreport
        constructor
        · rintro ⟨-, conn', hconn', hreplys⟩ - conn'' hconn''
          obtain rfl := Option.mem_unique hconn hconn'
          obtain rfl := Option.mem_unique hconn hconn''
          exact hreport.mp hreplys
        · intro htells
          exact ⟨hhandling, conn, hconn,
            hreport.mpr (htells hrequests conn hconn)⟩
      case isFalse hrequests =>
        rw [if_neg hrequests] at hhandling
        exact iff_of_true hhandling fun hnone => absurd hnone hrequests
  | _ => exact iff_of_true hhandling trivial

/-! ## The I/O thread alone -/

/-- `DrainRequestQueue` and the comparison while no other thread takes a
step. -/
def drainAlone (attributed : Attributed) : List RPCStream.Action :=
  List.replicate (attributed.stream.requests.length + 1) .ioDrain

theorem exec_drainAlone_of_crashed
    (hcrashed : attributed.stream.crashed = true) :
    exec step attributed attributed.drainAlone = none := by
  rw [drainAlone, List.replicate_succ, exec, step, RPCStream.step,
    if_pos hcrashed, Option.map_none]

theorem Traced.exists_ioDrain (htraced : Traced attributed) {conn : ℕ}
    (hfailed : attributed.failed = some conn)
    (hcrashed : attributed.stream.crashed = false) :
    ∃ next, attributed.step .ioDrain = some next ∧
      next.stream = attributed.stream.ioDrain (conn % 2 ^ 24) ∧
      next.opened = attributed.opened := by
  have hstream : attributed.stream.step .ioDrain =
      some (attributed.stream.ioDrain (conn % 2 ^ 24)) := by
    rw [RPCStream.step_eq_some, RPCStream.act, htraced.running, hfailed]
    exact ⟨hcrashed, rfl⟩
  have hopened : attributed.openedAfter .ioDrain = attributed.opened :=
    if_neg (RPCStream.not_opens (by simp))
  rw [step, hstream]
  exact ⟨_, rfl, rfl, hopened⟩

/-- An iteration deletes the first request. -/
theorem ioDrain_cons {stream : RPCStream} {item : RequestItem}
    {rest : List RequestItem} (hrequests : stream.requests = item :: rest)
    (hcrashed : stream.crashed = false) (seq : ℕ) :
    (stream.ioDrain seq).requests = rest ∧
      (stream.ioDrain seq).replys = stream.replys ∧
      ((stream.ioDrain seq).crashed = false ↔ item ≠ .establishRequest) := by
  rw [RPCStream.ioDrain, hrequests]
  cases item with
  | establishRequest =>
      exact ⟨rfl, rfl, by simp [RPCStream.deleteRequest, RPCStream.crash]⟩
  | heap id request =>
      exact ⟨rfl, rfl, by simp [RPCStream.deleteRequest, hcrashed]⟩

/-- Alone, the I/O thread comes to the comparison unless it meets
ESTABLISH_REQUEST. -/
theorem Traced.drainAlone_iff (htraced : Traced attributed) {conn : ℕ}
    (hfailed : attributed.failed = some conn) :
    (∃ final, exec step attributed attributed.drainAlone = some final ∧
      final.failed = none ∧
      final.stream.replys =
        attributed.stream.replys ++ attributed.report conn) ↔
      attributed.stream.crashed = false ∧
        .establishRequest ∉ attributed.stream.requests ∧
        attributed.Tells conn := by
  generalize hlist : attributed.stream.requests = requests
  induction requests generalizing attributed with
  | nil =>
      cases hcrashed : attributed.stream.crashed with
      | true => simp [exec_drainAlone_of_crashed hcrashed]
      | false =>
          obtain ⟨next, hstep, hdone, -⟩ :=
            htraced.exists_ioDrain hfailed hcrashed
          have hreport := htraced.report_iff hlist conn
          have hnone := (traced_step htraced hstep).2
          rw [handling, if_pos hlist] at hnone
          rw [← hdone] at hreport
          simp [drainAlone, hlist, exec, hstep, hnone, hreport]
  | cons item rest ih =>
      cases hcrashed : attributed.stream.crashed with
      | true => simp [exec_drainAlone_of_crashed hcrashed]
      | false =>
          obtain ⟨next, hstep, hdone, hopened⟩ :=
            htraced.exists_ioDrain hfailed hcrashed
          obtain ⟨hrest, hreplys, hgone⟩ :=
            ioDrain_cons hlist hcrashed (conn % 2 ^ 24)
          rw [← hdone] at hrest hreplys hgone
          obtain ⟨hnext, hkept⟩ := traced_step htraced hstep
          rw [handling, if_neg (by simp [hlist]), hfailed] at hkept
          have hrun : exec step attributed attributed.drainAlone =
              exec step next next.drainAlone := by
            rw [drainAlone, hlist, List.length_cons, List.replicate_succ,
              exec, hstep, drainAlone, hrest]
          have hreport : next.report conn = attributed.report conn := by
            rw [report, hopened, report]
          have htells : next.Tells conn ↔ attributed.Tells conn := by
            rw [Tells, hopened, Tells]
          rw [hrun, ← hreplys, ← hreport, ih hnext hkept hrest, hgone, htells]
          simp only [List.mem_cons, not_or, true_and, ne_comm, and_assoc, ne_eq]

end Traced

/-! ## Runs -/

theorem allSteps_reported_iff (actions : List RPCStream.Action) :
    AllSteps step Reported new actions ↔
      AllSteps step (fun attributed action _ => attributed.Distinguished action)
        new actions := by
  apply @allSteps_iff_of_invariant _ _ step Traced
  · intro attributed action next htraced hstep _
    exact (traced_step htraced hstep).1
  · intro attributed action next htraced hstep
    exact htraced.reported_iff hstep
  · exact traced_new

theorem traced_of_exec {attributed : Attributed}
    {actions : List RPCStream.Action}
    (hrun : exec step new actions = some attributed) : Traced attributed := by
  apply exec_invariant _ traced_new hrun
  intro attributed action next htraced hstep
  exact (traced_step htraced hstep).1

/-- Before the connection 2 ^ 24 the disconnects are reported. -/
theorem reported_of_opened_lt {actions : List RPCStream.Action}
    (hfew : AllSteps step (fun _ _ next => next.opened < 2 ^ 24) new
      actions) :
    AllSteps step Reported new actions := by
  apply @AllSteps.of_invariant _ _ step
    (fun attributed => Traced attributed ∧ attributed.opened < 2 ^ 24)
    (fun _ _ next => next.opened < 2 ^ 24) _ _ _ _ ⟨traced_new, by decide⟩ _
    hfew
  · rintro attributed action next ⟨htraced, -⟩ hstep hopened
    exact ⟨(traced_step htraced hstep).1, hopened⟩
  · rintro attributed action next ⟨htraced, hopened⟩ hstep -
    apply (htraced.reported_iff hstep).mpr
    cases action with
    | ioDrain =>
        intro _ conn hconn
        have hle := htraced.failed conn hconn
        rw [Tells]
        omega
    | _ => trivial

private def retrying : RPCStream.UpdateInput where
  ready := true
  onOpenStream := true
  onCloseStream := 0
  addPayload := []
  now := 0

private def noAnswer : Reply :=
  { type := 0, msgid := 0, error := none, payload := [] }

/-- The newest of `n` connections has failed. -/
private def failing (n seq back : ℕ) : Attributed where
  stream :=
    { RPCStream.new with
      status := .connecting
      reconnectAttempt := n
      iothr :=
        { IOThread.new with
          io := true
          joinable := true
          connectSequenceNum := seq
          running := .drainRequestQueue back } }
  opened := n
  owners := []
  failed := some n

/-- `n` connections were opened and are gone. -/
private def lost (n seq : ℕ) (started : Bool) : Attributed where
  stream :=
    { RPCStream.new with
      reconnectAttempt := n
      updating := .switch
      iothr :=
        { IOThread.new with
          io := started
          joinable := started
          connectSequenceNum := seq } }
  opened := n
  owners := []
  failed := none

private def opening (n seq : ℕ) : Attributed where
  stream :=
    { RPCStream.new with
      status := .connecting
      reconnectAttempt := n
      iothr :=
        { IOThread.new with
          cq := [IOThread.generateReadTag seq]
          io := true
          joinable := true
          connectSequenceNum := seq } }
  opened := n
  owners := [n]
  failed := none

/-- A connection is opened and fails, and the client notices. -/
private def outage : List RPCStream.Action :=
  [.update retrying, .ioTimeout] ++
    ([.ioEvent 0 false noAnswer] ++
      .ioDrain :: List.replicate 5 (.update retrying))

private def outages (n : ℕ) : List RPCStream.Action :=
  List.replicate 2 (.update retrying) ++ (List.replicate n outage).flatten

private theorem exec_opening (n seq : ℕ) (started : Bool) :
    exec step (lost n seq started) [.update retrying, .ioTimeout] =
      some (opening (n + 1) ((seq + 1) % 2 ^ 32)) :=
  rfl

private theorem exec_failing (n seq : ℕ) :
    exec step (opening n seq) [.ioEvent 0 false noAnswer] =
      some (failing n seq (IOThread.connectSequenceFromReadTag
        (IOThread.generateReadTag seq))) := by
  have hread := Tracked.isReadOperation_readTag seq
  simp [exec, step, opening, failing, RPCStream.new, IOThread.new,
    RPCStream.step, RPCStream.act, RPCStream.Waiting, RPCStream.handleEvent,
    RPCStream.readDone, RPCStream.onIOThread, hread, openedAfter,
    RPCStream.Opens, ownersAfter, RPCStream.Action.undelivered, failedAfter,
    owner]

private theorem exec_first :
    exec step new (outages 0 ++ ([.update retrying, .ioTimeout] ++
      [.ioEvent 0 false noAnswer])) = some (failing 1 1 1) :=
  exec_append_eq_some.mpr ⟨lost 0 0 false, rfl,
    exec_append_eq_some.mpr ⟨_, exec_opening 0 0 false, exec_failing 1 1⟩⟩

private theorem exec_noticed (n seq : ℕ) :
    exec step (failing n seq seq)
        (.ioDrain :: List.replicate 5 (.update retrying)) =
      some (lost n seq true) := by
  simp [exec, step, failing, lost, retrying, RPCStream.new, IOThread.new,
    RPCStream.step, RPCStream.act, RPCStream.ioDrain, RPCStream.onIOThread,
    RPCStream.pushReply, RPCStream.update, RPCStream.clearReqmap,
    RPCStream.settle, OrdMap.empty, openedAfter, RPCStream.Opens, ownersAfter,
    RPCStream.Action.undelivered, failedAfter, owner]

private theorem exec_outage {n : ℕ} (hfew : n + 1 < 2 ^ 24) (started : Bool) :
    exec step (lost n n started) outage = some (lost (n + 1) (n + 1) true) := by
  have hseq : (n + 1) % 2 ^ 32 = n + 1 :=
    Nat.mod_eq_of_lt (hfew.trans (by decide))
  have hback : IOThread.connectSequenceFromReadTag
      (IOThread.generateReadTag (n + 1)) = n + 1 := by
    rw [IOThread.connectSequenceFromReadTag_readTag, Nat.mod_eq_of_lt hfew]
  have hopening := exec_opening n n started
  have hfailing := exec_failing (n + 1) (n + 1)
  rw [hseq] at hopening
  rw [hback] at hfailing
  exact exec_append_eq_some.mpr ⟨_, hopening,
    exec_append_eq_some.mpr ⟨_, hfailing, exec_noticed (n + 1) (n + 1)⟩⟩

private theorem outages_succ (n : ℕ) :
    outages (n + 1) = outages n ++ outage := by
  have hflatten : (List.replicate (n + 1) outage).flatten =
      (List.replicate n outage).flatten ++ outage := by
    rw [List.replicate_succ', List.flatten_append, List.flatten_singleton]
  rw [outages, hflatten, outages, List.append_assoc]

private theorem exec_outages {n : ℕ} (hfew : n < 2 ^ 24) :
    ∃ started, exec step new (outages n) = some (lost n n started) := by
  induction n with
  | zero => exact ⟨false, rfl⟩
  | succ n ih =>
      obtain ⟨started, hrun⟩ := ih (Nat.lt_of_succ_lt hfew)
      refine ⟨true, ?_⟩
      rw [outages_succ]
      exact exec_append_eq_some.mpr ⟨_, hrun, exec_outage hfew started⟩

/-- The predicates recognise each tag as the operation of its generator, and
the number of a connection comes back from its tag exactly below 2 ^ 24.  In
every run the disconnects of the current connection are reported, and no
others, exactly if 24 bits of the numbers tell them apart at each comparison.
Left alone, the I/O thread comes to the comparison exactly if there is no
ESTABLISH_REQUEST in `requests_`. -/
theorem completion_tags_iff (kind : IOThread.TagKind) (number : ℕ)
    (actions : List RPCStream.Action) :
    (∀ other : IOThread.TagKind,
      other.isOperation (kind.generateTag number) = true ↔ other = kind) ∧
    (IOThread.connectSequenceFromReadTag (IOThread.generateReadTag number) =
      number ↔ number < 2 ^ 24) ∧
    (IOThread.connectSequenceFromCloseTag (IOThread.generateCloseTag number) =
      number ↔ number < 2 ^ 24) ∧
    (AllSteps step Reported new actions ↔
      AllSteps step (fun attributed action _ => attributed.Distinguished action)
        new actions) ∧
    ∀ attributed, exec step new actions = some attributed →
      ∀ conn ∈ attributed.failed,
        ((∃ final, exec step attributed attributed.drainAlone = some final ∧
          final.failed = none ∧
          final.stream.replys =
            attributed.stream.replys ++ attributed.report conn) ↔
          attributed.stream.crashed = false ∧
            .establishRequest ∉ attributed.stream.requests ∧
            attributed.Tells conn) := by
  refine ⟨fun other => other.isOperation_generateTag kind number, ?_, ?_,
    allSteps_reported_iff actions, ?_⟩
  · rw [IOThread.connectSequenceFromReadTag_readTag,
      Nat.mod_eq_iff_lt (by decide)]
  · rw [IOThread.connectSequenceFromCloseTag_closeTag,
      Nat.mod_eq_iff_lt (by decide)]
  · intro attributed hrun conn hconn
    exact (traced_of_exec hrun).drainAlone_iff hconn

/-- The first connection fails. -/
theorem completion_tags_iff_first :
    ∃ final, exec step (failing 1 1 1) (failing 1 1 1).drainAlone =
        some final ∧
      final.failed = none ∧ final.stream.replys = [.disconnectEvent] :=
  ((completion_tags_iff .read 1 _).2.2.2.2 _ exec_first 1 rfl).mpr
    ⟨rfl, by decide, by decide⟩

/-- The tag of the connection 2 ^ 24 is 0, and so is the number in it: the
comparison fails, and the client stays CONNECTING. -/
theorem completion_tags_iff_fails :
    IOThread.connectSequenceFromReadTag (IOThread.generateReadTag (2 ^ 24)) ≠
        2 ^ 24 ∧
      ¬AllSteps step Reported new (outages (2 ^ 24 - 1) ++ outage) := by
  refine ⟨by decide, ?_⟩
  rw [allSteps_reported_iff]
  intro hall
  obtain ⟨started, hrun⟩ := @exec_outages (2 ^ 24 - 1) (by decide)
  have hopening := exec_opening (2 ^ 24 - 1) (2 ^ 24 - 1) started
  have hfailing := exec_failing (2 ^ 24 - 1 + 1) ((2 ^ 24 - 1 + 1) % 2 ^ 32)
  have htraced := traced_of_exec (exec_append_eq_some.mpr ⟨_, hrun,
    exec_append_eq_some.mpr ⟨_, hopening, hfailing⟩⟩)
  rw [allSteps_append hrun, outage, allSteps_append hopening,
    allSteps_append hfailing] at hall
  obtain ⟨next, hstep, -⟩ := htraced.exists_ioDrain rfl rfl
  obtain ⟨-, -, -, hall⟩ := hall
  rw [allSteps_cons_of_step hstep] at hall
  exact absurd (hall.1 rfl _ rfl) (by decide)

end Attributed

end GrpcMtk
