import GrpcMtk.Client.Callbacks
import GrpcMtk.Client.Establishment
import GrpcMtk.Client.Outgoing
import GrpcMtk.Client.Tags
import GrpcMtk.Server.Answering

/-!
# A client and a server

A client with its connections, one after the other, and a server that serves
them among those of other clients.  A connection carries what each side writes
to the other in order, up to where it breaks: a read that succeeds gets the
next message, a read that fails gets none and nothing is promised of what is
still under way.

The client counts its connections by the calls of `Open`; the server knows them
by the `Conn` that has accepted them.
-/

namespace GrpcMtk

open GrpcMtk.Proto
open GrpcMtk.Runs

namespace RPCStream

/-- The request that is next in the queue, if `io_` is there to write it. -/
def nextWrite (stream : RPCStream) : Option (CallId × Request) :=
  match stream.requests with
  | .heap id request :: _ =>
      if stream.iothr.io then some (id, request) else none
  | _ => none

/-- The request that an action passes to `io_->Write`. -/
def passes (stream : RPCStream) : Action → Option (CallId × Request)
  | .ioTimeout =>
      if stream.iothr.isSending then none else stream.nextWrite
  | .ioEvent index true _ =>
      match stream.iothr.cq[index]? with
      | none => none
      | some tag =>
          if IOThread.isWriteOperation tag then stream.nextWrite else none
  | _ => none

end RPCStream

def Operation.isRead : Operation → Bool
  | .read _ => true
  | .start _ | .write => false

/-- A request of the client, on one of its connections. -/
structure Sent where
  peer : ℕ
  call : CallId
  request : Request
  deriving DecidableEq, Repr

/-- `owners` has the connection of each operation of the client, `peers` the
connection of the client that a `Conn` of the server has accepted.  `sent`
lists what the client has written, `heard` what a `Conn` has read and `tasked`
what `AddTask` has given it, and `received` counts what the client has read from
it. -/
structure Dialogue where
  client : Tracked
  owners : List ℕ
  server : Server
  peers : ConnId → Option ℕ
  sent : List Sent
  heard : ConnId → List Request
  tasked : ConnId → List Request
  received : ConnId → ℕ

namespace Dialogue

def init : Dialogue where
  client := .new
  owners := []
  server := .init
  peers _ := none
  sent := []
  heard _ := []
  tasked _ := []
  received _ := 0

/-- What the client has written on one of its connections. -/
def sentOn (dialogue : Dialogue) (peer : ℕ) : List Sent :=
  dialogue.sent.filter fun sent => sent.peer = peer

/-- What a `Conn` has read of it. -/
def readBy (dialogue : Dialogue) (conn : ConnId) : List Sent :=
  match dialogue.peers conn with
  | none => []
  | some peer => (dialogue.sentOn peer).take (dialogue.heard conn).length

inductive Action where
  /-- The client does something, but receives nothing. -/
  | client (action : RPCStream.Action)
  /-- A read of the client gets the next reply of a `Conn`.  If the read was
  into the Reply that `reply_work_` points to, that is what it holds now. -/
  | receive (index : ℕ) (conn : ConnId) (reply : Reply)
  /-- The server does something, but receives nothing from the client. -/
  | server (action : Server.Action)
  /-- A `Conn` accepts a connection of the client. -/
  | accept (conn : ConnId) (peer : ℕ)
  /-- A Read of a `Conn` gets the next request of the client. -/
  | read (conn : ConnId) (acceptor : AcceptorResult)
      (results : List HandlerResult)

/-- The action takes a reply out of a read of the client. -/
def Receives (dialogue : Dialogue) : RPCStream.Action → Prop
  | .ioEvent index true _ =>
      (dialogue.client.operations.pending[index]?).any Operation.isRead = true
  | _ => False

instance (dialogue : Dialogue) : ∀ action, Decidable (dialogue.Receives action)
  | .ioEvent _ true _ => inferInstanceAs (Decidable (_ = _))
  | .ioEvent _ false _ | .release | .releaseEnqueue | .callBegin _
  | .callNumber _ _ | .callEnqueue _ | .callInsert _ | .update _ | .stop
  | .stopTimeout | .ioTimeout | .ioShutdown | .ioDrain => isFalse nofun

/-- What the client starts, it starts on its newest connection. -/
def clientStep (action : RPCStream.Action) (dialogue : Dialogue) :
    Option Dialogue :=
  (dialogue.client.step action).map fun client =>
    let kept := action.undelivered dialogue.owners
    { dialogue with
      client
      owners := kept ++
        List.replicate (client.operations.pending.length - kept.length)
          client.operations.opened
      sent := dialogue.sent ++
        (dialogue.client.stream.passes action).toList.map fun write =>
          { peer := dialogue.client.operations.opened
            call := write.1
            request := write.2 } }

/-- An action that completes a Read of another client, or an operation of a
`Conn` of this one that reads nothing: only Finish and Read are tagged with a
`Conn` that has its peer, and the former leaves `req_` as it is. -/
def Foreign (dialogue : Dialogue) : Server.Action → Prop
  | .complete conn true request _ _ => dialogue.peers conn = none ∨
      ∃ self ∈ dialogue.server.conns conn,
        self.stream.finishes ≠ 0 ∧ request = self.req
  | _ => True

/-- The requests that the server reads, from this client or another one. -/
def heardAfter (dialogue : Dialogue) : Server.Action → ConnId → List Request
  | .complete conn true request _ _ =>
      match dialogue.server.conns conn with
      | none => dialogue.heard
      | some self =>
          if self.status = .accept then dialogue.heard
          else if dialogue.peers conn = none then
            Function.update dialogue.heard conn
              (dialogue.heard conn ++ [request])
          else dialogue.heard
  | _ => dialogue.heard

def taskedAfter (dialogue : Dialogue) : Server.Action → ConnId → List Request
  | .addTask conn request =>
      Function.update dialogue.tasked conn (dialogue.tasked conn ++ [request])
  | _ => dialogue.tasked

def noRequest : Request where
  type := 0
  msgid := 0
  kind := .normal
  payload := []

def noAcceptor : AcceptorResult where
  cid := 0
  calls := []
  slice := []

instance (dialogue : Dialogue) : ∀ action, Decidable (dialogue.Foreign action)
  | .complete _ true _ _ _ => inferInstanceAs (Decidable (_ ∨ _))
  | .complete _ false _ _ _ | .launch _ | .consume _ _ | .shutdown _ _
  | .prepareShutdown _ | .finishLogin _ _ _ _ | .postLogin _ _ | .getStream _
  | .closeStream _ | .addTask _ _ | .send _ _ | .writeDone _ _
  | .closerDone _ _ => isTrue trivial

def step (codec : Codec) (dialogue : Dialogue) : Action → Option Dialogue
  | .client action =>
      if dialogue.Receives action then none else dialogue.clientStep action
  | .receive index conn reply =>
      match dialogue.server.conns conn with
      | none => none
      | some self =>
          if (dialogue.client.operations.pending[index]?).any
                Operation.isRead ∧
              dialogue.peers conn ≠ none ∧
              dialogue.peers conn = dialogue.owners[index]? ∧
              dialogue.received conn < self.stream.written.length ∧
              (dialogue.client.Fills index →
                self.stream.written[dialogue.received conn]? =
                  some reply) then
            (dialogue.clientStep (.ioEvent index true reply)).map
              fun next => { next with
                received := Function.update dialogue.received conn
                  (dialogue.received conn + 1) }
          else none
  | .server action =>
      if dialogue.Foreign action then
        (dialogue.server.step codec action).map fun server =>
          { dialogue with
            server
            heard := dialogue.heardAfter action
            tasked := dialogue.taskedAfter action }
      else none
  | .accept conn peer =>
      match dialogue.server.conns conn with
      | none => none
      | some self =>
          if self.status = .accept ∧ 1 ≤ peer ∧
              peer ≤ dialogue.client.operations.opened ∧
              ∀ other < dialogue.server.next,
                dialogue.peers other ≠ some peer then
            (dialogue.server.step codec
              (.complete conn true noRequest noAcceptor [])).map
                fun server => { dialogue with
                  server
                  peers := Function.update dialogue.peers conn (some peer) }
          else none
  | .read conn acceptor results =>
      match dialogue.peers conn with
      | none => none
      | some peer =>
          match (dialogue.sentOn peer)[(dialogue.heard conn).length]? with
          | none => none
          | some sent =>
              (dialogue.server.step codec
                (.complete conn true sent.request acceptor results)).map
                  fun server => { dialogue with
                    server
                    heard := Function.update dialogue.heard conn
                      (dialogue.heard conn ++ [sent.request]) }

/-! ## What each action does -/

section Inversion

variable {codec : Codec} {dialogue next : Dialogue}

theorem step_client {action : RPCStream.Action}
    (hstep : dialogue.step codec (.client action) = some next) :
    ¬dialogue.Receives action ∧ dialogue.clientStep action = some next := by
  rw [step] at hstep
  split at hstep
  · contradiction
  case isFalse hreceives => exact ⟨hreceives, hstep⟩

theorem step_receive {index : ℕ} {conn : ConnId} {reply : Reply}
    (hstep : dialogue.step codec (.receive index conn reply) = some next) :
    ∃ self middle, dialogue.server.conns conn = some self ∧
      dialogue.peers conn ≠ none ∧
      (dialogue.client.Fills index →
        self.stream.written[dialogue.received conn]? = some reply) ∧
      dialogue.clientStep (.ioEvent index true reply) = some middle ∧
      next = { middle with
        received := Function.update dialogue.received conn
          (dialogue.received conn + 1) } := by
  rw [step] at hstep
  split at hstep
  · contradiction
  case h_2 self hconn =>
    split at hstep
    case isTrue hread =>
      obtain ⟨middle, hmiddle, rfl⟩ := Option.map_eq_some_iff.mp hstep
      exact ⟨self, middle, hconn, hread.2.1, hread.2.2.2.2, hmiddle, rfl⟩
    · contradiction

theorem step_server {action : Server.Action}
    (hstep : dialogue.step codec (.server action) = some next) :
    dialogue.Foreign action ∧ ∃ server,
      dialogue.server.step codec action = some server ∧
      next = { dialogue with
        server
        heard := dialogue.heardAfter action
        tasked := dialogue.taskedAfter action } := by
  rw [step] at hstep
  split at hstep
  case isTrue hforeign =>
    obtain ⟨server, hserver, rfl⟩ := Option.map_eq_some_iff.mp hstep
    exact ⟨hforeign, server, hserver, rfl⟩
  · contradiction

theorem step_accept {conn : ConnId} {peer : ℕ}
    (hstep : dialogue.step codec (.accept conn peer) = some next) :
    ∃ self server, dialogue.server.conns conn = some self ∧
      self.status = .accept ∧
      (∀ other < dialogue.server.next, dialogue.peers other ≠ some peer) ∧
      dialogue.server.step codec
        (.complete conn true noRequest noAcceptor []) = some server ∧
      next = { dialogue with
        server
        peers := Function.update dialogue.peers conn (some peer) } := by
  rw [step] at hstep
  split at hstep
  · contradiction
  case h_2 self hconn =>
    split at hstep
    case isTrue hopen =>
      obtain ⟨server, hserver, rfl⟩ := Option.map_eq_some_iff.mp hstep
      exact ⟨self, server, hconn, hopen.1, hopen.2.2.2, hserver, rfl⟩
    · contradiction

theorem step_read {conn : ConnId} {acceptor : AcceptorResult}
    {results : List HandlerResult}
    (hstep : dialogue.step codec (.read conn acceptor results) = some next) :
    ∃ peer sent server, dialogue.peers conn = some peer ∧
      (dialogue.sentOn peer)[(dialogue.heard conn).length]? = some sent ∧
      dialogue.server.step codec
        (.complete conn true sent.request acceptor results) = some server ∧
      next = { dialogue with
        server
        heard := Function.update dialogue.heard conn
          (dialogue.heard conn ++ [sent.request]) } := by
  rw [step] at hstep
  split at hstep
  · contradiction
  case h_2 peer hpeer =>
    split at hstep
    · contradiction
    case h_2 sent hsent =>
      obtain ⟨server, hserver, rfl⟩ := Option.map_eq_some_iff.mp hstep
      exact ⟨peer, sent, server, hpeer, hsent, hserver, rfl⟩

theorem clientStep_eq {action : RPCStream.Action}
    (hstep : dialogue.clientStep action = some next) :
    dialogue.client.step action = some next.client ∧
      next.server = dialogue.server ∧ next.peers = dialogue.peers ∧
      next.heard = dialogue.heard ∧ next.tasked = dialogue.tasked ∧
      next.sent = dialogue.sent ++
        (dialogue.client.stream.passes action).toList.map fun write =>
          { peer := dialogue.client.operations.opened
            call := write.1
            request := write.2 } := by
  obtain ⟨client, hclient, rfl⟩ := Option.map_eq_some_iff.mp hstep
  exact ⟨hclient, rfl, rfl, rfl, rfl, rfl⟩

end Inversion

end Dialogue

/-! ## What the client writes -/

namespace RPCStream

section Writes

variable {stream next : RPCStream} {call : CallId} {request : Request}

theorem nextWrite_eq (hwrite : stream.nextWrite = some (call, request)) :
    ∃ rest, stream.requests = .heap call request :: rest ∧
      stream.iothr.io = true := by
  unfold nextWrite at hwrite
  split at hwrite
  case h_1 id request' rest hrequests =>
    split at hwrite
    case isTrue hio =>
      cases hwrite
      exact ⟨rest, hrequests, hio⟩
    · contradiction
  · contradiction

/-- What is written is taken from the queue. -/
theorem consumed_of_passes {action : Action}
    (hact : stream.act action = some next)
    (hwrite : stream.passes action = some (call, request)) :
    .heap call request ∈ stream.requests ∧
      next.consumed = .heap call request :: stream.consumed := by
  cases action with
  | ioTimeout =>
      rw [passes] at hwrite
      split at hwrite
      · contradiction
      case isFalse hsending =>
        obtain ⟨rest, hrequests, hio⟩ := nextWrite_eq hwrite
        refine ⟨hrequests ▸ List.mem_cons_self, ?_⟩
        rw [act] at hact
        split at hact
        · obtain rfl := Option.some.inj hact
          simp [ioTimeout, hsending, hrequests, writeRequest, hio, onIOThread]
        · contradiction
  | ioEvent index ok reply =>
      cases ok with
      | false => simp [passes] at hwrite
      | true =>
          rw [passes] at hwrite
          split at hwrite
          · contradiction
          case h_2 tag htag =>
            split at hwrite
            case isTrue hkind =>
              obtain ⟨rest, hrequests, hio⟩ := nextWrite_eq hwrite
              refine ⟨hrequests ▸ List.mem_cons_self, ?_⟩
              rw [act, htag] at hact
              dsimp only at hact
              split at hact
              · obtain rfl := Option.some.inj hact
                simp [handleEvent, hkind, writeDone, onIOThread, hrequests,
                  writeRequest, hio]
              · contradiction
            · contradiction
  | _ => simp [passes] at hwrite

/-- What was taken from the queue is never forgotten. -/
theorem consumed_subset {items : List RequestItem}
    (hpassage : Passage stream next items) :
    stream.consumed ⊆ next.consumed := by
  cases hpassage with
  | used item hcalls hconsumed =>
      exact hconsumed ▸ List.subset_cons_self _ _
  | kept _ hconsumed | opened _ hconsumed | attempted _ hconsumed
  | begun _ _ _ hconsumed | numbered _ _ _ _ _ _ _ _ hconsumed
  | enqueued _ _ _ _ _ _ _ hconsumed | inserted _ _ _ _ hconsumed
  | made _ _ _ _ hconsumed => exact hconsumed ▸ List.Subset.refl _

/-- A msgid that a call has got stays its own. -/
theorem issued_subset {items : List RequestItem}
    (hpassage : Passage stream next items) :
    stream.issued ⊆ next.issued := by
  cases hpassage with
  | kept hcalls | opened hcalls | used _ hcalls | attempted hcalls =>
      exact hcalls.issued ▸ List.Subset.refl _
  | begun _ _ hissued | numbered _ _ _ _ _ _ _ hissued
  | inserted _ _ _ hissued => exact hissued ▸ List.Subset.refl _
  | enqueued _ _ _ _ _ _ hissued => exact hissued ▸ List.subset_cons_self _ _
  | made _ _ _ hissued =>
      rcases hissued with ⟨hsame, -⟩ | hadded
      · exact hsame ▸ List.Subset.refl _
      · exact hadded ▸ List.subset_cons_self _ _

end Writes

end RPCStream

/-! ## What the server reads -/

/-- A `Conn` that has accepted an rpc waits for the login. -/
theorem Server.accepted {codec : Codec} {server next : Server} {conn : ConnId}
    {self : Conn} {request : Request} {acceptor : AcceptorResult}
    {results : List HandlerResult} (hwf : server.WellFormed)
    (hconn : server.conns conn = some self) (hstatus : self.status = .accept)
    (hstep : server.step codec
      (.complete conn true request acceptor results) = some next) :
    ∃ self', next.conns conn = some self' ∧ self'.status = .login := by
  obtain ⟨-, -, -, rfl⟩ := step_complete hstep
  have hkept : (server.newConn codec self.worker).conns conn = some self := by
    rw [newConn_eq]
    refine (Function.update_of_ne ?_ _ _).trans hconn
    rintro rfl
    rw [hwf.fresh] at hconn
    contradiction
  rw [complete, hconn]
  dsimp only
  rw [if_pos ⟨rfl, hstatus⟩, runConn_of_some hkept]
  refine ⟨_, Function.update_self _ _ _, ?_⟩
  simp [World.process, World.step, hstatus, World.recv,
    World.startOperation]

namespace Dialogue

/-- A request is sent once, on one connection, and read at most once, by the
one `Conn` that has accepted the connection, in the order it was sent. -/
structure Delivering (dialogue : Dialogue) : Prop where
  outgoing : dialogue.client.stream.Outgoing
  wellFormed : dialogue.server.WellFormed
  once : (dialogue.sent.map Sent.call).Nodup
  written : ∀ sent ∈ dialogue.sent,
    .heap sent.call sent.request ∈ dialogue.client.stream.consumed
  made : ∀ conn self, dialogue.server.conns conn = some self →
    1 ≤ self.status.stage
  waiting : ∀ conn self, dialogue.server.conns conn = some self →
    self.status = .accept → dialogue.heard conn = [] ∧
      dialogue.peers conn = none
  future : ∀ conn, dialogue.server.conns conn = none →
    dialogue.heard conn = [] ∧ dialogue.peers conn = none
  unshared : ∀ conn other peer, dialogue.peers conn = some peer →
    dialogue.peers other = some peer → conn = other
  heard : ∀ conn, dialogue.peers conn ≠ none →
    dialogue.heard conn = (dialogue.readBy conn).map Sent.request

theorem delivering_init : Delivering init where
  outgoing := RPCStream.outgoing_new
  wellFormed := Server.wellFormed_init
  once := List.nodup_nil
  written _ hsent := absurd hsent List.not_mem_nil
  made _ _ hconn := absurd hconn (Option.some_ne_none _).symm
  waiting _ _ hconn := absurd hconn (Option.some_ne_none _).symm
  future _ _ := ⟨rfl, rfl⟩
  unshared _ _ _ hpeer := absurd hpeer (Option.some_ne_none _).symm
  heard _ hpeer := absurd rfl hpeer

section Delivering

variable {codec : Codec} {dialogue next : Dialogue}

/-- No more is read than was sent. -/
theorem Delivering.length_heard_le (hdelivering : Delivering dialogue)
    {conn : ConnId} {peer : ℕ} (hpeer : dialogue.peers conn = some peer) :
    (dialogue.heard conn).length ≤ (dialogue.sentOn peer).length := by
  have hheard := congrArg List.length
    (hdelivering.heard conn (by rw [hpeer]; exact Option.some_ne_none _))
  rw [readBy, hpeer, List.length_map, List.length_take] at hheard
  omega

/-- Sending more leaves what was read as it is. -/
theorem Delivering.readBy_eq (hdelivering : Delivering dialogue)
    (hpeers : next.peers = dialogue.peers)
    (hheard : next.heard = dialogue.heard) {more : List Sent}
    (hsent : next.sent = dialogue.sent ++ more) (conn : ConnId) :
    next.readBy conn = dialogue.readBy conn := by
  rw [readBy, readBy, hpeers, hheard]
  cases hpeer : dialogue.peers conn with
  | none => rfl
  | some peer =>
      have hlength := hdelivering.length_heard_le hpeer
      dsimp only
      rw [sentOn, hsent, List.filter_append]
      exact List.take_append_of_le_length hlength

/-- What is written has not been written before. -/
theorem Delivering.unsent (hdelivering : Delivering dialogue) {call : CallId}
    {request : Request}
    (hqueued : .heap call request ∈ dialogue.client.stream.requests) :
    call ∉ dialogue.sent.map Sent.call := by
  intro hmem
  obtain ⟨sent, hsent, rfl⟩ := List.mem_map.mp hmem
  have honce := hdelivering.outgoing.once
  rw [RPCStream.made, List.filterMap_append, List.nodup_append] at honce
  exact honce.2.2 _
    (List.mem_filterMap.mpr ⟨_, hdelivering.written sent hsent, rfl⟩) _
    (List.mem_filterMap.mpr ⟨_, hqueued, rfl⟩) rfl

theorem Delivering.clientStep {action : RPCStream.Action}
    (hdelivering : Delivering dialogue)
    (hstep : dialogue.clientStep action = some next) : Delivering next := by
  obtain ⟨hclient, hserver, hpeers, hheard, -, hsent⟩ := clientStep_eq hstep
  have hact := (RPCStream.step_eq_some.mp
    (Tracked.step_eq_some.mp hclient).1).2
  have hpassage := RPCStream.passage_of_did (RPCStream.did_of_act hact)
  have hkept := RPCStream.consumed_subset hpassage
  have hwrites : (next.sent.map Sent.call).Nodup ∧ ∀ sent ∈ next.sent,
      .heap sent.call sent.request ∈ next.client.stream.consumed := by
    cases hwrite : dialogue.client.stream.passes action with
    | none =>
        rw [hsent, hwrite, Option.toList_none, List.map_nil, List.append_nil]
        exact ⟨hdelivering.once, fun sent hold =>
          hkept (hdelivering.written sent hold)⟩
    | some write =>
        obtain ⟨hqueued, hconsumed⟩ :=
          RPCStream.consumed_of_passes hact hwrite
        rw [hsent, hwrite, Option.toList_some, List.map_singleton]
        constructor
        · rw [List.map_append, List.nodup_append]
          refine ⟨hdelivering.once, List.nodup_singleton _, ?_⟩
          rintro call hcall other hother rfl
          have hsame : call = write.1 := List.mem_singleton.mp hother
          exact hdelivering.unsent hqueued (hsame ▸ hcall)
        · intro sent hmem
          rcases List.mem_append.mp hmem with hold | hnew
          · exact hkept (hdelivering.written sent hold)
          · rw [List.mem_singleton.mp hnew, hconsumed]
            exact List.mem_cons_self
  exact {
    outgoing := hdelivering.outgoing.of_passage hpassage
    wellFormed := hserver ▸ hdelivering.wellFormed
    once := hwrites.1
    written := hwrites.2
    made := hserver ▸ hdelivering.made
    waiting := by
      rw [hserver, hheard, hpeers]
      exact hdelivering.waiting
    future := by
      rw [hserver, hheard, hpeers]
      exact hdelivering.future
    unshared := hpeers ▸ hdelivering.unshared
    heard := fun conn hpeer => by
      rw [hdelivering.readBy_eq hpeers hheard hsent, hheard]
      exact hdelivering.heard conn (hpeers ▸ hpeer) }

/-- What stays when the server takes a step: `heard` and `peers` are kept but
for one `Conn`, which is there and does not wait for its peer any more. -/
theorem Delivering.of_goes (hdelivering : Delivering dialogue)
    (hclient : next.client = dialogue.client)
    (hsent : next.sent = dialogue.sent)
    (hgoes : Server.Goes dialogue.server next.server)
    (hwf : next.server.WellFormed)
    (hchanged : ∀ conn, next.heard conn = dialogue.heard conn ∧
        next.peers conn = dialogue.peers conn ∨
      ∃ self, next.server.conns conn = some self ∧ self.status ≠ .accept)
    (hunshared : ∀ conn other peer, next.peers conn = some peer →
      next.peers other = some peer → conn = other)
    (hheard : ∀ conn, next.peers conn ≠ none →
      next.heard conn = (next.readBy conn).map Sent.request) :
    Delivering next where
  outgoing := hclient ▸ hdelivering.outgoing
  wellFormed := hwf
  once := hsent ▸ hdelivering.once
  written := by
    rw [hsent, hclient]
    exact hdelivering.written
  made conn self hconn := by
    cases hold : dialogue.server.conns conn with
    | none => exact hgoes.made conn self hconn hold
    | some state =>
        obtain ⟨self', hself', -, hstage⟩ := hgoes.kept conn state hold
        rw [hconn, Option.some.injEq] at hself'
        exact Nat.le_trans (hdelivering.made conn state hold)
          (hself' ▸ hstage)
  waiting conn self hconn hstatus := by
    rcases hchanged conn with ⟨hsame, hpeer⟩ | ⟨self', hself', hmet⟩
    · rw [hsame, hpeer]
      cases hold : dialogue.server.conns conn with
      | none => exact hdelivering.future conn hold
      | some state =>
          obtain ⟨self', hself', -, hstage⟩ := hgoes.kept conn state hold
          rw [hconn, Option.some.injEq] at hself'
          subst hself'
          have hmade := hdelivering.made conn state hold
          rw [hstatus] at hstage
          refine hdelivering.waiting conn state hold ?_
          revert hstage hmade
          cases state.status <;> decide
    · rw [hconn, Option.some.injEq] at hself'
      exact absurd (hself' ▸ hstatus) hmet
  future conn hnone := by
    have hold : dialogue.server.conns conn = none := by
      by_contra hsome
      obtain ⟨state, hstate⟩ := Option.ne_none_iff_exists'.mp hsome
      obtain ⟨self', hself', -⟩ := hgoes.kept conn state hstate
      rw [hnone] at hself'
      contradiction
    rcases hchanged conn with ⟨hsame, hpeer⟩ | ⟨self', hself', -⟩
    · rw [hsame, hpeer]
      exact hdelivering.future conn hold
    · rw [hnone] at hself'
      contradiction
  unshared := hunshared
  heard := hheard

/-- Only a `Conn` that is there has a peer. -/
theorem Delivering.bound (hdelivering : Delivering dialogue) {conn : ConnId}
    (hpeer : dialogue.peers conn ≠ none) :
    ∃ self, dialogue.server.conns conn = some self := by
  refine Option.ne_none_iff_exists'.mp fun hnone => ?_
  exact hpeer (hdelivering.future conn hnone).2

theorem heardAfter_cases (dialogue : Dialogue) (action : Server.Action) :
    dialogue.heardAfter action = dialogue.heard ∨
      ∃ conn request acceptor results self,
        action = .complete conn true request acceptor results ∧
        dialogue.server.conns conn = some self ∧ self.status ≠ .accept ∧
        dialogue.peers conn = none ∧
        dialogue.heardAfter action = Function.update dialogue.heard conn
          (dialogue.heard conn ++ [request]) := by
  cases action with
  | complete conn ok request acceptor results =>
      cases ok with
      | false => exact Or.inl rfl
      | true =>
          rw [heardAfter]
          split
          · exact Or.inl rfl
          case h_2 self hconn =>
            split
            · exact Or.inl rfl
            case isFalse hstatus =>
              split
              case isTrue hpeer =>
                exact Or.inr ⟨conn, request, acceptor, results, self, rfl,
                  hconn, hstatus, hpeer, rfl⟩
              · exact Or.inl rfl
  | _ => exact Or.inl rfl

theorem sublist_update_append (heard : ConnId → List Request) (conn : ConnId)
    (request : Request) (other : ConnId) :
    List.Sublist (heard other)
      (Function.update heard conn (heard conn ++ [request]) other) := by
  by_cases hsame : other = conn
  · subst hsame
    rw [Function.update_self]
    exact List.sublist_append_left _ _
  · rw [Function.update_of_ne hsame]

/-- What was read stays read. -/
theorem sublist_heardAfter (dialogue : Dialogue) (action : Server.Action)
    (other : ConnId) :
    List.Sublist (dialogue.heard other) (dialogue.heardAfter action other) := by
  rcases heardAfter_cases dialogue action with hsame |
    ⟨conn, request, acceptor, results, self, -, -, -, -, hheard⟩
  · rw [hsame]
  · rw [hheard]
    exact sublist_update_append _ conn request other

/-- A `Conn` that has met its peer does not wait for one after a step. -/
theorem Delivering.met (hdelivering : Delivering dialogue) {server : Server}
    (hgoes : Server.Goes dialogue.server server) {conn : ConnId} {self : Conn}
    (hconn : dialogue.server.conns conn = some self)
    (hstatus : self.status ≠ .accept) :
    ∃ self', server.conns conn = some self' ∧ self'.status ≠ .accept := by
  obtain ⟨self', hself', -, hstage⟩ := hgoes.kept conn self hconn
  refine ⟨self', hself', fun haccept => hstatus ?_⟩
  have hmade := hdelivering.made conn self hconn
  rw [haccept] at hstage
  revert hstage hmade
  cases self.status <;> decide

theorem Delivering.step {action : Action} (hdelivering : Delivering dialogue)
    (hstep : dialogue.step codec action = some next) : Delivering next := by
  cases action with
  | client action => exact hdelivering.clientStep (step_client hstep).2
  | receive index conn reply =>
      obtain ⟨_, middle, -, -, -, hmiddle, rfl⟩ := step_receive hstep
      have hdone := hdelivering.clientStep hmiddle
      exact { hdone with }
  | server action =>
      obtain ⟨-, server, hserver, rfl⟩ := step_server hstep
      have hgoes := Server.goes_step hdelivering.wellFormed hserver
      have hwf := Server.wellFormed_step hdelivering.wellFormed hserver
      rcases heardAfter_cases dialogue action with hsame |
        ⟨conn, request, acceptor, results, self, -, hconn, hstatus, hpeer,
          hheard⟩
      · refine hdelivering.of_goes rfl rfl hgoes hwf
          (fun conn => Or.inl ⟨congrFun hsame conn, rfl⟩)
          hdelivering.unshared fun conn hpeer => ?_
        have hread := hdelivering.heard conn hpeer
        rw [readBy] at hread ⊢
        dsimp only at hread ⊢
        rw [hsame]
        exact hread
      · refine hdelivering.of_goes rfl rfl hgoes hwf (fun other => ?_)
          hdelivering.unshared fun other hother => ?_
        · by_cases hsame : other = conn
          · exact Or.inr (hsame ▸ hdelivering.met hgoes hconn hstatus)
          · refine Or.inl ⟨?_, rfl⟩
            exact (congrFun hheard other).trans
              (Function.update_of_ne hsame _ _)
        · have hne : other ≠ conn := by
            rintro rfl
            exact hother hpeer
          have hsame : dialogue.heardAfter action other =
              dialogue.heard other :=
            (congrFun hheard other).trans (Function.update_of_ne hne _ _)
          have hread := hdelivering.heard other hother
          rw [readBy] at hread ⊢
          dsimp only at hread ⊢
          rw [hsame]
          exact hread
  | accept conn peer =>
      obtain ⟨self, server, hconn, hstatus, hfree, hserver, rfl⟩ :=
        step_accept hstep
      have hgoes := Server.goes_step hdelivering.wellFormed hserver
      have hwf := Server.wellFormed_step hdelivering.wellFormed hserver
      obtain ⟨self', hself', hlogin⟩ :=
        Server.accepted hdelivering.wellFormed hconn hstatus hserver
      have hnothing := (hdelivering.waiting conn self hconn hstatus).1
      have hkept : ∀ other, other ≠ conn →
          Function.update dialogue.peers conn (some peer) other =
            dialogue.peers other :=
        fun other hne => Function.update_of_ne hne _ _
      have hfree' : ∀ other, dialogue.peers other ≠ some peer := by
        intro other hother
        obtain ⟨state, hstate⟩ := hdelivering.bound
          (hother ▸ Option.some_ne_none peer)
        exact hfree other (hdelivering.wellFormed.known other state hstate).2
          hother
      refine hdelivering.of_goes rfl rfl hgoes hwf (fun other => ?_)
        (fun one other common hone hother => ?_) fun other hother => ?_
      · by_cases hsame : other = conn
        · subst hsame
          exact Or.inr ⟨self', hself', by rw [hlogin]; nofun⟩
        · exact Or.inl ⟨rfl, hkept other hsame⟩
      · dsimp only at hone hother
        by_cases hsame : one = conn <;> by_cases hsame' : other = conn
        · exact hsame.trans hsame'.symm
        · rw [hsame, Function.update_self, Option.some.injEq] at hone
          rw [hkept other hsame', ← hone] at hother
          exact absurd hother (hfree' other)
        · rw [hsame', Function.update_self, Option.some.injEq] at hother
          rw [hkept one hsame, ← hother] at hone
          exact absurd hone (hfree' one)
        · rw [hkept one hsame] at hone
          rw [hkept other hsame'] at hother
          exact hdelivering.unshared one other common hone hother
      · by_cases hsame : other = conn
        · subst hsame
          simp only [readBy, Function.update_self, hnothing,
            List.length_nil, List.take_zero, List.map_nil]
        · have hread := hdelivering.heard other (hkept other hsame ▸ hother)
          rw [readBy] at hread ⊢
          dsimp only at hread ⊢
          rw [hkept other hsame]
          exact hread
  | read conn acceptor results =>
      obtain ⟨peer, sent, server, hpeer, hsent, hserver, rfl⟩ :=
        step_read hstep
      have hgoes := Server.goes_step hdelivering.wellFormed hserver
      have hwf := Server.wellFormed_step hdelivering.wellFormed hserver
      obtain ⟨self, hconn⟩ :=
        hdelivering.bound (hpeer ▸ Option.some_ne_none peer)
      have hstatus : self.status ≠ .accept := fun haccept => by
        have hnone := (hdelivering.waiting conn self hconn haccept).2
        rw [hpeer] at hnone
        contradiction
      have hread := hdelivering.heard conn (hpeer ▸ Option.some_ne_none peer)
      refine hdelivering.of_goes rfl rfl hgoes hwf (fun other => ?_)
        hdelivering.unshared fun other hother => ?_
      · by_cases hsame : other = conn
        · subst hsame
          exact Or.inr (hdelivering.met hgoes hconn hstatus)
        · exact Or.inl ⟨Function.update_of_ne hsame _ _, rfl⟩
      · by_cases hsame : other = conn
        · subst hsame
          simp only [readBy, hpeer] at hread
          simp only [readBy, hpeer, Function.update_self, List.length_append,
            List.length_singleton]
          have hnext : (dialogue.sentOn peer).take
              ((dialogue.heard other).length + 1) =
              (dialogue.sentOn peer).take (dialogue.heard other).length ++
                [sent] := by
            rw [List.take_add_one, hsent, Option.toList_some]
          exact (congrArg (· ++ [sent.request]) hread).trans (by
            rw [← List.map_singleton, ← List.map_append]
            exact congrArg _ hnext.symm)
        · have hread := hdelivering.heard other hother
          rw [readBy] at hread ⊢
          dsimp only at hread ⊢
          rw [Function.update_of_ne hsame]
          exact hread

theorem Delivering.of_reachable {actions : List Action}
    (hrun : exec (Dialogue.step codec) init actions = some dialogue) :
    Delivering dialogue :=
  exec_invariant (fun _ _ _ => Delivering.step) delivering_init hrun

/-- What a `Conn` reads was sent, on the connection it has accepted. -/
theorem of_mem_readBy {conn : ConnId} {sent : Sent}
    (hread : sent ∈ dialogue.readBy conn) :
    sent ∈ dialogue.sent ∧ dialogue.peers conn = some sent.peer := by
  rw [readBy] at hread
  split at hread
  · exact absurd hread List.not_mem_nil
  case h_2 peer hpeer =>
    obtain ⟨hsent, hon⟩ := List.mem_filter.mp (List.mem_of_mem_take hread)
    exact ⟨hsent, (of_decide_eq_true hon).symm ▸ hpeer⟩

theorem sublist_readBy (dialogue : Dialogue) (conn : ConnId) :
    List.Sublist (dialogue.readBy conn) dialogue.sent := by
  rw [readBy]
  split
  · exact List.nil_sublist _
  · exact (List.take_sublist _ _).trans List.filter_sublist

/-- The request of a call is read by one `Conn` at most. -/
theorem Delivering.apart (hdelivering : Delivering dialogue)
    {conn other : ConnId} {one two : Sent} (hone : one ∈ dialogue.readBy conn)
    (htwo : two ∈ dialogue.readBy other) (hcall : one.call = two.call) :
    conn = other ∧ one = two := by
  obtain ⟨hsent, hpeer⟩ := of_mem_readBy hone
  obtain ⟨hsent', hpeer'⟩ := of_mem_readBy htwo
  have hsame := List.inj_on_of_nodup_map hdelivering.once hsent hsent' hcall
  exact ⟨hdelivering.unshared conn other one.peer hpeer (hsame ▸ hpeer'),
    hsame⟩

theorem Delivering.nodup_readBy (hdelivering : Delivering dialogue)
    (conn : ConnId) : ((dialogue.readBy conn).map Sent.call).Nodup :=
  hdelivering.once.sublist ((dialogue.sublist_readBy conn).map _)

/-- However a client and a server that serves it go on, and however often the
client connects, a `Conn` that has accepted a connection of the client reads
what was sent on it in the order it was sent, and the request of a call is read
once at most, by one `Conn` at most. -/
theorem read_once (codec : Codec) (actions : List Action) (dialogue : Dialogue)
    (hrun : exec (Dialogue.step codec) init actions = some dialogue) :
    (∀ conn, dialogue.peers conn ≠ none →
        dialogue.heard conn = (dialogue.readBy conn).map Sent.request) ∧
      (∀ conn, ((dialogue.readBy conn).map Sent.call).Nodup) ∧
      ∀ conn other one two, one ∈ dialogue.readBy conn →
        two ∈ dialogue.readBy other → one.call = two.call →
          conn = other ∧ one = two := by
  have hdelivering := Delivering.of_reachable hrun
  exact ⟨hdelivering.heard, hdelivering.nodup_readBy,
    fun _ _ _ _ => hdelivering.apart⟩

end Delivering

/-- `Update` runs some times, with the application ready to log in. -/
def updates (times : ℕ) : List Action :=
  List.replicate times (.client (.update
    { ready := true
      onOpenStream := true
      onCloseStream := 0
      addPayload := []
      now := 1 }))

/-- The client connects, logs in and calls; the handler replies, and the
callback runs. -/
def exchange : List Action :=
  let nothing : Reply := { type := 0, msgid := 0, error := none, payload := [] }
  let acceptor : AcceptorResult := { cid := 1, calls := [], slice := [] }
  let request : Request :=
    { type := 1, msgid := 0, kind := .normal, payload := [] }
  let replied : Reply := { type := 1, msgid := 2, error := none, payload := [] }
  [.server (.launch 0)] ++ updates 3 ++
    [.client .ioTimeout, .accept 0 1, .client (.ioEvent 0 true nothing)] ++
    updates 7 ++ [.client .ioTimeout] ++
    [.read 0 acceptor [],
      .receive 0 0 { type := 0, msgid := 1, error := none, payload := [8, 1] }
      ] ++ updates 4 ++
    [.client (.callBegin request), .client (.callNumber 1 1),
      .client (.callEnqueue 1), .client (.callInsert 1),
      .client (.ioEvent 0 true nothing),
      .read 0 acceptor [{ ok := true, close := false }],
      .server (.writeDone 0 true), .server (.send 0 replied),
      .receive 0 0 replied] ++ updates 9

theorem read_once_exchange :
    ∃ dialogue, exec (step Codec.small) init exchange = some dialogue ∧
      (dialogue.readBy 0).map Sent.call = [0, 1] ∧
      dialogue.heard 0 = (dialogue.readBy 0).map Sent.request := by
  obtain ⟨dialogue, hrun⟩ := Option.isSome_iff_exists.mp
    (by decide +kernel :
      (exec (step Codec.small) init exchange).isSome = true)
  obtain ⟨hheard, -, -⟩ := read_once Codec.small exchange dialogue hrun
  have hread : (exec (step Codec.small) init exchange).map
      (fun dialogue => ((dialogue.readBy 0).map Sent.call, dialogue.peers 0)) =
        some ([0, 1], some 1) := by decide +kernel
  rw [hrun] at hread
  obtain ⟨hcalls, hpeer⟩ := Prod.mk.inj (Option.some.inj hread)
  exact ⟨dialogue, hrun, hcalls, hheard 0 (hpeer ▸ Option.some_ne_none 1)⟩

end Dialogue

end GrpcMtk
