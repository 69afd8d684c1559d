import GrpcMtk.Server.Frame

/-!
# The server

All connections of a server with its workers and the threads of the
application.  One action is one thing some thread does: a worker handles a
completion, lets a connection consume tasks or handles the shutdown of its
queue; another thread runs one atomic section of `FinishLogin`, `GetStream`,
`AddTask` and the like.  A worker runs `ConsumeTask` only on members of its
`connections_`; the order in which its loop visits them is left open.
-/

namespace GrpcMtk

open GrpcMtk.Proto

/-- The connections made so far, deleted ones included, and what the threads
of the application hold. -/
structure Server where
  conns : ConnId → Option Conn
  next : ConnId
  reg : Registry
  /-- `FinishLogin` calls between `pmap_.erase` and `mc->SysTask`. -/
  finishing : List (ConnId × SystemPayload.Login)
  /-- Streams of which the application holds a `Conn::Stream`. -/
  handles : List ConnId

namespace Server

def init : Server where
  conns _ := none
  next := 0
  reg :=
    { cmap := fun _ => none
      pmap := fun _ => none
      loginCidSeed := 0
      connections := fun _ => []
      dying := fun _ => false }
  finishing := []
  handles := []

/-- Run a method of a connection on its worker thread. -/
def runConn (conn : ConnId) (results : List HandlerResult)
    (method : World → World) (server : Server) : Server :=
  match server.conns conn with
  | none => server
  | some self =>
      let world := method ⟨self, server.reg, results⟩
      { server with
        conns := Function.update server.conns conn (some world.self)
        reg := world.reg }

/-- Change the stream of a connection from some other thread. -/
def onStream (conn : ConnId) (change : SVStream → SVStream)
    (server : Server) : Server :=
  match server.conns conn with
  | none => server
  | some self =>
      { server with
        conns := Function.update server.conns conn
          (some { self with stream := change self.stream }) }

inductive Action where
  /-- A worker thread starts. -/
  | launch (worker : WorkerId)
  /-- The completion queue delivers an operation tagged with a connection; a
  Read has received `request`. -/
  | complete (conn : ConnId) (ok : Bool) (request : Request)
      (acceptor : AcceptorResult) (results : List HandlerResult)
  /-- The loop over `connections_` reaches a connection. -/
  | consume (conn : ConnId) (results : List HandlerResult)
  /-- The completion queue of a worker reports SHUTDOWN.  `Kick` shuts the
  queues down after `IServer::Shutdown` has prepared every worker. -/
  | shutdown (worker : WorkerId) (results : ℕ → List HandlerResult)
  | prepareShutdown (worker : WorkerId)
  /-- `FinishLogin` up to the erase from `pmap_`. -/
  | finishLogin (lcid cid msgid : ℕ) (data : Bytes)
  /-- `FinishLogin` enqueues the Login task. -/
  | postLogin (conn : ConnId) (request : SystemPayload.Login)
  | getStream (cid : ℕ)
  /-- `mtk_cid_close` through a stream handle. -/
  | closeStream (conn : ConnId)
  | addTask (conn : ConnId) (request : Request)
  | send (conn : ConnId) (reply : Reply)
  | writeDone (conn : ConnId) (ok : Bool)
  | closerDone (conn : ConnId) (ok : Bool)

section Step

variable (codec : Codec)

/-- `Worker::New`: a connection that waits for the next incoming rpc. -/
def newConn (worker : WorkerId) (server : Server) : Server :=
  let self := Conn.new server.next worker
  let world := World.step codec ⟨0, [], []⟩ ⟨self, server.reg, []⟩
  { server with
    conns := Function.update server.conns server.next (some world.self)
    next := server.next + 1
    reg := world.reg }

/-- `Worker::Process`; a successful accept first makes the next waiter. -/
def complete (conn : ConnId) (ok : Bool) (request : Request)
    (acceptor : AcceptorResult) (results : List HandlerResult)
    (server : Server) : Server :=
  match server.conns conn with
  | none => server
  | some self =>
      let server :=
        if ok ∧ self.status = .accept then server.newConn codec self.worker
        else server
      server.runConn conn results (World.process codec ok request acceptor)

/-- The SHUTDOWN branch of `Worker::Run`.  The index goes up in every
iteration and the list never gets longer, so its length on entry bounds the
number of iterations. -/
def shutdownLoop (worker : WorkerId) (results : ℕ → List HandlerResult) :
    ℕ → ℕ → Server → Server
  | 0, _, server => server
  | fuel + 1, index, server =>
      match (server.reg.connections worker)[index]? with
      | none => server
      | some conn =>
          shutdownLoop worker results fuel (index + 1)
            (server.runConn conn (results index) (World.destroy codec))

/-- No operation of the worker's completion queue is outstanding. -/
def Drained (server : Server) (worker : WorkerId) : Prop :=
  ∀ conn < server.next, ∀ self ∈ server.conns conn, self.worker = worker →
    self.pending = 0 ∧ self.stream.writing = 0 ∧ self.stream.closers = 0

instance (server : Server) (worker : WorkerId) :
    Decidable (server.Drained worker) :=
  inferInstanceAs (Decidable (∀ conn < server.next,
    ∀ self ∈ server.conns conn, self.worker = worker →
      self.pending = 0 ∧ self.stream.writing = 0 ∧ self.stream.closers = 0))

def step (server : Server) : Action → Option Server
  | .launch worker => some (server.newConn codec worker)
  | .complete conn ok request acceptor results =>
      match server.conns conn with
      | none => none
      | some self =>
          if self.pending = 0 then none
          else some (server.complete codec conn ok request acceptor results)
  | .consume conn results =>
      match server.conns conn with
      | none => none
      | some self =>
          if conn ∈ server.reg.connections self.worker then
            some (server.runConn conn results
              fun world => world.consumeTask codec (World.destroy codec) 3)
          else none
  | .shutdown worker results =>
      if server.reg.dying worker ∧ server.Drained worker then
        some (server.shutdownLoop codec worker results
          (server.reg.connections worker).length 0)
      else none
  | .prepareShutdown worker =>
      some { server with
        reg := { server.reg with
          dying := Function.update server.reg.dying worker true } }
  | .finishLogin lcid cid msgid data =>
      match server.reg.pmap lcid with
      | none => some server
      | some conn =>
          some { server with
            reg := { server.reg with
              pmap := Function.update server.reg.pmap lcid none }
            finishing := server.finishing ++
              [(conn, { loginCid := lcid, id := cid, msgid, payload := data })] }
  | .postLogin conn request =>
      if (conn, request) ∈ server.finishing then
        some ({ server with
          finishing := server.finishing.erase (conn, request) }.onStream conn
            fun stream => stream.enqueue (.login (some request)))
      else none
  | .getStream cid =>
      match server.reg.cmap cid with
      | none => some server
      | some conn =>
          some ({ server with
            handles := server.handles ++ [conn] }.onStream conn SVStream.ref)
  | .closeStream conn =>
      if conn ∈ server.handles then
        some (server.onStream conn fun stream => stream.enqueue .close)
      else none
  | .addTask conn request =>
      some (server.onStream conn fun stream => stream.enqueue (.normal request))
  | .send conn reply =>
      some (server.onStream conn fun stream => stream.send reply)
  | .writeDone conn ok =>
      match server.conns conn with
      | none => none
      | some self =>
          if self.stream.writing = 0 then none
          else some (server.onStream conn fun stream => stream.writeDone ok)
  | .closerDone conn _ =>
      match server.conns conn with
      | none => none
      | some self =>
          if self.stream.closers = 0 then none
          else some (server.onStream conn SVStream.closerDone)

end Step

/-! ## What each action does -/

section Inversion

variable {codec : Codec} {server next : Server}

theorem step_complete {conn : ConnId} {ok : Bool} {request : Request}
    {acceptor : AcceptorResult} {results : List HandlerResult}
    (hstep : server.step codec (.complete conn ok request acceptor results) =
      some next) :
    ∃ self, server.conns conn = some self ∧ self.pending ≠ 0 ∧
      server.complete codec conn ok request acceptor results = next := by
  simp only [step] at hstep
  split at hstep
  · contradiction
  case h_2 self hconn =>
    split at hstep
    · contradiction
    case isFalse hpending =>
      exact ⟨self, hconn, hpending, Option.some.inj hstep⟩

theorem step_consume {conn : ConnId} {results : List HandlerResult}
    (hstep : server.step codec (.consume conn results) = some next) :
    ∃ self, server.conns conn = some self ∧
      conn ∈ server.reg.connections self.worker ∧
      server.runConn conn results
        (World.consumeTask codec (World.destroy codec) 3) = next := by
  simp only [step] at hstep
  split at hstep
  · contradiction
  case h_2 self hconn =>
    split at hstep
    case isTrue hmember =>
      exact ⟨self, hconn, hmember, Option.some.inj hstep⟩
    · contradiction

theorem step_shutdown {worker : WorkerId} {results : ℕ → List HandlerResult}
    (hstep : server.step codec (.shutdown worker results) = some next) :
    server.reg.dying worker = true ∧ server.Drained worker ∧
      server.shutdownLoop codec worker results
        (server.reg.connections worker).length 0 = next := by
  simp only [step] at hstep
  split at hstep
  case isTrue hready =>
    exact ⟨hready.1, hready.2, Option.some.inj hstep⟩
  · contradiction

theorem step_finishLogin {lcid cid msgid : ℕ} {data : Bytes}
    (hstep : server.step codec (.finishLogin lcid cid msgid data) =
      some next) :
    server.reg.pmap lcid = none ∧ server = next ∨
      ∃ conn, server.reg.pmap lcid = some conn ∧
        { server with
          reg := { server.reg with
            pmap := Function.update server.reg.pmap lcid none }
          finishing := server.finishing ++
            [(conn, { loginCid := lcid, id := cid, msgid, payload := data })]
          } = next := by
  simp only [step] at hstep
  split at hstep
  case h_1 hentry => exact Or.inl ⟨hentry, Option.some.inj hstep⟩
  case h_2 conn hentry =>
    exact Or.inr ⟨conn, hentry, Option.some.inj hstep⟩

theorem step_postLogin {conn : ConnId} {request : SystemPayload.Login}
    (hstep : server.step codec (.postLogin conn request) = some next) :
    (conn, request) ∈ server.finishing ∧
      { server with
        finishing := server.finishing.erase (conn, request) }.onStream conn
          (fun stream => stream.enqueue (.login (some request))) = next := by
  simp only [step] at hstep
  split at hstep
  case isTrue hmem => exact ⟨hmem, Option.some.inj hstep⟩
  · contradiction

theorem step_getStream {cid : ℕ}
    (hstep : server.step codec (.getStream cid) = some next) :
    server.reg.cmap cid = none ∧ server = next ∨
      ∃ conn, server.reg.cmap cid = some conn ∧
        { server with handles := server.handles ++ [conn] }.onStream conn
          SVStream.ref = next := by
  simp only [step] at hstep
  split at hstep
  case h_1 hentry => exact Or.inl ⟨hentry, Option.some.inj hstep⟩
  case h_2 conn hentry =>
    exact Or.inr ⟨conn, hentry, Option.some.inj hstep⟩

theorem step_closeStream {conn : ConnId}
    (hstep : server.step codec (.closeStream conn) = some next) :
    conn ∈ server.handles ∧
      server.onStream conn (fun stream => stream.enqueue .close) = next := by
  simp only [step] at hstep
  split at hstep
  case isTrue hmem => exact ⟨hmem, Option.some.inj hstep⟩
  · contradiction

theorem step_writeDone {conn : ConnId} {ok : Bool}
    (hstep : server.step codec (.writeDone conn ok) = some next) :
    server.onStream conn (fun stream => stream.writeDone ok) = next := by
  simp only [step] at hstep
  split at hstep
  · contradiction
  · split at hstep
    · contradiction
    · exact Option.some.inj hstep

theorem step_closerDone {conn : ConnId} {ok : Bool}
    (hstep : server.step codec (.closerDone conn ok) = some next) :
    server.onStream conn SVStream.closerDone = next := by
  simp only [step] at hstep
  split at hstep
  · contradiction
  · split at hstep
    · contradiction
    · exact Option.some.inj hstep

end Inversion

/-! ## Well-formed servers

In every state of every run a connection is filed under its own id, and every
id the server keeps anywhere is the id of a connection it has made.
-/

structure WellFormed (server : Server) : Prop where
  known : ∀ conn self, server.conns conn = some self →
    self.self = conn ∧ conn < server.next
  cmap : ∀ cid conn, server.reg.cmap cid = some conn → conn < server.next
  pmap : ∀ lcid conn, server.reg.pmap lcid = some conn → conn < server.next
  member : ∀ worker conn, conn ∈ server.reg.connections worker →
    ∃ self, server.conns conn = some self ∧ self.worker = worker
  finishing : ∀ conn request, (conn, request) ∈ server.finishing →
    conn < server.next
  handles : ∀ conn ∈ server.handles, conn < server.next

section Steps

variable {codec : Codec}

theorem runConn_of_some {server : Server} {conn : ConnId} {self : Conn}
    (hconn : server.conns conn = some self) (results : List HandlerResult)
    (method : World → World) :
    server.runConn conn results method =
      { server with
        conns := Function.update server.conns conn
          (some (method ⟨self, server.reg, results⟩).self)
        reg := (method ⟨self, server.reg, results⟩).reg } := by
  simp only [runConn, hconn]

theorem runConn_of_none {server : Server} {conn : ConnId}
    (hconn : server.conns conn = none) (results : List HandlerResult)
    (method : World → World) : server.runConn conn results method = server := by
  simp only [runConn, hconn]

theorem onStream_of_some {server : Server} {conn : ConnId} {self : Conn}
    (hconn : server.conns conn = some self) (change : SVStream → SVStream) :
    server.onStream conn change =
      { server with
        conns := Function.update server.conns conn
          (some { self with stream := change self.stream }) } := by
  simp only [onStream, hconn]

theorem onStream_of_none {server : Server} {conn : ConnId}
    (hconn : server.conns conn = none) (change : SVStream → SVStream) :
    server.onStream conn change = server := by
  simp only [onStream, hconn]

theorem onStream_conns {server : Server} {conn other : ConnId} {self : Conn}
    {change : SVStream → SVStream}
    (hother : (server.onStream conn change).conns other = some self) :
    ∃ state, server.conns other = some state ∧
      (other = conn ∧ { state with stream := change state.stream } = self ∨
        other ≠ conn ∧ state = self) := by
  cases hconn : server.conns conn with
  | none =>
      rw [onStream_of_none hconn] at hother
      refine ⟨self, hother, Or.inr ⟨?_, rfl⟩⟩
      rintro rfl
      rw [hconn] at hother
      contradiction
  | some state =>
      rw [onStream_of_some hconn] at hother
      dsimp only at hother
      by_cases hsame : other = conn
      · subst hsame
        rw [Function.update_self, Option.some.injEq] at hother
        exact ⟨state, hconn, Or.inl ⟨rfl, hother⟩⟩
      · rw [Function.update_of_ne hsame] at hother
        exact ⟨self, hother, Or.inr ⟨hsame, rfl⟩⟩

@[simp]
theorem onStream_reg (server : Server) (conn : ConnId)
    (change : SVStream → SVStream) :
    (server.onStream conn change).reg = server.reg := by
  unfold onStream
  split <;> rfl

@[simp]
theorem onStream_finishing (server : Server) (conn : ConnId)
    (change : SVStream → SVStream) :
    (server.onStream conn change).finishing = server.finishing := by
  unfold onStream
  split <;> rfl

@[simp]
theorem onStream_handles (server : Server) (conn : ConnId)
    (change : SVStream → SVStream) :
    (server.onStream conn change).handles = server.handles := by
  unfold onStream
  split <;> rfl

theorem complete_of_not_accept {server : Server} {conn : ConnId} {self : Conn}
    (hconn : server.conns conn = some self) {ok : Bool} {request : Request}
    {acceptor : AcceptorResult} {results : List HandlerResult}
    (hnot : ¬(ok = true ∧ self.status = .accept)) :
    server.complete codec conn ok request acceptor results =
      server.runConn conn results
        (World.process codec ok request acceptor) := by
  simp only [complete, hconn]
  rw [if_neg hnot]

/-- The connection `Worker::New` leaves, with its accept outstanding. -/
def waiter (conn : ConnId) (worker : WorkerId) : Conn :=
  { Conn.new conn worker with status := .accept, pending := 1 }

theorem newConn_eq (worker : WorkerId) (server : Server) :
    server.newConn codec worker =
      { server with
        conns := Function.update server.conns server.next
          (some (waiter server.next worker))
        next := server.next + 1 } := rfl

theorem WellFormed.fresh {server : Server} (hwf : WellFormed server) :
    server.conns server.next = none := by
  cases hconn : server.conns server.next with
  | none => rfl
  | some self => exact absurd (hwf.known _ self hconn).2 (lt_irrefl _)

theorem WellFormed.runConn {server : Server} (hwf : WellFormed server)
    (conn : ConnId) (results : List HandlerResult) {method : World → World}
    (hframe : ∀ world, Frame world (method world)) :
    WellFormed (server.runConn conn results method) := by
  cases hconn : server.conns conn with
  | none => rwa [runConn_of_none hconn]
  | some self =>
      obtain ⟨hself, hbelow⟩ := hwf.known conn self hconn
      have hafter := hframe ⟨self, server.reg, results⟩
      rw [runConn_of_some hconn]
      refine ⟨?_, ?_, ?_, ?_, hwf.finishing, hwf.handles⟩
      · intro other state hother
        dsimp only at hother
        by_cases hsame : other = conn
        · subst hsame
          rw [Function.update_self, Option.some.injEq] at hother
          rw [← hother, hafter.self]
          exact ⟨hself, hbelow⟩
        · rw [Function.update_of_ne hsame] at hother
          exact hwf.known other state hother
      · intro cid other hentry
        rcases hafter.cmap cid other hentry with hold | hown
        · exact hwf.cmap cid other hold
        · rw [hown]
          exact hself ▸ hbelow
      · intro lcid other hentry
        rcases hafter.pmap lcid other hentry with hold | hown
        · exact hwf.pmap lcid other hold
        · rw [hown]
          exact hself ▸ hbelow
      · intro worker other hmember
        dsimp only at hmember ⊢
        by_cases hsame : other = conn
        · subst hsame
          refine ⟨_, Function.update_self _ _ _, ?_⟩
          rw [hafter.worker]
          by_contra hworker
          rw [hafter.elsewhere worker (Ne.symm hworker)] at hmember
          obtain ⟨state, hstate, hof⟩ := hwf.member worker other hmember
          rw [hconn, Option.some.injEq] at hstate
          subst hstate
          exact hworker hof
        · rw [Function.update_of_ne hsame]
          apply hwf.member
          rw [← List.count_pos_iff] at hmember ⊢
          rwa [hafter.members worker other (by rwa [hself])] at hmember

theorem WellFormed.onStream {server : Server} (hwf : WellFormed server)
    (conn : ConnId) (change : SVStream → SVStream) :
    WellFormed (server.onStream conn change) := by
  cases hconn : server.conns conn with
  | none => rwa [onStream_of_none hconn]
  | some self =>
      refine ⟨?_, ?_, ?_, ?_, ?_, ?_⟩
      · intro other state hother
        obtain ⟨old, hold, ⟨rfl, rfl⟩ | ⟨-, rfl⟩⟩ := onStream_conns hother
        · rw [onStream_of_some hconn]
          exact hwf.known other old hold
        · rw [onStream_of_some hconn]
          exact hwf.known other old hold
      all_goals rw [onStream_of_some hconn]
      · exact hwf.cmap
      · exact hwf.pmap
      · intro worker other hmember
        obtain ⟨state, hstate, hof⟩ := hwf.member worker other hmember
        dsimp only
        by_cases hsame : other = conn
        · subst hsame
          rw [hconn, Option.some.injEq] at hstate
          subst hstate
          exact ⟨_, Function.update_self _ _ _, hof⟩
        · rw [Function.update_of_ne hsame]
          exact ⟨state, hstate, hof⟩
      · exact hwf.finishing
      · exact hwf.handles

theorem WellFormed.newConn {server : Server} (hwf : WellFormed server)
    (worker : WorkerId) : WellFormed (server.newConn codec worker) := by
  rw [newConn_eq]
  refine ⟨?_, ?_, ?_, ?_, ?_, ?_⟩
  · intro other state hother
    dsimp only at hother ⊢
    by_cases hsame : other = server.next
    · subst hsame
      rw [Function.update_self, Option.some.injEq] at hother
      rw [← hother]
      exact ⟨rfl, Nat.lt_succ_self _⟩
    · rw [Function.update_of_ne hsame] at hother
      obtain ⟨hself, hbelow⟩ := hwf.known other state hother
      exact ⟨hself, Nat.lt_succ_of_lt hbelow⟩
  · exact fun cid conn hentry => Nat.lt_succ_of_lt (hwf.cmap cid conn hentry)
  · exact fun lcid conn hentry => Nat.lt_succ_of_lt (hwf.pmap lcid conn hentry)
  · intro worker' other hmember
    obtain ⟨state, hstate, hof⟩ := hwf.member worker' other hmember
    refine ⟨state, ?_, hof⟩
    rw [← hstate]
    apply Function.update_of_ne
    rintro rfl
    rw [hwf.fresh] at hstate
    contradiction
  · exact fun conn request hmem =>
      Nat.lt_succ_of_lt (hwf.finishing conn request hmem)
  · exact fun conn hmem => Nat.lt_succ_of_lt (hwf.handles conn hmem)

theorem WellFormed.shutdownLoop {server : Server} (hwf : WellFormed server)
    (worker : WorkerId) (results : ℕ → List HandlerResult) (fuel index : ℕ) :
    WellFormed (server.shutdownLoop codec worker results fuel index) := by
  induction fuel generalizing index server with
  | zero => exact hwf
  | succ fuel ih =>
      unfold Server.shutdownLoop
      split
      · exact hwf
      · exact ih (hwf.runConn _ _ Frame.kept.destroy) _

theorem WellFormed.complete {server : Server} (hwf : WellFormed server)
    (conn : ConnId) (ok : Bool) (request : Request) (acceptor : AcceptorResult)
    (results : List HandlerResult) :
    WellFormed (server.complete codec conn ok request acceptor results) := by
  unfold Server.complete
  split
  · exact hwf
  · dsimp only
    split
    · exact (hwf.newConn _).runConn _ _ (Frame.process ok request acceptor)
    · exact hwf.runConn _ _ (Frame.process ok request acceptor)

theorem wellFormed_step {server next : Server} {action : Action}
    (hwf : WellFormed server) (hstep : server.step codec action = some next) :
    WellFormed next := by
  cases action with
  | launch worker =>
      obtain rfl := Option.some.inj hstep
      exact hwf.newConn worker
  | complete conn ok request acceptor results =>
      obtain ⟨-, -, -, rfl⟩ := step_complete hstep
      exact hwf.complete conn ok request acceptor results
  | consume conn results =>
      obtain ⟨-, -, -, rfl⟩ := step_consume hstep
      apply hwf.runConn
      exact Frame.kept.consumeTask Frame.kept.destroyKept 3
  | shutdown worker results =>
      obtain ⟨-, -, rfl⟩ := step_shutdown hstep
      exact hwf.shutdownLoop worker results _ _
  | prepareShutdown worker =>
      obtain rfl := Option.some.inj hstep
      exact { hwf with }
  | finishLogin lcid cid msgid data =>
      rcases step_finishLogin hstep with ⟨-, rfl⟩ | ⟨conn, hentry, rfl⟩
      · exact hwf
      refine { hwf with pmap := ?_, finishing := ?_ }
      · intro key other hkey
        dsimp only at hkey
        by_cases hsame : key = lcid
        · subst hsame
          simp at hkey
        · rw [Function.update_of_ne hsame] at hkey
          exact hwf.pmap key other hkey
      · intro other request hmem
        rcases List.mem_append.mp hmem with hold | hnew
        · exact hwf.finishing other request hold
        · simp only [List.mem_singleton, Prod.mk.injEq] at hnew
          rw [hnew.1]
          exact hwf.pmap lcid conn hentry
  | postLogin conn request =>
      obtain ⟨-, rfl⟩ := step_postLogin hstep
      apply WellFormed.onStream
      refine { hwf with finishing := ?_ }
      exact fun other request hmem =>
        hwf.finishing other request (List.mem_of_mem_erase hmem)
  | getStream cid =>
      rcases step_getStream hstep with ⟨-, rfl⟩ | ⟨conn, hentry, rfl⟩
      · exact hwf
      apply WellFormed.onStream
      refine { hwf with handles := ?_ }
      intro other hmem
      rcases List.mem_append.mp hmem with hold | hnew
      · exact hwf.handles other hold
      · rw [List.mem_singleton.mp hnew]
        exact hwf.cmap cid conn hentry
  | closeStream conn =>
      obtain ⟨-, rfl⟩ := step_closeStream hstep
      exact hwf.onStream _ _
  | addTask conn request =>
      obtain rfl := Option.some.inj hstep
      exact hwf.onStream _ _
  | send conn reply =>
      obtain rfl := Option.some.inj hstep
      exact hwf.onStream _ _
  | writeDone conn ok =>
      obtain rfl := step_writeDone hstep
      exact hwf.onStream _ _
  | closerDone conn ok =>
      obtain rfl := step_closerDone hstep
      exact hwf.onStream _ _

/-- Every id below `next` is the id of a connection. -/
def Made (server : Server) : Prop :=
  ∀ conn < server.next, server.conns conn ≠ none

theorem Made.of_update {server : Server} (hmade : server.Made)
    {conn : ConnId} {self : Conn} :
    ∀ other < server.next,
      Function.update server.conns conn (some self) other ≠ none := by
  intro other hother
  by_cases hsame : other = conn
  · rw [hsame, Function.update_self]
    exact Option.some_ne_none self
  · rw [Function.update_of_ne hsame]
    exact hmade other hother

theorem Made.runConn {server : Server} (hmade : server.Made) (conn : ConnId)
    (results : List HandlerResult) (method : World → World) :
    (server.runConn conn results method).Made := by
  cases hconn : server.conns conn with
  | none => rwa [runConn_of_none hconn]
  | some self =>
      rw [runConn_of_some hconn]
      exact hmade.of_update

theorem Made.onStream {server : Server} (hmade : server.Made) (conn : ConnId)
    (change : SVStream → SVStream) : (server.onStream conn change).Made := by
  cases hconn : server.conns conn with
  | none => rwa [onStream_of_none hconn]
  | some self =>
      rw [onStream_of_some hconn]
      exact hmade.of_update

theorem Made.newConn {server : Server} (hmade : server.Made)
    (worker : WorkerId) : (server.newConn codec worker).Made := by
  rw [newConn_eq]
  intro other hother
  by_cases hsame : other = server.next
  · rw [hsame]
    dsimp only
    rw [Function.update_self]
    exact Option.some_ne_none _
  · exact hmade.of_update other
      (Nat.lt_of_le_of_ne (Nat.le_of_lt_succ hother) hsame)

theorem Made.shutdownLoop {server : Server} (hmade : server.Made)
    (worker : WorkerId) (results : ℕ → List HandlerResult)
    (fuel index : ℕ) :
    (server.shutdownLoop codec worker results fuel index).Made := by
  induction fuel generalizing index server with
  | zero => exact hmade
  | succ fuel ih =>
      unfold Server.shutdownLoop
      split
      · exact hmade
      · exact ih (hmade.runConn _ _ _) _

theorem made_step {server next : Server} {action : Action}
    (hmade : server.Made) (hstep : server.step codec action = some next) :
    next.Made := by
  cases action with
  | launch worker =>
      obtain rfl := Option.some.inj hstep
      exact hmade.newConn worker
  | complete conn ok request acceptor results =>
      obtain ⟨self, hconn, -, rfl⟩ := step_complete hstep
      rw [complete, hconn]
      dsimp only
      split
      · exact (hmade.newConn self.worker).runConn conn results _
      · exact hmade.runConn conn results _
  | consume conn results =>
      obtain ⟨-, -, -, rfl⟩ := step_consume hstep
      exact hmade.runConn conn results _
  | shutdown worker results =>
      obtain ⟨-, -, rfl⟩ := step_shutdown hstep
      exact hmade.shutdownLoop worker results _ 0
  | prepareShutdown worker =>
      obtain rfl := Option.some.inj hstep
      exact hmade
  | finishLogin lcid cid msgid data =>
      rcases step_finishLogin hstep with ⟨-, rfl⟩ | ⟨conn, -, rfl⟩
      · exact hmade
      · exact hmade
  | postLogin conn request =>
      obtain ⟨-, rfl⟩ := step_postLogin hstep
      apply Made.onStream
      exact hmade
  | getStream cid =>
      rcases step_getStream hstep with ⟨-, rfl⟩ | ⟨conn, -, rfl⟩
      · exact hmade
      · apply Made.onStream
        exact hmade
  | closeStream conn =>
      obtain ⟨-, rfl⟩ := step_closeStream hstep
      exact hmade.onStream conn _
  | addTask conn request =>
      obtain rfl := Option.some.inj hstep
      exact hmade.onStream conn _
  | send conn reply =>
      obtain rfl := Option.some.inj hstep
      exact hmade.onStream conn _
  | writeDone conn ok =>
      obtain rfl := step_writeDone hstep
      exact hmade.onStream conn _
  | closerDone conn ok =>
      obtain rfl := step_closerDone hstep
      exact hmade.onStream conn _

theorem wellFormed_init : WellFormed init where
  known _ _ hconn := by simp [init] at hconn
  cmap _ _ hentry := by simp [init] at hentry
  pmap _ _ hentry := by simp [init] at hentry
  member _ _ hmember := by simp [init] at hmember
  finishing _ _ hmem := by simp [init] at hmem
  handles _ hmem := by simp [init] at hmem

end Steps

/-! ## Facts about every connection

A fact about a connection and the registries that survives whatever the
methods of other connections do holds of all connections after a method if the
method gives it to its own.
-/

section EachConn

variable {codec : Codec}
variable {fact : Registry → ConnId → Conn → Prop}

/-- The fact holds of every connection made so far. -/
def EachConn (fact : Registry → ConnId → Conn → Prop) (server : Server) :
    Prop :=
  ∀ conn self, server.conns conn = some self → fact server.reg conn self

/-- The fact survives the methods of other connections. -/
def Stable (fact : Registry → ConnId → Conn → Prop) : Prop :=
  ∀ before after : World, Frame before after →
    ∀ conn self, conn ≠ before.self.self → fact before.reg conn self →
      fact after.reg conn self

theorem EachConn.runConn {server : Server} (hwf : WellFormed server)
    (hstable : Stable fact) (heach : EachConn fact server)
    (conn : ConnId) (results : List HandlerResult) {method : World → World}
    (hframe : ∀ world, Frame world (method world))
    (hself : ∀ self, server.conns conn = some self →
      fact server.reg conn self →
        fact (method ⟨self, server.reg, results⟩).reg conn
          (method ⟨self, server.reg, results⟩).self) :
    EachConn fact (server.runConn conn results method) := by
  cases hconn : server.conns conn with
  | none => rwa [runConn_of_none hconn]
  | some self =>
      rw [runConn_of_some hconn]
      intro other state hother
      dsimp only at hother ⊢
      by_cases hsame : other = conn
      · subst hsame
        rw [Function.update_self, Option.some.injEq] at hother
        rw [← hother]
        exact hself self hconn (heach other self hconn)
      · rw [Function.update_of_ne hsame] at hother
        apply hstable ⟨self, server.reg, results⟩ _ (hframe _)
        · rwa [(hwf.known conn self hconn).1]
        · exact heach other state hother

theorem EachConn.onStream {server : Server} (heach : EachConn fact server)
    (conn : ConnId) (change : SVStream → SVStream)
    (hself : ∀ self, server.conns conn = some self →
      fact server.reg conn self →
        fact server.reg conn { self with stream := change self.stream }) :
    EachConn fact (server.onStream conn change) := by
  intro other state hother
  rw [onStream_reg]
  obtain ⟨old, hold, ⟨rfl, rfl⟩ | ⟨-, rfl⟩⟩ := onStream_conns hother
  · exact hself old hold (heach other old hold)
  · exact heach other old hold

theorem EachConn.newConn {server : Server} (heach : EachConn fact server)
    (worker : WorkerId)
    (hself : fact server.reg server.next (waiter server.next worker)) :
    EachConn fact (server.newConn codec worker) := by
  rw [newConn_eq]
  intro other state hother
  dsimp only at hother ⊢
  by_cases hsame : other = server.next
  · subst hsame
    rw [Function.update_self, Option.some.injEq] at hother
    rwa [← hother]
  · rw [Function.update_of_ne hsame] at hother
    exact heach other state hother

/-- The shutdown loop destroys only members of its worker. -/
theorem EachConn.shutdownLoop {server : Server} (hwf : WellFormed server)
    (hstable : Stable fact) (heach : EachConn fact server)
    (worker : WorkerId) (results : ℕ → List HandlerResult)
    (hself : ∀ world : World,
      world.self.self ∈ world.reg.connections worker →
      fact world.reg world.self.self world.self →
        fact (world.destroy codec).reg world.self.self
          (world.destroy codec).self)
    (fuel index : ℕ) :
    EachConn fact (server.shutdownLoop codec worker results fuel index) := by
  induction fuel generalizing index server with
  | zero => exact heach
  | succ fuel ih =>
      unfold Server.shutdownLoop
      split
      · exact heach
      case h_2 conn hmember =>
        apply ih (hwf.runConn _ _ Frame.kept.destroy)
        apply heach.runConn hwf hstable _ _ Frame.kept.destroy
        intro self hconn hfact
        have hid := (hwf.known conn self hconn).1
        subst hid
        exact hself ⟨self, server.reg, results index⟩
          (List.mem_of_getElem? hmember) hfact

end EachConn

end Server

end GrpcMtk
