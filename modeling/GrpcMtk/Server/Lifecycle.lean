import Mathlib.Order.Interval.Finset.Nat
import GrpcMtk.Core.Runs
import GrpcMtk.Server.Conn

/-!
# Starting and stopping a server

`IServer::Start` spawns the thread that runs `Kick` and waits on `cond_` until
that thread has launched the workers or failed to build the server;
`IServer::Join` tells the workers, shuts the server down and joins the thread,
which has joined the workers by then.  One action is one step of the thread
that calls these methods, of the thread in `Kick` or of a worker, between two
of which other threads run.  `server_->Shutdown()` blocks until every RPC is
processed, and `server_->Wait()` until it has.

`cond_.wait` is called without a predicate, so a wakeup that no `notify_one`
caused returns like any other; it is an action of its own.
-/

namespace GrpcMtk

open GrpcMtk.Runs

/-- Where the thread is that calls `Start`, `Shutdown` and `Join`.  `join`
tells whether `Shutdown` was called by `Join`. -/
inductive MainAt where
  | outside
  | locked
  | spawned
  | waiting
  | woken
  | starting
  | started
  | preparing (join : Bool) (index : ℕ)
  | prepared (join : Bool)
  | shutting (join : Bool)
  | joining
  | deleting
  | gone
  deriving DecidableEq, Repr

/-- Where the thread in `Server::Run` and `Kick` is.  `ok` tells whether the
server was built. -/
inductive ServerAt where
  | absent
  | run
  | creating (index : ℕ)
  | building
  | launching (index : ℕ)
  | readying (ok : Bool)
  | locked (ok : Bool)
  | notified (ok : Bool)
  | waiting
  | closing (index : ℕ)
  | joining (index : ℕ)
  | returning
  | ended
  deriving DecidableEq, Repr

/-- Where a worker thread is: not launched, in `Worker::Run`, or returned from
it. -/
inductive WorkerAt where
  | created
  | running
  | ended
  deriving DecidableEq, Repr

/-- `Worker`, with its completion queue. -/
structure WorkerThread where
  place : WorkerAt
  dying : Bool
  cqShutdown : Bool
  deriving DecidableEq, Repr

/-- `server_`; `draining` while `server_->Shutdown()` waits for the RPCs. -/
inductive GrpcServer where
  | absent
  | running
  | draining
  | shutdown
  deriving DecidableEq, Repr

/-- Who holds `mutex_`. -/
inductive Holder where
  | main
  | server
  deriving DecidableEq, Repr

/-- `mtk_svconf_t`, as far as `Run` reads it. -/
structure SvConf where
  nWorker : ℕ
  useQueue : Bool
  deriving DecidableEq, Repr

/-- A server with its threads.  `count` is the size of `workers_`, `queue`
tells whether `queue_` is set and `handler` whether the handler of `Run` is
alive. -/
structure Lifecycle where
  main : MainAt
  server : ServerAt
  mutex : Option Holder
  grpc : GrpcServer
  workers : WorkerId → WorkerThread
  count : ℕ
  queue : Bool
  handler : Bool

namespace Lifecycle

def newWorker : WorkerThread where
  place := .created
  dying := false
  cqShutdown := false

def init : Lifecycle where
  main := .outside
  server := .absent
  mutex := none
  grpc := .absent
  workers _ := newWorker
  count := 0
  queue := false
  handler := false

def onWorker (worker : WorkerId) (change : WorkerThread → WorkerThread)
    (life : Lifecycle) : Lifecycle :=
  { life with
    workers := Function.update life.workers worker
      (change (life.workers worker)) }

/-- The next step of `Start`, `Shutdown` or `Join`. -/
def mainStep (life : Lifecycle) : Option Lifecycle :=
  match life.main with
  | .outside =>
      if life.mutex = none then
        some { life with main := .locked, mutex := some .main }
      else none
  | .locked => some { life with main := .spawned, server := .run }
  | .spawned => some { life with main := .waiting, mutex := none }
  | .waiting => none
  | .woken =>
      if life.mutex = none then
        some { life with main := .starting, mutex := some .main }
      else none
  | .starting => some { life with main := .started, mutex := none }
  | .started => none
  | .preparing join index =>
      if index < life.count then
        some { life.onWorker index fun worker => { worker with dying := true }
          with main := .preparing join (index + 1) }
      else some { life with main := .prepared join }
  | .prepared join =>
      if life.grpc = .running then
        some { life with main := .shutting join, grpc := .draining }
      else some { life with main := if join then .joining else .started }
  | .shutting join =>
      if life.grpc = .shutdown then
        some { life with main := if join then .joining else .started }
      else none
  | .joining =>
      if life.server = .ended then some { life with main := .deleting }
      else none
  | .deleting => some { life with main := .gone }
  | .gone => none

/-- The next step of `Server::Run` and `Kick`; `built` tells whether
`BuildAndStart` succeeds. -/
def serverStep (conf : SvConf) (built : Bool) (life : Lifecycle) :
    Option Lifecycle :=
  match life.server with
  | .absent => none
  | .run =>
      some { life with
        server := .creating 0
        handler := true
        queue := conf.useQueue }
  | .creating index =>
      if index < conf.nWorker then
        some { life.onWorker index fun _ => newWorker with
          server := .creating (index + 1)
          count := life.count + 1 }
      else some { life with server := .building }
  | .building =>
      if built then
        some { life with server := .launching 0, grpc := .running }
      else some { life with server := .readying false }
  | .launching index =>
      if index < life.count then
        some { life.onWorker index fun worker =>
          { worker with place := .running } with
            server := .launching (index + 1) }
      else some { life with server := .readying true }
  | .readying ok =>
      if life.mutex = none then
        some { life with server := .locked ok, mutex := some .server }
      else none
  | .locked ok =>
      some { life with
        server := .notified ok
        main := if life.main = .waiting then .woken else life.main }
  | .notified ok =>
      some { life with
        server := if ok then .waiting else .returning
        mutex := none }
  | .waiting =>
      if life.grpc = .shutdown then some { life with server := .closing 0 }
      else none
  | .closing index =>
      if index < life.count then
        some { life.onWorker index fun worker =>
          { worker with cqShutdown := true } with
            server := .closing (index + 1) }
      else some { life with server := .joining 0 }
  | .joining index =>
      if index < life.count then
        if (life.workers index).place = .running then none
        else some { life with server := .joining (index + 1) }
      else some { life with server := .returning }
  | .returning => some { life with server := .ended, handler := false }
  | .ended => none

/-- `Worker::Run` returns when its queue reports SHUTDOWN. -/
def workerStep (worker : WorkerId) (life : Lifecycle) : Option Lifecycle :=
  if worker < life.count ∧ (life.workers worker).place = .running ∧
      (life.workers worker).cqShutdown then
    some (life.onWorker worker fun worker => { worker with place := .ended })
  else none

inductive Action where
  /-- The application calls `Shutdown`, or `Join` if `join`. -/
  | shutdown (join : Bool)
  | main
  | server (built : Bool)
  | worker (worker : WorkerId)
  /-- The last RPC is processed. -/
  | processed
  /-- `cond_.wait` returns without a notification. -/
  | spurious
  deriving DecidableEq, Repr

def step (conf : SvConf) (life : Lifecycle) : Action → Option Lifecycle
  | .shutdown join =>
      if life.main = .started then
        some { life with main := .preparing join 0 }
      else none
  | .main => life.mainStep
  | .server built => life.serverStep conf built
  | .worker worker => life.workerStep worker
  | .processed =>
      if life.grpc = .draining then some { life with grpc := .shutdown }
      else none
  | .spurious =>
      if life.main = .waiting then some { life with main := .woken } else none

section OnWorker

variable (worker other : WorkerId) (change : WorkerThread → WorkerThread)
variable (life : Lifecycle)

@[simp, grind =]
theorem onWorker_workers :
    (life.onWorker worker change).workers other =
      if other = worker then change (life.workers worker)
      else life.workers other := by
  simp only [onWorker, Function.update_apply]

@[simp, grind =]
theorem onWorker_main : (life.onWorker worker change).main = life.main := rfl

@[simp, grind =]
theorem onWorker_server :
    (life.onWorker worker change).server = life.server := rfl

@[simp, grind =]
theorem onWorker_mutex :
    (life.onWorker worker change).mutex = life.mutex := rfl

@[simp, grind =]
theorem onWorker_grpc : (life.onWorker worker change).grpc = life.grpc := rfl

@[simp, grind =]
theorem onWorker_count :
    (life.onWorker worker change).count = life.count := rfl

@[simp, grind =]
theorem onWorker_queue :
    (life.onWorker worker change).queue = life.queue := rfl

@[simp, grind =]
theorem onWorker_handler :
    (life.onWorker worker change).handler = life.handler := rfl

end OnWorker

end Lifecycle

/-! ## How far each thread has come -/

/-- The places of the thread in `Run`, in the order it comes to them. -/
@[grind =]
def ServerAt.rank : ServerAt → ℕ
  | .absent => 0
  | .run => 1
  | .creating _ => 2
  | .building => 3
  | .launching _ => 4
  | .readying _ => 5
  | .locked _ => 6
  | .notified _ => 7
  | .waiting => 8
  | .closing _ => 9
  | .joining _ => 10
  | .returning => 11
  | .ended => 12

/-- The places of the caller: `Start` is over from `started` on, and `Join`
destroys the server from `deleting` on. -/
@[grind =]
def MainAt.rank : MainAt → ℕ
  | .outside => 0
  | .locked => 1
  | .spawned => 2
  | .waiting => 3
  | .woken => 4
  | .starting => 5
  | .started => 6
  | .preparing _ _ => 7
  | .prepared _ => 8
  | .shutting _ => 9
  | .joining => 10
  | .deleting => 11
  | .gone => 12

/-- `BuildAndStart` succeeded and `Kick` has not returned. -/
@[grind =]
def ServerAt.serving : ServerAt → Bool
  | .launching _ | .readying true | .locked true | .notified true
  | .waiting | .closing _ | .joining _ => true
  | _ => false

/-- `BuildAndStart` failed and `Kick` has not returned. -/
@[grind =]
def ServerAt.failing : ServerAt → Bool
  | .readying false | .locked false | .notified false => true
  | _ => false

/-- How many workers the loop over `Launch` has launched. -/
@[grind =]
def ServerAt.launched : ServerAt → ℕ
  | .launching index => index
  | _ => 0

/-- How many queues the loop over `Shutdown` has shut down. -/
@[grind =]
def ServerAt.closed : ServerAt → ℕ
  | .closing index => index
  | _ => 0

/-- How many workers the loop over `Join` has joined. -/
@[grind =]
def ServerAt.joined : ServerAt → ℕ
  | .joining index => index
  | _ => 0

/-- How many workers the loop over `PrepareShutdown` has told. -/
@[grind =]
def MainAt.told : MainAt → ℕ
  | .preparing _ index => index
  | _ => 0

/-- How many steps the thread in `Run` has left, at most, with `nWorker`
workers. -/
@[grind =]
def ServerAt.stepsLeft (nWorker : ℕ) : ServerAt → ℕ
  | .absent => 4 * nWorker + 12
  | .run => 4 * nWorker + 11
  | .creating index => 3 * nWorker + 10 + (nWorker - index)
  | .building => 3 * nWorker + 9
  | .launching index => 2 * nWorker + 8 + (nWorker - index)
  | .readying _ => 2 * nWorker + 7
  | .locked _ => 2 * nWorker + 6
  | .notified _ => 2 * nWorker + 5
  | .waiting => 2 * nWorker + 4
  | .closing index => nWorker + 3 + (nWorker - index)
  | .joining index => 2 + (nWorker - index)
  | .returning => 1
  | .ended => 0

/-- How many steps the call of `Start`, `Shutdown` or `Join` has left, at
most. -/
@[grind =]
def MainAt.stepsLeft (nWorker : ℕ) : MainAt → ℕ
  | .outside => 6
  | .locked => 5
  | .spawned => 4
  | .waiting => 3
  | .woken => 2
  | .starting => 1
  | .started => 0
  | .preparing _ index => 6 + (nWorker - index)
  | .prepared _ => 5
  | .shutting _ => 3
  | .joining => 2
  | .deleting => 1
  | .gone => 0

/-- Whether the RPCs are still to be processed. -/
@[grind =]
def GrpcServer.stepsLeft : GrpcServer → ℕ
  | .draining => 1
  | _ => 0

namespace Lifecycle

variable {conf : SvConf} {life next : Lifecycle} {action : Action}

/-! ## What holds between the threads -/

/-- Who holds `mutex_`, and that `Start` waits until `Kick` has notified. -/
structure Handshake (life : Lifecycle) : Prop where
  mainHolds : life.mutex = some .main ↔
    life.main = .locked ∨ life.main = .spawned ∨ life.main = .starting
  serverHolds : life.mutex = some .server ↔
    life.server.rank = 6 ∨ life.server.rank = 7
  absent : life.server = .absent ↔ life.main.rank ≤ 1
  asleep : life.main = .spawned ∨ life.main = .waiting →
    life.server.rank ≤ 6
  awake : 4 ≤ life.main.rank → 7 ≤ life.server.rank

/-- What `Run` and the loop that makes the workers leave behind. -/
structure Assembled (conf : SvConf) (life : Lifecycle) : Prop where
  before : life.server.rank ≤ 1 → life.count = 0
  creating : ∀ index, life.server = .creating index →
    life.count = index ∧ index ≤ conf.nWorker
  created : 3 ≤ life.server.rank → life.count = conf.nWorker
  queue : 2 ≤ life.server.rank → life.queue = conf.useQueue
  handler : life.handler = true ↔
    2 ≤ life.server.rank ∧ life.server.rank ≤ 11

/-- Which workers run, and that none does without a server. -/
structure Launched (life : Lifecycle) : Prop where
  before : life.server.rank ≤ 3 → life.grpc = .absent
  built : life.server.serving = true → life.grpc ≠ .absent
  failed : life.server.failing = true → life.grpc = .absent
  launching : ∀ worker < life.server.launched,
    (life.workers worker).place ≠ .created
  launched : 5 ≤ life.server.rank → life.grpc ≠ .absent →
    ∀ worker < life.count, (life.workers worker).place ≠ .created
  idle : life.grpc = .absent →
    ∀ worker, (life.workers worker).place = .created

/-- Every worker has been told before the server is shut down. -/
structure Told (life : Lifecycle) : Prop where
  preparing : life.main.rank = 7 →
    ∀ worker < life.main.told, (life.workers worker).dying = true
  prepared : life.main.rank = 8 →
    ∀ worker < life.count, (life.workers worker).dying = true
  down : life.grpc = .draining ∨ life.grpc = .shutdown →
    ∀ worker < life.count, (life.workers worker).dying = true

/-- A worker's queue is shut down behind the server, and its thread returns
behind that. -/
structure Emptied (life : Lifecycle) : Prop where
  closing : ∀ worker < life.server.closed,
    (life.workers worker).cqShutdown = true
  closed : life.server.rank = 10 →
    ∀ worker < life.count, (life.workers worker).cqShutdown = true
  down : life.server.rank = 9 ∨ life.server.rank = 10 →
    life.grpc = .shutdown
  emptied : ∀ worker, (life.workers worker).cqShutdown = true →
    life.grpc = .shutdown
  ended : ∀ worker, (life.workers worker).place = .ended →
    (life.workers worker).cqShutdown = true
  shutting : life.main.rank = 9 → life.grpc = .draining ∨ life.grpc = .shutdown
  draining : life.grpc = .draining → life.main.rank = 9
  halted : 10 ≤ life.main.rank → life.grpc = .absent ∨ life.grpc = .shutdown
  early : life.server.rank ≤ 6 → life.grpc ≠ .shutdown

/-- No worker runs once its thread is joined, nor once `Kick` has returned. -/
structure Joined (life : Lifecycle) : Prop where
  joining : ∀ worker < life.server.joined,
    (life.workers worker).place ≠ .running
  returned : 11 ≤ life.server.rank →
    ∀ worker < life.count, (life.workers worker).place ≠ .running
  joined : 11 ≤ life.main.rank → life.server = .ended

/-! ## What the steps do -/

/-- The steps of the thread that calls `Start`, `Shutdown` and `Join`, of the
thread in `Run` and of the workers, with the guards they pass. -/
inductive Moves (conf : SvConf) (life : Lifecycle) : Lifecycle → Prop
  | lock (hmain : life.main = .outside) (hmutex : life.mutex = none) :
      Moves conf life { life with main := .locked, mutex := some .main }
  | spawn (hmain : life.main = .locked) :
      Moves conf life { life with main := .spawned, server := .run }
  | wait (hmain : life.main = .spawned) :
      Moves conf life { life with main := .waiting, mutex := none }
  | relock (hmain : life.main = .woken) (hmutex : life.mutex = none) :
      Moves conf life { life with main := .starting, mutex := some .main }
  | unlock (hmain : life.main = .starting) :
      Moves conf life { life with main := .started, mutex := none }
  | tell (join : Bool) (index : ℕ) (hmain : life.main = .preparing join index)
      (hindex : index < life.count) :
      Moves conf life
        { life.onWorker index fun worker => { worker with dying := true } with
          main := .preparing join (index + 1) }
  | told (join : Bool) (index : ℕ) (hmain : life.main = .preparing join index)
      (hindex : ¬index < life.count) :
      Moves conf life { life with main := .prepared join }
  | shut (join : Bool) (hmain : life.main = .prepared join)
      (hgrpc : life.grpc = .running) :
      Moves conf life { life with main := .shutting join, grpc := .draining }
  | skip (join : Bool) (hmain : life.main = .prepared join)
      (hgrpc : life.grpc ≠ .running) :
      Moves conf life { life with
        main := if join then .joining else .started }
  | processed (hgrpc : life.grpc = .draining) :
      Moves conf life { life with grpc := .shutdown }
  | drained (join : Bool) (hmain : life.main = .shutting join)
      (hgrpc : life.grpc = .shutdown) :
      Moves conf life { life with
        main := if join then .joining else .started }
  | join (hmain : life.main = .joining) (hserver : life.server = .ended) :
      Moves conf life { life with main := .deleting }
  | delete (hmain : life.main = .deleting) :
      Moves conf life { life with main := .gone }
  | run (hserver : life.server = .run) :
      Moves conf life { life with
        server := .creating 0, handler := true, queue := conf.useQueue }
  | create (index : ℕ) (hserver : life.server = .creating index)
      (hindex : index < conf.nWorker) :
      Moves conf life { life.onWorker index fun _ => newWorker with
        server := .creating (index + 1), count := life.count + 1 }
  | created (index : ℕ) (hserver : life.server = .creating index)
      (hindex : ¬index < conf.nWorker) :
      Moves conf life { life with server := .building }
  | build (hserver : life.server = .building) :
      Moves conf life { life with server := .launching 0, grpc := .running }
  | fail (hserver : life.server = .building) :
      Moves conf life { life with server := .readying false }
  | launch (index : ℕ) (hserver : life.server = .launching index)
      (hindex : index < life.count) :
      Moves conf life
        { life.onWorker index fun worker =>
          { worker with place := .running } with
          server := .launching (index + 1) }
  | launched (index : ℕ) (hserver : life.server = .launching index)
      (hindex : ¬index < life.count) :
      Moves conf life { life with server := .readying true }
  | acquire (ok : Bool) (hserver : life.server = .readying ok)
      (hmutex : life.mutex = none) :
      Moves conf life { life with server := .locked ok, mutex := some .server }
  | notify (ok : Bool) (hserver : life.server = .locked ok) :
      Moves conf life { life with
        server := .notified ok
        main := if life.main = .waiting then .woken else life.main }
  | release (ok : Bool) (hserver : life.server = .notified ok) :
      Moves conf life { life with
        server := if ok then .waiting else .returning, mutex := none }
  | waited (hserver : life.server = .waiting)
      (hgrpc : life.grpc = .shutdown) :
      Moves conf life { life with server := .closing 0 }
  | close (index : ℕ) (hserver : life.server = .closing index)
      (hindex : index < life.count) :
      Moves conf life
        { life.onWorker index fun worker =>
          { worker with cqShutdown := true } with
          server := .closing (index + 1) }
  | closed (index : ℕ) (hserver : life.server = .closing index)
      (hindex : ¬index < life.count) :
      Moves conf life { life with server := .joining 0 }
  | joinWorker (index : ℕ) (hserver : life.server = .joining index)
      (hindex : index < life.count)
      (hplace : (life.workers index).place ≠ .running) :
      Moves conf life { life with server := .joining (index + 1) }
  | joined (index : ℕ) (hserver : life.server = .joining index)
      (hindex : ¬index < life.count) :
      Moves conf life { life with server := .returning }
  | returns (hserver : life.server = .returning) :
      Moves conf life { life with server := .ended, handler := false }
  | halt (worker : WorkerId) (hworker : worker < life.count)
      (hplace : (life.workers worker).place = .running)
      (hshutdown : (life.workers worker).cqShutdown = true) :
      Moves conf life
        (life.onWorker worker fun worker => { worker with place := .ended })

theorem moves_of_mainStep (hstep : life.mainStep = some next) :
    Moves conf life next := by
  unfold mainStep at hstep
  split at hstep
  case h_1 hmain =>
    split at hstep <;> cases hstep
    exact .lock hmain ‹_›
  case h_2 hmain => cases hstep; exact .spawn hmain
  case h_3 hmain => cases hstep; exact .wait hmain
  case h_5 hmain =>
    split at hstep <;> cases hstep
    exact .relock hmain ‹_›
  case h_6 hmain => cases hstep; exact .unlock hmain
  case h_8 join index hmain =>
    split at hstep <;> cases hstep
    · exact .tell join index hmain ‹_›
    · exact .told join index hmain ‹_›
  case h_9 join hmain =>
    split at hstep <;> cases hstep
    · exact .shut join hmain ‹_›
    · exact .skip join hmain ‹_›
  case h_10 join hmain =>
    split at hstep <;> cases hstep
    exact .drained join hmain ‹_›
  case h_11 hmain =>
    split at hstep <;> cases hstep
    exact .join hmain ‹_›
  case h_12 hmain => cases hstep; exact .delete hmain
  all_goals contradiction

theorem moves_of_serverStep {built : Bool}
    (hstep : life.serverStep conf built = some next) :
    Moves conf life next := by
  unfold serverStep at hstep
  split at hstep
  case h_2 hserver => cases hstep; exact .run hserver
  case h_3 index hserver =>
    split at hstep <;> cases hstep
    · exact .create index hserver ‹_›
    · exact .created index hserver ‹_›
  case h_4 hserver =>
    split at hstep <;> cases hstep
    · exact .build hserver
    · exact .fail hserver
  case h_5 index hserver =>
    split at hstep <;> cases hstep
    · exact .launch index hserver ‹_›
    · exact .launched index hserver ‹_›
  case h_6 ok hserver =>
    split at hstep <;> cases hstep
    exact .acquire ok hserver ‹_›
  case h_7 ok hserver => cases hstep; exact .notify ok hserver
  case h_8 ok hserver => cases hstep; exact .release ok hserver
  case h_9 hserver =>
    split at hstep <;> cases hstep
    exact .waited hserver ‹_›
  case h_10 index hserver =>
    split at hstep <;> cases hstep
    · exact .close index hserver ‹_›
    · exact .closed index hserver ‹_›
  case h_11 index hserver =>
    split at hstep
    case isTrue hindex =>
      split at hstep <;> cases hstep
      exact .joinWorker index hserver hindex ‹_›
    case isFalse hindex => cases hstep; exact .joined index hserver hindex
  case h_12 hserver => cases hstep; exact .returns hserver
  all_goals contradiction

theorem step_cases (hcalm : action ≠ .spurious)
    (hstep : step conf life action = some next) :
    (∃ join, action = .shutdown join ∧ life.main = .started ∧
        next = { life with main := .preparing join 0 }) ∨
      Moves conf life next := by
  cases action with
  | spurious => exact absurd rfl hcalm
  | shutdown join =>
      simp only [step] at hstep
      split at hstep <;> cases hstep
      exact Or.inl ⟨join, rfl, ‹_›, rfl⟩
  | main => exact Or.inr (moves_of_mainStep hstep)
  | server built => exact Or.inr (moves_of_serverStep hstep)
  | worker worker =>
      simp only [step, workerStep] at hstep
      split at hstep
      case isTrue hready =>
        cases hstep
        exact Or.inr (.halt worker hready.1 hready.2.1 hready.2.2)
      · contradiction
  | processed =>
      simp only [step] at hstep
      split at hstep <;> cases hstep
      exact Or.inr (.processed ‹_›)

/-! ## The invariants -/

theorem Handshake.moves (hmoves : Moves conf life next)
    (hshake : Handshake life) : Handshake next := by
  obtain ⟨hmain, hserver, habsent, hasleep, hawake⟩ := hshake
  cases hmoves with
  | acquire ok hready hmutex =>
      -- `Start` holds `mutex_` from before the thread is spawned until it waits,
      -- so `Kick` cannot notify before that.
      have hlocked : ¬(life.main = .locked ∨ life.main = .spawned ∨
          life.main = .starting) := by
        rw [← hmain, hmutex]
        exact nofun
      constructor <;> grind -ring -linarith
  | notify ok hlocked =>
      have hheld : life.mutex = some .server :=
        hserver.mpr (.inl (by rw [hlocked]; rfl))
      have hasleep' : life.main ≠ .spawned := fun hspawned => by
        have hmutex := hmain.mpr (.inr (.inl hspawned))
        rw [hheld] at hmutex
        contradiction
      constructor <;> grind -ring -linarith
  | _ => constructor <;> grind -ring -linarith

theorem Assembled.moves (hmoves : Moves conf life next)
    (hshake : Handshake life) (hmade : Assembled conf life) :
    Assembled conf next := by
  have habsent := hshake.absent
  obtain ⟨hbefore, hcreating, hcreated, hqueue, hhandler⟩ := hmade
  cases hmoves with
  | create index hserver hindex =>
      obtain ⟨hcount, -⟩ := hcreating index hserver
      constructor <;> grind -ring -linarith
  | created index hserver hindex =>
      have hcount : life.count = conf.nWorker := by
        obtain ⟨hcount, hle⟩ := hcreating index hserver
        omega
      constructor <;> grind -ring -linarith
  | _ => constructor <;> grind -ring -linarith

theorem Launched.moves (hmoves : Moves conf life next)
    (hshake : Handshake life) (hmade : Assembled conf life)
    (hlaunched : Launched life) : Launched next := by
  have habsent := hshake.absent
  have hcreated := hmade.created
  obtain ⟨hbefore, hbuilt, hfailed, hlaunching, hall, hidle⟩ := hlaunched
  cases hmoves with
  | launch index hserver hindex =>
      -- Workers are launched by a server that was built.
      have hgrpc : life.grpc ≠ .absent := hbuilt (by rw [hserver]; rfl)
      constructor <;> grind -ring -linarith
  | launched index hserver hindex =>
      have hthreads : ∀ worker < life.count,
          (life.workers worker).place ≠ .created := by
        intro worker hworker
        apply hlaunching
        rw [hserver]
        exact Nat.lt_of_lt_of_le hworker (Nat.le_of_not_lt hindex)
      constructor <;> grind -ring -linarith
  | _ => constructor <;> grind -ring -linarith [newWorker]

theorem Told.moves (hmoves : Moves conf life next) (hshake : Handshake life)
    (hlaunched : Launched life) (htold : Told life) : Told next := by
  have habsent := hshake.absent
  have hawake := hshake.awake
  have hbefore := hlaunched.before
  obtain ⟨hpreparing, hprepared, hdown⟩ := htold
  cases hmoves with
  | create index hserver hindex =>
      -- A worker is made while `Start` still waits, so nobody is told yet.
      have hearly : life.main.rank < 4 := by
        by_contra hlate
        have hrank := hawake (by omega)
        rw [hserver] at hrank
        exact absurd hrank (by simp [ServerAt.rank])
      constructor <;> grind -ring -linarith
  | _ => constructor <;> grind -ring -linarith

theorem Emptied.moves (hmoves : Moves conf life next)
    (hshake : Handshake life) (hlaunched : Launched life)
    (hemptied : Emptied life) : Emptied next := by
  have habsent := hshake.absent
  have hawake := hshake.awake
  obtain ⟨hbefore, hbuilt, hfailed, -, -, -⟩ := hlaunched
  obtain ⟨hclosing, hclosed, hdown, hall, hended, hshutting, hdraining,
    hhalted, hearly⟩ := hemptied
  cases hmoves with
  | skip join hmain hgrpc =>
      -- With no server running there is nothing to wait for.
      have hidle : life.grpc = .absent ∨ life.grpc = .shutdown := by
        cases hstate : life.grpc with
        | absent => exact .inl rfl
        | running => exact absurd hstate hgrpc
        | draining =>
            have hrank := hdraining hstate
            rw [hmain] at hrank
            exact absurd hrank (by simp [MainAt.rank])
        | shutdown => exact .inr rfl
      constructor <;> grind -ring -linarith
  | processed hgrpc =>
      -- Only a caller behind `Start` waits for the RPCs.
      have hpast : 7 ≤ life.server.rank :=
        hawake (by rw [hdraining hgrpc]; decide)
      constructor <;> grind -ring -linarith
  | close index hserver hindex =>
      have hgrpc : life.grpc = .shutdown := hdown (.inl (by rw [hserver]; rfl))
      constructor <;> grind -ring -linarith
  | closed index hserver hindex =>
      have hqueues : ∀ worker < life.count,
          (life.workers worker).cqShutdown = true := by
        intro worker hworker
        apply hclosing
        rw [hserver]
        exact Nat.lt_of_lt_of_le hworker (Nat.le_of_not_lt hindex)
      constructor <;> grind -ring -linarith
  | _ => constructor <;> grind -ring -linarith [newWorker]

theorem Joined.moves (hmoves : Moves conf life next) (hshake : Handshake life)
    (hlaunched : Launched life) (hjoined : Joined life) : Joined next := by
  have habsent := hshake.absent
  have hawake := hshake.awake
  have hfailed := hlaunched.failed
  have hidle := hlaunched.idle
  obtain ⟨hjoining, hreturned, hover⟩ := hjoined
  cases hmoves with
  | joined index hserver hindex =>
      have hthreads : ∀ worker < life.count,
          (life.workers worker).place ≠ .running := by
        intro worker hworker
        apply hjoining
        rw [hserver]
        exact Nat.lt_of_lt_of_le hworker (Nat.le_of_not_lt hindex)
      constructor <;> grind -ring -linarith
  | release ok hserver =>
      -- If `BuildAndStart` failed, no worker was launched.
      have hnone : ok = false → ∀ worker,
          (life.workers worker).place = .created := by
        rintro rfl
        exact hidle (hfailed (by rw [hserver]; rfl))
      constructor <;> grind -ring -linarith
  | _ => constructor <;> grind -ring -linarith

/-- What holds in every state reached without a spurious wakeup. -/
structure Coherent (conf : SvConf) (life : Lifecycle) : Prop where
  shake : Handshake life
  made : Assembled conf life
  launched : Launched life
  told : Told life
  emptied : Emptied life
  joined : Joined life

theorem coherent_init : Coherent conf init where
  shake := by constructor <;> simp [init, MainAt.rank, ServerAt.rank]
  made := by constructor <;> simp [init, ServerAt.rank]
  launched := by
    constructor <;>
      simp [init, newWorker, ServerAt.rank, ServerAt.serving,
        ServerAt.launched]
  told := by constructor <;> simp [init, MainAt.rank]
  emptied := by
    constructor <;>
      simp [init, newWorker, MainAt.rank, ServerAt.rank, ServerAt.closed]
  joined := by
    constructor <;> simp [init, MainAt.rank, ServerAt.rank, ServerAt.joined]

theorem Coherent.moves (hcoherent : Coherent conf life)
    (hmoves : Moves conf life next) : Coherent conf next where
  shake := hcoherent.shake.moves hmoves
  made := hcoherent.made.moves hmoves hcoherent.shake
  launched := hcoherent.launched.moves hmoves hcoherent.shake hcoherent.made
  told := hcoherent.told.moves hmoves hcoherent.shake hcoherent.launched
  emptied := hcoherent.emptied.moves hmoves hcoherent.shake hcoherent.launched
  joined := hcoherent.joined.moves hmoves hcoherent.shake hcoherent.launched

/-- The call of `Shutdown` or `Join` only moves the caller. -/
theorem Coherent.shutdown (hcoherent : Coherent conf life)
    (hmain : life.main = .started) (join : Bool) :
    Coherent conf { life with main := .preparing join 0 } := by
  obtain ⟨hshake, hmade, hlaunched, htold, hemptied, hjoined⟩ := hcoherent
  obtain ⟨hmainHolds, hserverHolds, habsent, hasleep, hawake⟩ := hshake
  obtain ⟨-, -, hdown⟩ := htold
  obtain ⟨hclosing, hclosed, hdown', hall, hended, hshutting, hdraining,
    hhalted, hearly⟩ := hemptied
  obtain ⟨hjoining, hreturned, hover⟩ := hjoined
  exact {
    shake := by constructor <;> grind -ring -linarith
    made := { hmade with }
    launched := { hlaunched with }
    told := by constructor <;> grind -ring -linarith
    emptied := by constructor <;> grind -ring -linarith
    joined := by constructor <;> grind -ring -linarith }

theorem Coherent.step (hcoherent : Coherent conf life)
    (hcalm : action ≠ .spurious)
    (hstep : Lifecycle.step conf life action = some next) :
    Coherent conf next := by
  rcases step_cases hcalm hstep with ⟨join, -, hmain, rfl⟩ | hmoves
  · exact hcoherent.shutdown hmain join
  · exact hcoherent.moves hmoves

theorem Coherent.exec {actions : List Action} (hcoherent : Coherent conf life)
    (hcalm : .spurious ∉ actions)
    (hrun : exec (Lifecycle.step conf) life actions = some next) :
    Coherent conf next :=
  @exec_invariant_of_forall _ _ (Lifecycle.step conf) (Coherent conf)
    (fun action => action ≠ .spurious)
    (fun _ _ _ hcoherent hcalm hstep => hcoherent.step hcalm hstep)
    _ _ _ hcoherent (fun _ hmem heq => hcalm (heq ▸ hmem)) hrun

/-! ## What the application finds -/

/-- Once `Start` has returned, `workers_` is complete and `queue_` set, so
neither is written while `Shutdown` reads it; either the server was built and
every worker runs, or it was not and none ever will. -/
theorem start_ready (conf : SvConf) {actions : List Action}
    {life : Lifecycle} (hcalm : .spurious ∉ actions)
    (hrun : exec (step conf) init actions = some life)
    (hreturned : 6 ≤ life.main.rank) :
    life.count = conf.nWorker ∧ life.queue = conf.useQueue ∧
      ((life.grpc ≠ .absent ∧
          ∀ worker < conf.nWorker, (life.workers worker).place ≠ .created) ∨
        (life.grpc = .absent ∧ life.server.serving = false ∧
          ∀ worker, (life.workers worker).place = .created)) := by
  have hcoherent := coherent_init.exec hcalm hrun
  have hpast : 7 ≤ life.server.rank := hcoherent.shake.awake (by omega)
  have hcount : life.count = conf.nWorker := hcoherent.made.created (by omega)
  refine ⟨hcount, hcoherent.made.queue (by omega), ?_⟩
  by_cases hgrpc : life.grpc = .absent
  · have hserving : life.server.serving = false := by
      by_contra hserving
      exact hcoherent.launched.built (by simpa using hserving) hgrpc
    exact Or.inr ⟨hgrpc, hserving, hcoherent.launched.idle hgrpc⟩
  · rw [← hcount]
    exact Or.inl ⟨hgrpc, hcoherent.launched.launched (by omega) hgrpc⟩

private def soleWorker : SvConf where
  nWorker := 1
  useQueue := true

private def startRun : List Action :=
  [.main, .main, .main, .server true, .server true, .server true,
    .server true, .server true, .server true, .server true, .server true,
    .server true, .main, .main]

private def joinRun : List Action :=
  [.shutdown true, .main, .main, .main, .processed, .main, .server true,
    .server true, .server true, .worker 0, .server true, .server true,
    .server true, .main, .main]

private theorem main_of_exec {place : MainAt} {actions : List Action}
    {life : Lifecycle}
    (hplace : (exec (step conf) init actions).map Lifecycle.main = some place)
    (hrun : exec (step conf) init actions = some life) :
    life.main = place := by
  rw [hrun] at hplace
  exact Option.some.inj hplace

theorem start_ready_startRun :
    ∃ life, exec (step soleWorker) init startRun = some life ∧
      life.count = 1 ∧ life.queue = true ∧
      ((life.grpc ≠ .absent ∧
          ∀ worker < 1, (life.workers worker).place ≠ .created) ∨
        (life.grpc = .absent ∧ life.server.serving = false ∧
          ∀ worker, (life.workers worker).place = .created)) := by
  obtain ⟨life, hrun⟩ := Option.isSome_iff_exists.mp
    (by decide +kernel : (exec (step soleWorker) init startRun).isSome = true)
  have hstarted := main_of_exec
    (by decide +kernel : (exec (step soleWorker) init startRun).map
      Lifecycle.main = some .started) hrun
  exact ⟨life, hrun, start_ready soleWorker (by decide) hrun
    (by rw [hstarted]; decide)⟩

/-- The order in which a server comes down: every worker is told, then the
server is shut down, then the queues, then the workers return, then the
handler of `Run` is destroyed, and only then the server itself. -/
theorem stop_order (conf : SvConf) {actions : List Action}
    {life : Lifecycle} (hcalm : .spurious ∉ actions)
    (hrun : exec (step conf) init actions = some life) :
    (life.grpc = .draining ∨ life.grpc = .shutdown →
      ∀ worker < life.count, (life.workers worker).dying = true) ∧
    (∀ worker, (life.workers worker).cqShutdown = true →
      life.grpc = .shutdown) ∧
    (∀ worker, (life.workers worker).place = .ended →
      (life.workers worker).cqShutdown = true) ∧
    (∀ worker < life.count, (life.workers worker).place = .running →
      life.handler = true) ∧
    (11 ≤ life.main.rank → life.server = .ended ∧
      life.handler = false ∧
      ∀ worker < conf.nWorker, (life.workers worker).place ≠ .running) := by
  have hcoherent := coherent_init.exec hcalm hrun
  refine ⟨hcoherent.told.down, hcoherent.emptied.emptied,
    hcoherent.emptied.ended, fun worker hworker hrunning => ?_,
    fun hdeleting => ?_⟩
  · have hgrpc : life.grpc ≠ .absent := fun hgrpc => by
      have hcreated := hcoherent.launched.idle hgrpc worker
      rw [hrunning] at hcreated
      exact absurd hcreated (by decide)
    have hbuilt : 3 < life.server.rank :=
      Nat.lt_of_not_le fun hrank => hgrpc (hcoherent.launched.before hrank)
    have hserver : life.server.rank < 11 :=
      Nat.lt_of_not_le fun hrank =>
        hcoherent.joined.returned hrank worker hworker hrunning
    exact hcoherent.made.handler.mpr ⟨by omega, by omega⟩
  · have hended := hcoherent.joined.joined hdeleting
    have hrank : life.server.rank = 12 := by rw [hended]; rfl
    have hcount : life.count = conf.nWorker :=
      hcoherent.made.created (by omega)
    refine ⟨hended, ?_, hcount ▸ hcoherent.joined.returned (by omega)⟩
    refine Bool.eq_false_iff.mpr fun halive => ?_
    have halive := (hcoherent.made.handler.mp halive).2
    omega

theorem stop_order_joinRun :
    ∃ life, exec (step soleWorker) init (startRun ++ joinRun) = some life ∧
      life.main = .gone ∧ life.server = .ended ∧ life.handler = false := by
  obtain ⟨life, hrun⟩ := Option.isSome_iff_exists.mp
    (by decide +kernel :
      (exec (step soleWorker) init (startRun ++ joinRun)).isSome = true)
  have hgone := main_of_exec
    (by decide +kernel : (exec (step soleWorker) init
      (startRun ++ joinRun)).map Lifecycle.main = some .gone) hrun
  obtain ⟨-, -, -, -, hover⟩ := stop_order soleWorker (by decide) hrun
  obtain ⟨hended, hhandler, -⟩ := hover (by rw [hgone]; decide)
  exact ⟨life, hrun, hgone, hended, hhandler⟩

/-! ## Start and Join return -/

/-- The workers whose threads have not returned. -/
def unfinished (conf : SvConf) (life : Lifecycle) : Finset WorkerId :=
  (Finset.range conf.nWorker).filter fun worker =>
    (life.workers worker).place ≠ .ended

@[simp, grind =]
theorem mem_unfinished {worker : WorkerId} :
    worker ∈ life.unfinished conf ↔
      worker < conf.nWorker ∧ (life.workers worker).place ≠ .ended := by
  rw [unfinished, Finset.mem_filter, Finset.mem_range]

/-- How many steps are left, at most, while the application calls nothing. -/
def stepsLeft (conf : SvConf) (life : Lifecycle) : ℕ :=
  life.main.stepsLeft conf.nWorker + life.server.stepsLeft conf.nWorker +
    life.grpc.stepsLeft + (life.unfinished conf).card

/-- A thread that has returned does not run again. -/
theorem Coherent.unfinished_subset (hcoherent : Coherent conf life)
    (hmoves : Moves conf life next) :
    next.unfinished conf ⊆ life.unfinished conf := by
  have hbefore := hcoherent.launched.before
  have hidle := hcoherent.launched.idle
  have hearly := hcoherent.emptied.early
  have hemptied := hcoherent.emptied.emptied
  have hended := hcoherent.emptied.ended
  intro other hother
  cases hmoves <;> grind -ring -linarith

/-- Every step is one step less to take. -/
theorem Coherent.stepsLeft_lt (hcoherent : Coherent conf life)
    (hmoves : Moves conf life next) :
    next.stepsLeft conf < life.stepsLeft conf := by
  have hsubset := hcoherent.unfinished_subset hmoves
  have hcard := Finset.card_le_card hsubset
  have habsent := hcoherent.shake.absent
  have hawake := hcoherent.shake.awake
  have hcreating := hcoherent.made.creating
  have hcreated := hcoherent.made.created
  simp only [stepsLeft]
  cases hmoves with
  | halt worker hworker hplace hshutdown =>
      have hbuilt := hcoherent.launched.before
      have hidle := hcoherent.launched.idle
      have hmem : worker ∈ life.unfinished conf := by grind -ring -linarith
      have hless := Finset.card_lt_card
        (Finset.ssubset_iff_of_subset hsubset |>.mpr
          ⟨worker, hmem, by simp⟩)
      simp only [onWorker_main, onWorker_server, onWorker_grpc]
      omega
  | _ => grind -ring -linarith

/-- The thread in `Run` stands still only before it is spawned and when it is
over, at `mutex_`, in `server_->Wait` and at a worker it joins. -/
theorem isSome_serverStep (built : Bool) (habsent : life.server ≠ .absent)
    (hended : life.server ≠ .ended)
    (hmutex : life.server.rank = 5 → life.mutex = none)
    (hwaiting : life.server = .waiting → life.grpc = .shutdown)
    (hjoining : ∀ index, life.server = .joining index → index < life.count →
      (life.workers index).place ≠ .running) :
    (serverStep conf built life).isSome := by
  unfold serverStep
  split <;> grind

/-- The caller stands still only at `mutex_`, in `cond_.wait`, in
`server_->Shutdown`, at the thread it joins and outside the three methods. -/
theorem isSome_mainStep (hstarted : life.main ≠ .started)
    (hgone : life.main ≠ .gone) (hwaiting : life.main ≠ .waiting)
    (hmutex : life.main = .outside ∨ life.main = .woken → life.mutex = none)
    (hshutting : ∀ join, life.main = .shutting join → life.grpc = .shutdown)
    (hjoining : life.main = .joining → life.server = .ended) :
    life.mainStep.isSome := by
  unfold mainStep
  split <;> grind

/-- The thread in `Run` can go on until it waits in `server_->Wait`. -/
theorem Coherent.isSome_serverStep (hcoherent : Coherent conf life)
    (habsent : life.server ≠ .absent) (hearly : life.server.rank ≤ 7)
    (hmain : life.mutex ≠ some .main) :
    (serverStep conf true life).isSome := by
  have hserver := hcoherent.shake.serverHolds
  have hmutex : life.server.rank = 5 → life.mutex = none := by
    rcases hheld : life.mutex with _ | _ | _ <;> grind
  apply Lifecycle.isSome_serverStep <;> grind

/-- While `Join` waits for the thread in `Run`, that thread or a worker it
waits for can go on. -/
theorem Coherent.exists_step_of_joining (hcoherent : Coherent conf life)
    (hjoining : life.main = .joining) (hended : life.server ≠ .ended) :
    (serverStep conf true life).isSome ∨
      ∃ worker, (life.workerStep worker).isSome := by
  have hpast : 7 ≤ life.server.rank :=
    hcoherent.shake.awake (by rw [hjoining]; decide)
  have hgrpc : life.server = .waiting → life.grpc = .shutdown := by
    intro hwaiting
    have hbuilt := hcoherent.launched.built (by rw [hwaiting]; rfl)
    have hhalted := hcoherent.emptied.halted (by rw [hjoining]; decide)
    cases hgrpc : life.grpc <;> simp_all
  by_cases hworker : ∃ index, life.server = .joining index ∧
      index < life.count ∧ (life.workers index).place = .running
  · obtain ⟨index, hserver, hindex, hrunning⟩ := hworker
    have hshutdown := hcoherent.emptied.closed (by rw [hserver]; rfl) index
      hindex
    refine Or.inr ⟨index, ?_⟩
    rw [workerStep, if_pos ⟨hindex, hrunning, hshutdown⟩]
    rfl
  · refine Or.inl ?_
    apply Lifecycle.isSome_serverStep <;> grind

/-- An action that the application does not call for, with no RPC processed
and no spurious wakeup. -/
def Action.ofThreads : Action → Prop
  | .main | .server _ | .worker _ => True
  | _ => False

/-- `server_->Shutdown()` waits for the RPCs. -/
def AwaitsRpcs (life : Lifecycle) : Prop :=
  life.grpc = .draining ∧ ∃ join, life.main = .shutting join

/-- Inside `Start`, `Shutdown` or `Join` some thread can go on, unless RPCs
are to be processed first. -/
theorem Coherent.exists_step (hcoherent : Coherent conf life)
    (hstarted : life.main ≠ .started) (hgone : life.main ≠ .gone)
    (hrpcs : ¬life.AwaitsRpcs) :
    ∃ action : Action, action.ofThreads ∧
      (Lifecycle.step conf life action).isSome := by
  obtain ⟨hmainHolds, hserverHolds, habsent, hasleep, hawake⟩ :=
    hcoherent.shake
  have hserver (hstep : (serverStep conf true life).isSome) :
      ∃ action : Action, action.ofThreads ∧
        (Lifecycle.step conf life action).isSome :=
    ⟨.server true, trivial, hstep⟩
  have hshutting : ∀ join, life.main = .shutting join →
      life.grpc = .shutdown := fun join hmain =>
    (hcoherent.emptied.shutting (by rw [hmain]; rfl)).resolve_left
      fun hdraining => hrpcs ⟨hdraining, join, hmain⟩
  by_cases hmain : life.mainStep.isSome
  · exact ⟨.main, trivial, hmain⟩
  by_cases hjoining : life.main = .joining ∧ life.server ≠ .ended
  · rcases hcoherent.exists_step_of_joining hjoining.1 hjoining.2 with
      hstep | ⟨worker, hstep⟩
    · exact hserver hstep
    · exact ⟨.worker worker, trivial, hstep⟩
  -- What is left is `cond_.wait` and a mutex the other thread holds.
  by_cases hwaiting : life.main = .waiting
  · exact hserver (hcoherent.isSome_serverStep (by grind) (by grind)
      (by grind))
  · have hheld : life.mutex = some .server := by
      rcases hheld : life.mutex with _ | _ | _
      · exact absurd (isSome_mainStep hstarted hgone hwaiting
          (fun _ => hheld) hshutting (by grind)) hmain
      · exact absurd (isSome_mainStep hstarted hgone hwaiting
          (by grind) hshutting (by grind)) hmain
      · rfl
    exact hserver (hcoherent.isSome_serverStep (by grind) (by grind)
      (by simp [hheld]))

/-- However the threads take turns, a call of `Start`, `Shutdown` or `Join`
is over after at most `stepsLeft` steps: no schedule goes on longer while the
application calls nothing, and one where no thread can go on has left the call
or waits in `server_->Shutdown()` for RPCs that are not processed. -/
theorem start_join_return (conf : SvConf) {actions : List Action}
    {life : Lifecycle} (hcalm : .spurious ∉ actions)
    (hrun : exec (step conf) init actions = some life)
    {later : List Action} {final : Lifecycle}
    (hlater : ∀ action ∈ later,
      action ≠ .spurious ∧ ∀ join, action ≠ .shutdown join)
    (hgoes : exec (step conf) life later = some final) :
    later.length + final.stepsLeft conf ≤ life.stepsLeft conf ∧
      ((∀ action : Action, action.ofThreads →
          step conf final action = none) →
        final.main = .started ∨ final.main = .gone ∨ final.AwaitsRpcs) := by
  have hcoherent := coherent_init.exec hcalm hrun
  have hfinal : Coherent conf final :=
    hcoherent.exec (fun hmem => (hlater _ hmem).1 rfl) hgoes
  refine ⟨?_, fun hstuck => ?_⟩
  · exact @exec_length_add_le _ _ (step conf) (Coherent conf)
      (fun action => action ≠ .spurious ∧ ∀ join, action ≠ .shutdown join)
      (stepsLeft conf)
      (fun _ _ _ hcoherent haction hstep => hcoherent.step haction.1 hstep)
      (fun _ _ _ hcoherent haction hstep =>
        hcoherent.stepsLeft_lt ((step_cases haction.1 hstep).resolve_left
          fun ⟨join, heq, _⟩ => haction.2 join heq))
      _ _ _ hcoherent hlater hgoes
  · by_contra hinside
    obtain ⟨hstarted, hrest⟩ := not_or.mp hinside
    obtain ⟨hgone, hrpcs⟩ := not_or.mp hrest
    obtain ⟨action, hthreads, hstep⟩ :=
      hfinal.exists_step hstarted hgone hrpcs
    rw [hstuck action hthreads] at hstep
    exact absurd hstep (by simp)

theorem start_join_return_startRun :
    ∃ final, exec (step soleWorker) init startRun = some final ∧
      startRun.length + final.stepsLeft soleWorker ≤
        init.stepsLeft soleWorker := by
  obtain ⟨final, hrun⟩ := Option.isSome_iff_exists.mp
    (by decide +kernel : (exec (step soleWorker) init startRun).isSome = true)
  exact ⟨final, hrun, (@start_join_return soleWorker [] init (by decide) rfl
    startRun final (by decide) hrun).1⟩

private def earlyJoin : List Action :=
  [.main, .main, .main, .spurious, .main, .main, .shutdown true, .main,
    .main] ++ List.replicate 9 (.server true)

/-- The assumption on `cond_.wait` is needed: a wakeup of its own lets `Start`
return before there is a server, `Join` then finds nothing to shut down, and
waits for a thread that waits for ever. -/
theorem earlyJoin_hangs :
    ∃ life, exec (step soleWorker) init earlyJoin = some life ∧
      life.main = .joining ∧ ∀ action, step soleWorker life action = none := by
  obtain ⟨life, hrun⟩ := Option.isSome_iff_exists.mp
    (by decide +kernel : (exec (step soleWorker) init earlyJoin).isSome = true)
  have hplaces : (exec (step soleWorker) init earlyJoin).map
      (fun life => (life.main, life.server, life.grpc, life.count,
        life.workers 0)) =
      some (.joining, .waiting, .running, 1, ⟨.running, false, false⟩) := by
    decide +kernel
  rw [hrun] at hplaces
  simp only [Option.map_some, Option.some.injEq, Prod.mk.injEq] at hplaces
  obtain ⟨hmain, hserver, hgrpc, hcount, hworker⟩ := hplaces
  refine ⟨life, hrun, hmain, fun action => ?_⟩
  cases action with
  | shutdown join => simp [step, hmain]
  | main => simp [step, mainStep, hmain, hserver]
  | server built => simp [step, serverStep, hserver, hgrpc]
  | processed => simp [step, hgrpc]
  | worker worker =>
      simp only [step, workerStep, hcount, Nat.lt_one_iff]
      refine if_neg ?_
      rintro ⟨rfl, -, hshutdown⟩
      rw [hworker] at hshutdown
      exact absurd hshutdown (by simp)
  | spurious => simp [step, hmain]

end Lifecycle

end GrpcMtk
