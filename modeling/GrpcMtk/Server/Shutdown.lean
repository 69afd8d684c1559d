import GrpcMtk.Server.Draining
import GrpcMtk.Server.Sections
import GrpcMtk.Server.System
import Mathlib.Data.List.Nodup

/-!
# Worker shutdown

The SHUTDOWN branch of `Worker::Run` walks `connections_` by index while every
`Destroy` erases its own connection from it.  The connection behind the erased
one moves up to the index that is already behind the loop, so that the loop
never comes to it.
-/

namespace GrpcMtk

open GrpcMtk.Proto

/-- How often the connection has been destroyed: each `Destroy` ends with
`delete this`. -/
def Conn.deletions (conn : Conn) : ℕ := conn.history.count .deleted

/-- How often a closed connection puts itself into `connections_` while it
consumes these tasks: once for each accepted login before a refused one. -/
def registrations : List Task → ℕ
  | [] => 0
  | .login (some request) :: rest =>
      if request.id = 0 then 0 else registrations rest + 1
  | .normal _ :: rest | .login none :: rest | .close :: rest
  | .other _ :: rest => registrations rest

/-- `Destroy` does not run inside itself and takes the only entry of the
connection out of `connections_` again: it has a peer and does not wait for its
login, and no Login task that is left in its queue registers it once more. -/
structure Conn.LeavesOnce (conn : Conn) : Prop where
  peer : conn.status.hasPeer = true
  settled : conn.status ≠ .waitLogin
  tasks : conn.status = .close →
    registrations conn.stream.tasks ≤ if conn.lcid = 0 then 0 else 1

namespace Server

/-- Every connection of the worker is destroyed exactly once, and none is left
in `connections_`. -/
structure ShutsDown (before after : Server) (worker : WorkerId) : Prop where
  once : ∀ conn ∈ before.reg.connections worker,
    ∀ self ∈ before.conns conn, ∃ state, after.conns conn = some state ∧
      state.deletions = self.deletions + 1
  empty : after.reg.connections worker = []

/-- There is no connection, or a single one that leaves `connections_`. -/
def AtMostOne (server : Server) (worker : WorkerId) : Prop :=
  match server.reg.connections worker with
  | [] => True
  | [conn] => ∀ self ∈ server.conns conn, self.LeavesOnce
  | _ :: _ :: _ => False

end Server

namespace World

variable {codec : Codec} {world : World}

/-! ## How often a connection is deleted -/

theorem deletions_acceptLogin (request : SystemPayload.Login) (world : World) :
    (world.acceptLogin codec request).2.self.deletions =
      world.self.deletions := by
  by_cases hid : request.id = 0
  · simp [acceptLogin, hid, deny, record, Conn.deletions]
  · obtain ⟨stream, -, heq⟩ := @acceptLogin_accepts codec request world hid
    rw [heq]
    simp [Conn.deletions]

/-- Whatever a connection consumes, only `Destroy` deletes it. -/
theorem deletions_taskKept : TaskKept codec fun before after =>
    after.self.deletions = before.self.deletions where
  refl _ := rfl
  trans hfirst hsecond := hsecond.trans hfirst
  normal world request rest _ := by
    rw [(handle_spec request (world.dequeue rest)).2]
    simp [Conn.deletions, dequeue]
  accept world request rest _ _ :=
    deletions_acceptLogin request (world.dequeue rest)
  refuse world request rest _ _ :=
    deletions_acceptLogin request (world.dequeue rest)
  closing _ _ _ _ _ := rfl
  dying _ _ _ := rfl
  usedAfterDelete world _ := by simp [record, Conn.deletions]

theorem deletions_destroyWithin (depth : ℕ) (world : World) :
    (world.destroyWithin codec (depth + 1)).self.deletions =
      (if world.self.status.hasPeer then
        (world.consumeTask codec (destroyWithin codec depth)
          (-1)).self.deletions
      else world.self.deletions) + 1 := by
  rw [destroyWithin]
  split
  · simp [delete, record, Conn.deletions, unregister_history]
  · simp [delete, record, Conn.deletions]

theorem deletions_destroy_settled (depth : ℕ)
    (hsettled : world.self.status ≠ .waitLogin) :
    (world.destroyWithin codec (depth + 1)).self.deletions =
      world.self.deletions + 1 := by
  rw [deletions_destroyWithin,
    consumeTask_of_not_waiting _ id (-1) hsettled,
    @TaskKept.consumeTask codec _ id deletions_taskKept
      (fun _ _ => ⟨rfl, Or.inr rfl⟩) (-1) world, ite_self]

/-- When its worker shuts down, `Destroy` runs inside itself on a connection
that waits for its login. -/
theorem deletions_destroy (hdying : world.dying = true) :
    (world.destroy codec).self.deletions =
      world.self.deletions + if world.self.status = .waitLogin then 2 else 1 := by
  split
  case isFalse hsettled => exact deletions_destroy_settled 1 hsettled
  case isTrue hwait =>
    have hfinish : world.consumeTask codec (destroyWithin codec 1) (-1) =
        world.closeByTask.destroyWithin codec 1 := by
      rw [consumeTask, if_pos ⟨hdying, by simp [hwait]⟩, finish_byTask,
        if_pos hwait]
    have hclosed : world.closeByTask.self.status ≠ .waitLogin := by simp
    rw [destroy, deletions_destroyWithin, if_pos (by rw [hwait]; rfl), hfinish,
      deletions_destroy_settled 0 hclosed]
    rfl

/-! ## The order of the other connections -/

/-- The first connection but for one occurrence of the own one. -/
def NextIs (other : ConnId) (world : World) : Prop :=
  ((world.reg.connections world.self.worker).erase world.self.self).head? =
    some other

end World

section Lists

variable {self other : ConnId} {conns : List ConnId}

theorem head?_erase_of_head? (hother : other ≠ self)
    (hhead : conns.head? = some other) : (conns.erase self).head? =
      some other := by
  obtain ⟨rest, rfl⟩ := List.head?_eq_some_iff.mp hhead
  rw [List.erase_cons_tail (by simpa using hother), List.head?_cons]

theorem head?_erase_concat
    (hnext : (conns.erase self).head? = some other) :
    ((conns ++ [self]).erase self).head? = some other := by
  by_cases hmem : self ∈ conns
  · rw [List.erase_append_left _ hmem, List.head?_append, hnext]
    rfl
  · rw [List.erase_append_right _ hmem]
    rw [List.erase_of_not_mem hmem] at hnext
    simp [hnext]

end Lists

theorem Section.nextIs (sec : Section) {world : World} {other : ConnId}
    (hother : other ≠ world.self.self) (hnext : world.NextIs other) :
    (sec.run world).NextIs other := by
  unfold World.NextIs at hnext ⊢
  cases sec with
  | own self =>
      rw [Section.run]
      split
      case isTrue hkeeps =>
        dsimp only
        rw [hkeeps.1, hkeeps.2.1]
        exact hnext
      case isFalse => exact hnext
  | newLoginCid =>
      simp only [Section.run, World.newLoginCid, Registry.onRegister,
        Function.update_self]
      exact head?_erase_concat hnext
  | clearLoginCid =>
      rw [Section.run, World.clearLoginCid]
      split
      · exact hnext
      · simp only [Registry.onUnregister, Function.update_self]
        exact head?_erase_of_head? hother hnext
  | register cid =>
      simp only [Section.run, World.record, Registry.register, Registry.onRegister,
        Function.update_self]
      exact head?_erase_concat hnext
  | unregister =>
      simp only [Section.run, Registry.onUnregister, Function.update_self,
        Registry.unregister_connections]
      exact head?_erase_of_head? hother hnext
  | delete => exact hnext

theorem Sections.nextIs {before after : World}
    (hsections : Sections before after) {other : ConnId}
    (hother : other ≠ before.self.self) (hnext : before.NextIs other) :
    after.NextIs other := by
  unfold Sections at hsections
  have hkept : ∀ middle : World, Relation.ReflTransGen
      (fun first second => ∃ sec : Section, sec.run first = second)
      { before with results := [] } middle →
        middle.self.self = before.self.self ∧ middle.NextIs other := by
    intro middle hmiddle
    induction hmiddle with
    | refl => exact ⟨rfl, hnext⟩
    | tail _ hstep ih =>
        obtain ⟨sec, rfl⟩ := hstep
        exact ⟨(sec.frame _).self.trans ih.1,
          Section.nextIs sec (ih.1 ▸ hother) ih.2⟩
  exact (hkept _ hsections).2

namespace World

variable {codec : Codec} {world : World}

/-- What `Destroy` of a connection with a peer comes to before its last erase
from `connections_`. -/
def unregistering (codec : Codec) (world : World) : World :=
  ((world.consumeTask codec (destroyWithin codec 1) (-1)).record
    .closed).clearLoginCid

theorem sections_unregistering (world : World) :
    Sections world (world.unregistering codec) := by
  have hkept := @Sections.kept codec
  have hconsume := hkept.consumeTask
    (fun world _ => hkept.destroyWithin 1 world) (-1) world
  exact (hconsume.trans (Sections.record _ .closed nofun)).trans
    (Sections.clearLoginCid _)

theorem frame_unregistering (world : World) :
    Frame world (world.unregistering codec) := by
  have hkept := @Frame.kept codec
  have hconsume := hkept.consumeTask
    (fun world _ => hkept.destroyWithin 1 world) (-1) world
  exact (hconsume.trans (Frame.record _ .closed)).trans (Frame.clearLoginCid _)

theorem destroy_connections (hpeer : world.self.status.hasPeer = true) :
    (world.destroy codec).reg.connections world.self.worker =
      ((world.unregistering codec).reg.connections world.self.worker).erase
        world.self.self := by
  have hframe := @frame_unregistering codec world
  rw [destroy, destroyWithin, if_pos hpeer, ← hframe.self, ← hframe.worker]
  simp only [delete, record, unregister, Registry.onUnregister,
    Registry.unregister_connections]
  exact Function.update_self _ _ _

theorem destroy_connections_of_no_peer
    (hpeer : world.self.status.hasPeer = false) :
    (world.destroy codec).reg = world.reg := by
  rw [destroy, destroyWithin, if_neg (by simp [hpeer])]
  rfl

/-- With another connection next, `Destroy` leaves that one the first. -/
theorem head?_destroy {other : ConnId} (hother : other ≠ world.self.self)
    (hpeer : world.self.status.hasPeer = true) (hnext : world.NextIs other) :
    ((world.destroy codec).reg.connections world.self.worker).head? =
      some other := by
  have hframe := @frame_unregistering codec world
  have hmiddle := (@sections_unregistering codec world).nextIs hother hnext
  rwa [NextIs, hframe.self, hframe.worker, ← destroy_connections hpeer]
    at hmiddle

/-! ## The entries of the own connection -/

/-- How often the connection is in `connections_` but for its deferred
login. -/
def listed (world : World) : ℕ :=
  (world.clearLoginCid.reg.connections world.self.worker).count
    world.self.self

theorem listed_eq (world : World) : world.listed =
    (world.reg.connections world.self.worker).count world.self.self -
      if world.self.lcid = 0 then 0 else 1 := by
  rw [listed, clearLoginCid]
  split
  · rfl
  · simp only [Registry.onUnregister, Function.update_self,
      List.count_erase_self]

theorem listed_congr {before after : World}
    (hreg : after.reg.connections = before.reg.connections)
    (hself : after.self.self = before.self.self)
    (hworker : after.self.worker = before.self.worker)
    (hlcid : after.self.lcid = before.self.lcid) :
    after.listed = before.listed := by
  rw [listed_eq, listed_eq, hreg, hself, hworker, hlcid]

@[simp]
theorem listed_dequeue (rest : List Task) (world : World) :
    (world.dequeue rest).listed = world.listed := listed_congr rfl rfl rfl rfl

@[simp]
theorem listed_closeByTask (world : World) :
    world.closeByTask.listed = world.listed := listed_congr rfl rfl rfl rfl

theorem listed_handle (request : Request) (world : World) :
    (world.handle request).2.listed = world.listed := by
  obtain ⟨hreg, hself⟩ := handle_spec request world
  apply listed_congr
  · rw [hreg]
  all_goals rw [hself]

/-- An accepted login adds an entry. -/
theorem listed_acceptLogin {request : SystemPayload.Login}
    (hid : request.id ≠ 0) (world : World) :
    (world.acceptLogin codec request).2.listed = world.listed + 1 := by
  obtain ⟨stream, -, heq⟩ := @acceptLogin_accepts codec request world hid
  have hconns : ((world.record (.loginTask request.id)).register
      request.id).reg.connections world.self.worker =
        (world.record (.loginTask request.id)).clearLoginCid.reg.connections
          world.self.worker ++ [world.self.self] :=
    register_connections request.id (world.record (.loginTask request.id))
  rw [listed_eq, heq]
  dsimp only
  rw [if_pos rfl, Nat.sub_zero]
  refine (congrArg (List.count world.self.self) hconns).trans ?_
  rw [List.count_append, List.count_singleton_self]
  have hrecord : (world.record (.loginTask request.id)).listed =
      world.listed := listed_congr rfl rfl rfl rfl
  exact congrArg (· + 1) hrecord

theorem listed_acceptLogin_refused {request : SystemPayload.Login}
    (hid : request.id = 0) (world : World) :
    (world.acceptLogin codec request).2.listed = world.listed := by
  rw [acceptLogin, if_pos hid]
  exact listed_congr rfl rfl rfl rfl

theorem registrations_closing {task : Task} (hcloses : task.Closes)
    (rest : List Task) : registrations (task :: rest) = registrations rest := by
  match task, hcloses with
  | .login none, _ => rfl
  | .close, _ => rfl
  | .other _, _ => rfl

theorem listed_drain (tasks : List Task) (world : World) :
    (world.drain codec tasks).listed = world.listed + registrations tasks := by
  induction tasks generalizing world with
  | nil => rfl
  | cons task rest ih =>
      rcases task.cases with ⟨request, rfl⟩ | ⟨request, rfl⟩ | hcloses
      · rw [drain, registrations, ih, listed_handle, listed_dequeue]
      · rw [drain, registrations]
        by_cases hid : request.id = 0
        · rw [if_pos hid, if_pos hid, listed_closeByTask,
            listed_acceptLogin_refused hid, listed_dequeue, Nat.add_zero]
        · rw [if_neg hid, if_neg hid, ih, listed_acceptLogin hid,
            listed_dequeue, Nat.add_assoc, Nat.add_comm 1]
      · rw [drain_closing hcloses, registrations_closing hcloses, ih,
          listed_closeByTask, listed_dequeue]

/-- After `Destroy` a connection is in `connections_` as often as it puts
itself there while it consumes its tasks, and once less. -/
theorem count_destroy (hdying : world.dying = true)
    (hlive : world.self.isDeleted = false)
    (hpeer : world.self.status.hasPeer = true)
    (hsettled : world.self.status ≠ .waitLogin) :
    ((world.destroy codec).reg.connections world.self.worker).count
        world.self.self =
      world.listed + (if world.self.status = .close then
        registrations world.self.stream.tasks else 0) - 1 := by
  have hkept := @Frame.kept codec
  have hframe := hkept.consumeTask
    (fun world _ => hkept.destroyWithin 1 world) (-1) world
  rw [destroy_connections hpeer, List.count_erase_self]
  have hlisted : ((world.unregistering codec).reg.connections
      world.self.worker).count world.self.self =
        (world.consumeTask codec (destroyWithin codec 1) (-1)).listed := by
    have hclosed : ((world.consumeTask codec (destroyWithin codec 1)
        (-1)).record .closed).listed =
          (world.consumeTask codec (destroyWithin codec 1) (-1)).listed :=
      listed_congr rfl rfl rfl rfl
    rw [← hclosed, listed, unregistering, ← hframe.self, ← hframe.worker]
    rfl
  rw [hlisted, consumeTask]
  by_cases hclosed : world.self.status = .close
  · rw [if_pos hclosed, if_neg fun h => h.2 hclosed,
      consumeLoop_eq_drain _ _ (by decide) hsettled hlive, listed_drain]
  · rw [if_neg hclosed, if_pos ⟨hdying, hclosed⟩,
      finish_of_not_waiting hsettled, listed_closeByTask, Nat.add_zero]

/-- `Destroy` puts nobody else into `connections_`. -/
theorem mem_of_single {worker : WorkerId}
    (hconns : world.reg.connections worker = [world.self.self]) :
    ∀ other ∈ (world.destroy codec).reg.connections worker,
      other = world.self.self := by
  intro other hother
  by_contra hne
  have hframe := (@Frame.kept codec).destroy world
  rw [← List.count_pos_iff, hframe.members worker other hne, hconns,
    List.count_eq_zero.mpr (by simpa using hne)] at hother
  exact Nat.lt_irrefl 0 hother

/-- The only connection of its worker is deleted once and leaves
`connections_`. -/
theorem destroy_leaves_iff (hdying : world.dying = true)
    (hlive : world.self.isDeleted = false)
    (hconns : world.reg.connections world.self.worker = [world.self.self]) :
    (world.destroy codec).self.deletions = world.self.deletions + 1 ∧
        (world.destroy codec).reg.connections world.self.worker = [] ↔
      world.self.LeavesOnce := by
  have hlisted := listed_eq world
  rw [hconns, List.count_singleton_self] at hlisted
  have hdeletions := @deletions_destroy codec world hdying
  constructor
  · rintro ⟨honce, hempty⟩
    have hsettled : world.self.status ≠ .waitLogin := by
      intro hwait
      rw [if_pos hwait] at hdeletions
      omega
    have hpeer : world.self.status.hasPeer = true := by
      by_contra hnone
      rw [destroy_connections_of_no_peer (Bool.not_eq_true _ ▸ hnone),
        hconns] at hempty
      exact List.cons_ne_nil _ _ hempty
    refine ⟨hpeer, hsettled, fun hclosed => ?_⟩
    have hcount := @count_destroy codec world hdying hlive hpeer hsettled
    rw [hempty, List.count_nil, if_pos hclosed] at hcount
    split at hlisted <;> split <;> omega
  · rintro ⟨hpeer, hsettled, htasks⟩
    rw [if_neg hsettled] at hdeletions
    refine ⟨hdeletions, List.eq_nil_iff_forall_not_mem.mpr fun other hmem => ?_⟩
    rw [← List.count_pos_iff] at hmem
    by_cases hother : other = world.self.self
    · have hcount := @count_destroy codec world hdying hlive hpeer hsettled
      rw [hother, hcount] at hmem
      split at hmem
      case isTrue hclosed =>
        have hbound := htasks hclosed
        split at hlisted <;> split at hbound <;> omega
      case isFalse => split at hlisted <;> omega
    · exact hother (mem_of_single hconns other (List.count_pos_iff.mp hmem))

end World

/-! ## The loop -/

namespace Server

variable {codec : Codec} {server : Server} {worker : WorkerId}

/-- With no connection at its place the loop ends. -/
theorem shutdownLoop_of_none {index : ℕ}
    (hnone : (server.reg.connections worker)[index]? = none)
    (results : ℕ → List HandlerResult) (fuel : ℕ) :
    server.shutdownLoop codec worker results fuel index = server := by
  cases fuel with
  | zero => rfl
  | succ fuel => rw [shutdownLoop, hnone]

theorem shutdownLoop_of_some {index : ℕ} {conn : ConnId}
    (hvisited : (server.reg.connections worker)[index]? = some conn)
    (results : ℕ → List HandlerResult) (fuel : ℕ) :
    server.shutdownLoop codec worker results (fuel + 1) index =
      (server.runConn conn (results index)
        (World.destroy codec)).shutdownLoop codec worker results fuel
          (index + 1) := by
  rw [shutdownLoop, hvisited]

theorem runConn_conns_of_ne {conn other : ConnId} (hother : other ≠ conn)
    (results : List HandlerResult) (method : World → World) :
    (server.runConn conn results method).conns other = server.conns other := by
  rw [runConn]
  split
  · rfl
  · exact Function.update_of_ne hother _ _

/-- What the loop does when it comes to a connection. -/
theorem exists_visited (codec : Codec) (hwf : server.WellFormed)
    {conn : ConnId} (hmember : conn ∈ server.reg.connections worker)
    (results : List HandlerResult) :
    ∃ self : Conn, ∃ world : World, world = ⟨self, server.reg, results⟩ ∧
      server.conns conn = some self ∧ self.self = conn ∧
      self.worker = worker ∧
      server.runConn conn results (World.destroy codec) =
        { server with
          conns := Function.update server.conns conn
            (some (world.destroy codec).self)
          reg := (world.destroy codec).reg } := by
  obtain ⟨self, hconn, hworker⟩ := hwf.member worker conn hmember
  exact ⟨self, _, rfl, hconn, (hwf.known conn self hconn).1, hworker,
    runConn_of_some hconn results _⟩

theorem dying_visited (hwf : server.WellFormed)
    (hdying : server.reg.dying worker = true) {conn : ConnId}
    (hmember : conn ∈ server.reg.connections worker)
    (results : List HandlerResult) :
    (server.runConn conn results (World.destroy codec)).reg.dying worker =
      true := by
  obtain ⟨self, world, rfl, -, -, -, hrun⟩ :=
    exists_visited codec hwf hmember results
  have hframe := (@Frame.kept codec).destroy ⟨self, server.reg, results⟩
  rw [hrun]
  exact (congrFun hframe.dying worker).trans hdying

theorem deletions_visited (hwf : server.WellFormed)
    (hdying : server.reg.dying worker = true) {conn : ConnId} {self : Conn}
    (hconn : server.conns conn = some self)
    (hmember : conn ∈ server.reg.connections worker)
    (results : List HandlerResult) :
    ∃ after, (server.runConn conn results (World.destroy codec)).conns conn =
      some after ∧ self.deletions < after.deletions := by
  obtain ⟨state, world, rfl, hfound, -, hworker, hrun⟩ :=
    exists_visited codec hwf hmember results
  obtain rfl := Option.some.inj (hconn.symm.trans hfound)
  rw [hrun]
  refine ⟨_, Function.update_self _ _ _, ?_⟩
  rw [World.deletions_destroy (by rw [World.dying, hworker]; exact hdying)]
  dsimp only
  split <;> omega

theorem head?_visited (hwf : server.WellFormed) {first conn : ConnId}
    (hfirst : (server.reg.connections worker).head? = some first)
    (hother : first ≠ conn)
    (hmember : conn ∈ server.reg.connections worker)
    (results : List HandlerResult) :
    ((server.runConn conn results
      (World.destroy codec)).reg.connections worker).head? = some first ∧
      ((server.runConn conn results
        (World.destroy codec)).reg.connections worker).count first =
          (server.reg.connections worker).count first := by
  obtain ⟨self, world, rfl, -, hself, hworker, hrun⟩ :=
    exists_visited codec hwf hmember results
  have hframe := (@Frame.kept codec).destroy ⟨self, server.reg, results⟩
  rw [hrun]
  refine ⟨?_, hframe.members worker first (by rwa [hself])⟩
  cases hpeer : self.status.hasPeer with
  | true =>
      have hdestroyed := @World.head?_destroy codec ⟨self, server.reg, results⟩
        first (by rwa [hself]) hpeer
      rw [hworker] at hdestroyed
      apply hdestroyed
      rw [World.NextIs, hworker, hself]
      exact head?_erase_of_head? hother hfirst
  | false =>
      have hreg := @World.destroy_connections_of_no_peer codec
        ⟨self, server.reg, results⟩ hpeer
      dsimp only
      rw [hreg]
      exact hfirst

/-- A connection that stands first and only there is never reached by the loop
once that is behind the first place. -/
theorem head?_shutdownLoop (hwf : server.WellFormed) {first : ConnId}
    (hfirst : (server.reg.connections worker).head? = some first)
    (honce : (server.reg.connections worker).count first = 1)
    (results : ℕ → List HandlerResult) (fuel : ℕ) {index : ℕ}
    (hindex : 0 < index) :
    ((server.shutdownLoop codec worker results fuel
      index).reg.connections worker).head? = some first := by
  induction fuel generalizing index server with
  | zero => exact hfirst
  | succ fuel ih =>
      cases hvisited : (server.reg.connections worker)[index]? with
      | none =>
          rw [shutdownLoop_of_none hvisited]
          exact hfirst
      | some conn =>
          have hmember := List.mem_of_getElem? hvisited
          have hother : first ≠ conn := by
            obtain ⟨rest, hconns⟩ := List.head?_eq_some_iff.mp hfirst
            rw [hconns, List.count_cons_self] at honce
            obtain ⟨place, rfl⟩ := Nat.exists_eq_add_of_lt hindex
            rw [hconns, Nat.zero_add, List.getElem?_cons_succ] at hvisited
            rintro rfl
            have hpos := List.count_pos_iff.mpr (List.mem_of_getElem? hvisited)
            omega
          obtain ⟨hhead, hcount⟩ := @head?_visited codec server worker hwf
            first conn hfirst hother hmember (results index)
          rw [shutdownLoop_of_some hvisited]
          exact ih (hwf.runConn _ _ Frame.kept.destroy) hhead
            (hcount.trans honce) (Nat.succ_pos index)

/-- The loop takes no deletion back. -/
theorem deletions_shutdownLoop (hwf : server.WellFormed)
    (hdying : server.reg.dying worker = true)
    (results : ℕ → List HandlerResult) (fuel index : ℕ) {conn : ConnId}
    {self : Conn} (hconn : server.conns conn = some self) :
    ∃ after, (server.shutdownLoop codec worker results fuel index).conns conn =
        some after ∧ self.deletions ≤ after.deletions := by
  induction fuel generalizing index server self with
  | zero => exact ⟨self, hconn, Nat.le_refl _⟩
  | succ fuel ih =>
      cases hvisited : (server.reg.connections worker)[index]? with
      | none =>
          rw [shutdownLoop_of_none hvisited]
          exact ⟨self, hconn, Nat.le_refl _⟩
      | some visited =>
          have hmember := List.mem_of_getElem? hvisited
          have hwf' := hwf.runConn visited (results index)
            (@Frame.kept codec).destroy
          have hdying' := @dying_visited codec server worker hwf hdying
            visited hmember (results index)
          rw [shutdownLoop_of_some hvisited]
          by_cases hsame : conn = visited
          · subst hsame
            obtain ⟨middle, hmiddle, hlt⟩ := @deletions_visited codec server
              worker hwf hdying conn self hconn hmember (results index)
            obtain ⟨after, hafter, hle⟩ := ih hwf' hdying' (index + 1) hmiddle
            exact ⟨after, hafter, Nat.le_trans (Nat.le_of_lt hlt) hle⟩
          · apply ih hwf' hdying' (index + 1)
            rw [runConn_conns_of_ne hsame]
            exact hconn

/-- A connection that is still in `connections_` behind its visit stays there
or is destroyed again. -/
theorem left_or_again (hwf : server.WellFormed)
    (hdying : server.reg.dying worker = true) {self : Conn}
    (hself : server.conns self.self = some self)
    (honly : ∀ other ∈ server.reg.connections worker, other = self.self)
    (hleft : server.reg.connections worker ≠ [])
    (results : ℕ → List HandlerResult) (fuel index : ℕ) :
    (server.shutdownLoop codec worker results fuel
        index).reg.connections worker ≠ [] ∨
      ∃ after, (server.shutdownLoop codec worker results fuel index).conns
        self.self = some after ∧ self.deletions < after.deletions := by
  cases fuel with
  | zero => exact Or.inl hleft
  | succ fuel =>
      cases hvisited : (server.reg.connections worker)[index]? with
      | none =>
          rw [shutdownLoop_of_none hvisited]
          exact Or.inl hleft
      | some conn =>
          have hmember := List.mem_of_getElem? hvisited
          obtain rfl := honly conn hmember
          obtain ⟨middle, hmiddle, hlt⟩ := @deletions_visited codec server
            worker hwf hdying _ self hself hmember (results index)
          obtain ⟨after, hafter, hle⟩ := deletions_shutdownLoop
            (hwf.runConn _ (results index) (@Frame.kept codec).destroy)
            (@dying_visited codec server worker hwf hdying _ hmember
              (results index)) results fuel (index + 1) hmiddle
          rw [shutdownLoop_of_some hvisited]
          exact Or.inr ⟨after, hafter, Nat.lt_of_lt_of_le hlt hle⟩

/-- The only connection of the worker is to be gone behind its first visit. -/
theorem shutsDown_single_iff (hwf : server.WellFormed)
    (hdying : server.reg.dying worker = true) {self : Conn}
    (hself : server.conns self.self = some self) (hworker : self.worker = worker)
    (hconns : server.reg.connections worker = [self.self])
    (results : ℕ → List HandlerResult) (fuel : ℕ) :
    ShutsDown server
        (server.shutdownLoop codec worker results (fuel + 1) 0) worker ↔
      (World.destroy codec
          ⟨self, server.reg, results 0⟩).self.deletions = self.deletions + 1 ∧
        (World.destroy codec
          ⟨self, server.reg, results 0⟩).reg.connections worker = [] := by
  have hrun := runConn_of_some hself (results 0) (World.destroy codec)
  have hfirst : (server.reg.connections worker)[0]? = some self.self := by
    rw [hconns]
    rfl
  have hwf' := hwf.runConn self.self (results 0) (@Frame.kept codec).destroy
  have hframe := (@Frame.kept codec).destroy ⟨self, server.reg, results 0⟩
  have hnext := @World.deletions_destroy codec ⟨self, server.reg, results 0⟩
    (by rw [World.dying, hworker]; exact hdying)
  have hmember : self.self ∈ server.reg.connections worker := by
    rw [hconns]
    exact List.mem_singleton_self _
  have hdying' := @dying_visited codec server worker hwf hdying _ hmember
    (results 0)
  rw [shutdownLoop_of_some hfirst]
  rw [hrun] at hwf' hdying' ⊢
  have hself' : (World.destroy codec
      ⟨self, server.reg, results 0⟩).self.self = self.self := hframe.self
  constructor
  · rintro ⟨honce, hempty⟩
    obtain ⟨after, hafter, hdeletions⟩ := honce _ hmember self hself
    obtain ⟨last, hlast, hle⟩ := @deletions_shutdownLoop codec _ worker hwf'
      hdying' results fuel 1 self.self _ (Function.update_self _ _ _)
    obtain rfl := Option.some.inj (hafter.symm.trans hlast)
    have honly : (World.destroy codec
        ⟨self, server.reg, results 0⟩).self.deletions = self.deletions + 1 := by
      dsimp only at hnext
      split at hnext <;> omega
    refine ⟨honly, ?_⟩
    by_contra hleft
    have howner := @World.mem_of_single codec ⟨self, server.reg, results 0⟩
      worker hconns
    rcases left_or_again hwf' hdying'
      (by rw [hself']; exact Function.update_self _ _ _)
      (by rw [hself']; exact howner) hleft results fuel 1 with
      hstays | ⟨again, hagain, hlt⟩
    · exact hstays hempty
    · rw [hself'] at hagain
      obtain rfl := Option.some.inj (hlast.symm.trans hagain)
      omega
  · rintro ⟨honce, hempty⟩
    have hnone : ([] : List ConnId)[1]? = none := rfl
    rw [← hempty] at hnone
    rw [shutdownLoop_of_none hnone]
    refine ⟨?_, hempty⟩
    intro conn hconn state hstate
    rw [hconns, List.mem_singleton] at hconn
    subst hconn
    obtain rfl := Option.some.inj (hself.symm.trans hstate)
    exact ⟨_, Function.update_self _ _ _, honce⟩

/-- Behind the visit of the first one of two connections one of them stands
first, and only there. -/
theorem exists_left {first second : ConnId} {rest : List ConnId}
    (hwf : server.WellFormed)
    (hdistinct : (server.reg.connections worker).Nodup)
    (hconns : server.reg.connections worker = first :: second :: rest)
    (results : List HandlerResult) :
    ∃ left, ((server.runConn first results
        (World.destroy codec)).reg.connections worker).head? = some left ∧
      ((server.runConn first results
        (World.destroy codec)).reg.connections worker).count left = 1 := by
  have hfirst : first ∈ server.reg.connections worker := by
    rw [hconns]
    exact List.mem_cons_self
  have hsecond : second ∈ server.reg.connections worker := by
    rw [hconns]
    exact List.mem_cons_of_mem first List.mem_cons_self
  obtain ⟨self, world, rfl, -, hself, hworker, hrun⟩ :=
    exists_visited codec hwf hfirst results
  have hframe := (@Frame.kept codec).destroy ⟨self, server.reg, results⟩
  rw [hrun]
  cases hpeer : self.status.hasPeer with
  | true =>
      have hother : second ≠ first := by
        rintro rfl
        rw [hconns] at hdistinct
        exact (List.nodup_cons.mp hdistinct).1 List.mem_cons_self
      have hdestroyed := @World.head?_destroy codec
        ⟨self, server.reg, results⟩ second (by rwa [hself]) hpeer
      rw [hworker] at hdestroyed
      refine ⟨second, hdestroyed ?_, ?_⟩
      · rw [World.NextIs, hworker, hself, hconns, List.erase_cons_head]
        rfl
      · rw [hframe.members worker second (by rwa [hself])]
        exact List.count_eq_one_of_mem hdistinct hsecond
  | false =>
      have hreg := @World.destroy_connections_of_no_peer codec
        ⟨self, server.reg, results⟩ hpeer
      refine ⟨first, ?_, ?_⟩
      · dsimp only
        rw [hreg, hconns]
        rfl
      · dsimp only
        rw [hreg]
        exact List.count_eq_one_of_mem hdistinct hfirst

/-- The SHUTDOWN branch destroys every connection once and leaves none exactly
if there is at most one: it passes over the second one of two. -/
theorem shuts_down_iff (codec : Codec) (hwf : server.WellFormed)
    (hdying : server.reg.dying worker = true)
    (hdistinct : (server.reg.connections worker).Nodup)
    (hlive : ∀ conn ∈ server.reg.connections worker,
      ∀ self ∈ server.conns conn, self.isDeleted = false)
    (results : ℕ → List HandlerResult) {fuel : ℕ}
    (hfuel : (server.reg.connections worker).length ≤ fuel) :
    ShutsDown server (server.shutdownLoop codec worker results fuel 0) worker ↔
      server.AtMostOne worker := by
  rw [AtMostOne]
  match hconns : server.reg.connections worker with
  | [] =>
      have hnone : (server.reg.connections worker)[0]? = none := by
        rw [hconns]
        rfl
      rw [shutdownLoop_of_none hnone]
      refine iff_of_true ⟨?_, hconns⟩ trivial
      rw [hconns]
      exact fun conn hconn => absurd hconn List.not_mem_nil
  | [conn] =>
      have hmember : conn ∈ server.reg.connections worker := by
        rw [hconns]
        exact List.mem_singleton_self conn
      obtain ⟨self, hconn, hworker⟩ := hwf.member worker conn hmember
      obtain rfl := (hwf.known conn self hconn).1
      obtain ⟨fuel, rfl⟩ : ∃ more, fuel = more + 1 := by
        rw [hconns] at hfuel
        exact Nat.exists_eq_add_of_le' hfuel
      rw [shutsDown_single_iff hwf hdying hconn hworker hconns]
      subst hworker
      refine (@World.destroy_leaves_iff codec ⟨self, server.reg, results 0⟩
        hdying (hlive _ hmember self hconn) hconns).trans ?_
      dsimp only
      rw [hconn]
      simp
  | first :: second :: rest =>
      obtain ⟨fuel, rfl⟩ : ∃ more, fuel = more + 1 := by
        rw [hconns] at hfuel
        exact Nat.exists_eq_add_of_le' (Nat.le_trans (Nat.succ_pos _) hfuel)
      obtain ⟨left, hleft, honce⟩ := @exists_left codec server worker first
        second rest hwf hdistinct hconns (results 0)
      have hvisited : (server.reg.connections worker)[0]? = some first := by
        rw [hconns]
        rfl
      have hstays := @head?_shutdownLoop codec _ worker
        (hwf.runConn first (results 0) (@Frame.kept codec).destroy) left hleft
        honce results fuel 1 Nat.one_pos
      rw [← shutdownLoop_of_some hvisited] at hstays
      refine iff_of_false (fun hshuts => ?_) id
      rw [hshuts.empty] at hstays
      contradiction

/-- A worker that shuts down with this many connections in READ. -/
private def serving (count : ℕ) : Server where
  conns conn :=
    if conn < count then some { Conn.new conn 0 with status := .read }
    else none
  next := count
  reg :=
    { cmap := fun _ => none
      pmap := fun _ => none
      loginCidSeed := 0
      connections := fun worker => if worker = 0 then List.range count else []
      dying := fun _ => true }
  finishing := []
  handles := []

private theorem wellFormed_serving (count : ℕ) :
    (serving count).WellFormed where
  known conn self hconn := by
    simp only [serving, Option.ite_none_right_eq_some] at hconn
    obtain ⟨hbelow, hself⟩ := hconn
    rw [← Option.some.inj hself]
    exact ⟨rfl, hbelow⟩
  cmap _ _ hentry := by simp [serving] at hentry
  pmap _ _ hentry := by simp [serving] at hentry
  member worker conn hmember := by
    simp only [serving] at hmember ⊢
    split at hmember
    case isTrue hworker =>
      rw [if_pos (List.mem_range.mp hmember)]
      exact ⟨_, rfl, hworker.symm⟩
    case isFalse => contradiction
  finishing _ _ hmem := by simp [serving] at hmem
  handles _ hmem := by simp [serving] at hmem

theorem shuts_down_iff_serving :
    ShutsDown (serving 1)
        ((serving 1).shutdownLoop .small 0 (fun _ => []) 1 0) 0 ↔
      (serving 1).AtMostOne 0 :=
  @shuts_down_iff (serving 1) 0 .small (wellFormed_serving 1) rfl (by decide)
    (by decide) (fun _ => []) 1 (by decide)

/-- The second one of two connections is passed over. -/
theorem shuts_down_iff_fails :
    (serving 2).reg.connections 0 = [0, 1] ∧
      ((serving 2).shutdownLoop .small 0 (fun _ => []) 2 0).reg.connections 0 =
        [1] ∧
      ¬ShutsDown (serving 2)
        ((serving 2).shutdownLoop .small 0 (fun _ => []) 2 0) 0 := by
  have hleft : ((serving 2).shutdownLoop .small 0 (fun _ => [])
      2 0).reg.connections 0 = [1] := by decide
  refine ⟨by decide, hleft, fun hshuts => ?_⟩
  rw [hshuts.empty] at hleft
  contradiction

end Server

end GrpcMtk
