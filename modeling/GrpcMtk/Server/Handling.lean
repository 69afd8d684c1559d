import Mathlib.Data.List.Perm.Subperm
import GrpcMtk.Server.Methods
import GrpcMtk.Server.System

/-!
# What the handler is called with

A server keeps the requests it has yet to handle in two places, the one it has
just read and the tasks that `AddTask` has enqueued.  It calls the handler with
each of them at most once: a method calls it only with what was in hand, and an
action puts in hand what it reads in READ and what it enqueues.
-/

namespace GrpcMtk

open GrpcMtk.Proto

def ConnEvent.request : ConnEvent → Option Request
  | .handled request => some request
  | _ => none

def Task.request : Task → Option Request
  | .normal request => some request
  | _ => none

/-- What the handler of a connection was called with, newest first. -/
def Conn.handled (state : Conn) : List Request :=
  state.history.filterMap ConnEvent.request

/-- What the handler was called with and the tasks are to call it with. -/
def Conn.inHand (state : Conn) : List Request :=
  state.handled ++ state.stream.tasks.filterMap Task.request

/-! ## What a method hands on -/

/-- A method calls the handler only with what was in hand. -/
def Spends (before after : World) : Prop :=
  List.Subperm after.self.inHand before.self.inHand

namespace Spends

variable {codec : Codec} {before after third : World}

theorem trans (hfirst : Spends before after) (hsecond : Spends after third) :
    Spends before third :=
  List.Subperm.trans hsecond hfirst

theorem refl (world : World) : Spends world world := List.Subperm.refl _

/-- No call is recorded, and no task comes in. -/
theorem of_sublist (hhandled : after.self.handled = before.self.handled)
    (htasks : List.Sublist after.self.stream.tasks before.self.stream.tasks) :
    Spends before after := by
  rw [Spends, Conn.inHand, Conn.inHand, hhandled]
  exact ((htasks.filterMap _).append_left _).subperm

theorem of_eq (hhandled : after.self.handled = before.self.handled)
    (htasks : after.self.stream.tasks = before.self.stream.tasks) :
    Spends before after :=
  of_sublist hhandled (htasks ▸ List.Sublist.refl _)

theorem record {event : ConnEvent} (hevent : event.request = none)
    (world : World) : Spends world (world.record event) :=
  of_eq (List.filterMap_cons_none hevent) rfl

theorem dequeue {world : World} {task : Task} {rest : List Task}
    (htasks : world.self.stream.tasks = task :: rest) :
    Spends world (world.dequeue rest) :=
  of_sublist rfl (htasks ▸ List.sublist_cons_self _ _)

theorem clearLoginCid (world : World) : Spends world world.clearLoginCid := by
  unfold World.clearLoginCid
  split <;> exact of_eq rfl rfl

theorem register (cid : ℕ) (world : World) :
    Spends world (world.register cid) := by
  have hself := World.register_self cid world
  apply of_eq <;> rw [hself]
  exact List.filterMap_cons_none rfl

theorem unregister (world : World) : Spends world world.unregister :=
  (clearLoginCid world).trans (of_eq rfl rfl)

theorem closeByTask (world : World) : Spends world world.closeByTask :=
  of_eq rfl rfl

theorem sysRep (msgid : ℕ) (payload : Bytes) (world : World) :
    Spends world (world.sysRep msgid payload) :=
  of_eq rfl (SVStream.send_tasks _ _)

theorem deny (msgid : ℕ) (payload : Bytes) (world : World) :
    Spends world (world.deny msgid payload) := by
  refine trans ?_ (record rfl _)
  exact of_eq rfl (SVStream.send_tasks _ _)

/-- The handler is called with one request more. -/
theorem handle_inHand (request : Request) (world : World) :
    (world.handle request).2.self.inHand = request :: world.self.inHand := by
  have hself := (World.handle_spec request world).2
  rw [Conn.inHand, Conn.handled, hself]
  rfl

/-- A task in the queue is handled once. -/
theorem handleTask {world : World} {request : Request} {rest : List Task}
    (htasks : world.self.stream.tasks = .normal request :: rest) :
    Spends world ((world.dequeue rest).handle request).2 := by
  have hmoved : List.Perm (request :: (world.dequeue rest).self.inHand)
      world.self.inHand := by
    rw [Conn.inHand, Conn.inHand, htasks]
    exact List.perm_middle.symm
  rw [Spends, handle_inHand]
  exact hmoved.subperm

theorem acceptLogin (request : SystemPayload.Login) (world : World) :
    Spends world (world.acceptLogin codec request).2 := by
  have htask := @record (.loginTask request.id) rfl world
  unfold World.acceptLogin
  dsimp only
  split
  · exact htask.trans (deny _ _ _)
  · refine (htask.trans (register request.id _)).trans ?_
    exact of_eq rfl (SVStream.send_tasks _ _)

/-- What the methods that run each other hand on. -/
theorem kept : Kept codec Spends where
  refl := refl
  trans := trans
  normal _ _ _ htasks := handleTask htasks
  accept _ request _ htasks _ :=
    (dequeue htasks).trans (acceptLogin request _)
  refuse _ request _ htasks _ :=
    ((dequeue htasks).trans (acceptLogin request _)).trans (closeByTask _)
  closing _ _ _ htasks _ := (dequeue htasks).trans (closeByTask _)
  dying world _ _ := closeByTask world
  usedAfterDelete world _ := record rfl world
  close world := (record rfl world).trans (unregister _)
  delete world := by
    have hunref : Spends world
        { world with self.stream := world.self.stream.unref } :=
      of_eq rfl (SVStream.unref_tasks _)
    exact hunref.trans (record rfl _)

theorem acceptorCalls (calls : List AcceptorCall) (world : World) :
    Spends world (calls.foldl World.acceptorCall world) := by
  induction calls generalizing world with
  | nil => exact refl world
  | cons call rest ih =>
      have hcall : Spends world (world.acceptorCall call) := by
        cases call <;> exact of_eq rfl rfl
      exact hcall.trans (ih _)

theorem login (acceptor : AcceptorResult) (world : World) :
    Spends world (world.login codec acceptor).2 := by
  have hhandler : Spends world (world.handlerLogin codec acceptor).2.2 := by
    unfold World.handlerLogin
    split
    · exact refl world
    · exact acceptorCalls acceptor.calls world
  have hreturned := hhandler.trans
    (@record (.loginReturned (world.handlerLogin codec acceptor).1) rfl _)
  dsimp only [World.login]
  split
  · exact hreturned
  · split
    · exact hreturned.trans (sysRep _ _ _)
    · exact hreturned.trans (deny _ _ _)

theorem finish (destroy : World → World) (world : World) :
    Spends world (world.finish destroy false) :=
  of_eq rfl rfl

/-- More may be in hand. -/
theorem subperm_append (hspends : Spends before after)
    (given : List Request) :
    List.Subperm after.self.inHand (before.self.inHand ++ given) :=
  List.Subperm.trans hspends (List.sublist_append_left _ _).subperm

end Spends

namespace World

variable {codec : Codec}

/-- Only in READ a connection hands on the request it has read. -/
theorem step_inHand (acceptor : AcceptorResult) (world : World) :
    List.Subperm (world.step codec acceptor).self.inHand
      (world.self.inHand ++
        if world.self.status = .read then [world.self.req] else []) := by
  cases hstatus : world.self.status with
  | read =>
      rw [if_pos rfl]
      simp only [World.step, hstatus]
      split
      · exact Spends.subperm_append (Spends.finish _ world) _
      · have hhandled : List.Perm (world.handle world.self.req).2.self.inHand
            (world.self.inHand ++ [world.self.req]) := by
          rw [Spends.handle_inHand]
          exact (List.perm_append_singleton _ _).symm
        split
        · exact hhandled.subperm
        · have hfinish := Spends.finish (World.destroy codec)
            (world.handle world.self.req).2
          exact List.Subperm.trans hfinish hhandled.subperm
  | init | accept =>
      apply Spends.subperm_append
      simp only [World.step, hstatus]
      exact .of_eq rfl rfl
  | login =>
      apply Spends.subperm_append
      simp only [World.step, hstatus]
      have hlogin := @Spends.login codec acceptor world
      split
      · exact .finish _ world
      · split
        · exact hlogin.trans (.finish _ _)
        · split
          · exact hlogin
          · have hregister := hlogin.trans
              (.register (world.login codec acceptor).1 _)
            exact hregister.trans (.of_eq rfl rfl)
  | close =>
      apply Spends.subperm_append
      simp only [World.step, hstatus]
      exact Spends.kept.destroy world
  | waitLogin | write =>
      apply Spends.subperm_append
      simp only [World.step, hstatus]
      exact .finish _ world

theorem process_inHand (ok : Bool) (request : Request)
    (acceptor : AcceptorResult) (world : World) :
    List.Subperm (world.process codec ok request acceptor).self.inHand
      (world.self.inHand ++
        if ok = true ∧ world.self.status = .read then [request] else []) := by
  dsimp only [World.process]
  cases ok with
  | false =>
      have hpopped : Spends world
          { world with self.pending := world.self.pending - 1 } :=
        .of_eq rfl rfl
      exact Spends.subperm_append (hpopped.trans (Spends.kept.destroy _)) _
  | true =>
      rw [if_pos rfl]
      split
      case isTrue hstatus =>
        have hnone : ¬world.self.status = .read := by
          rw [hstatus]
          exact StreamStatus.noConfusion
        have hstep := @step_inHand codec acceptor
          { world with self.pending := world.self.pending - 1 }
        rw [if_neg hnone] at hstep
        rw [if_neg fun hread => hnone hread.2]
        exact hstep
      case isFalse hstatus =>
        have hstep := @step_inHand codec acceptor
          { world with
            self.pending := world.self.pending - 1
            self.req := request }
        simp only [true_and]
        exact hstep

end World

/-! ## What a server hands on -/

namespace Server

def inHand (server : Server) (conn : ConnId) : List Request :=
  match server.conns conn with
  | none => []
  | some self => self.inHand

/-- What an action puts in the hand of a connection: the request that it reads
in READ, or that of a task. -/
def Action.given (server : Server) (conn : ConnId) : Action → List Request
  | .complete other true request _ _ =>
      if other = conn ∧
          (server.conns conn).any (fun self => self.status = .read) then
        [request]
      else []
  | .addTask other request => if other = conn then [request] else []
  | _ => []

section Hands

variable {codec : Codec} {server next : Server}

/-- A server hands on what it has and what it is given. -/
def Hands (given : ConnId → List Request) (server next : Server) : Prop :=
  ∀ conn, List.Subperm (next.inHand conn) (server.inHand conn ++ given conn)

theorem inHand_of_some {conn : ConnId} {self : Conn}
    (hconn : server.conns conn = some self) :
    server.inHand conn = self.inHand := by
  rw [inHand, hconn]

theorem Hands.of_conns (given : ConnId → List Request)
    (hconns : next.conns = server.conns) : Hands given server next := by
  intro conn
  rw [inHand, hconns]
  exact (List.sublist_append_left _ _).subperm

theorem Hands.mono {given more : ConnId → List Request}
    (hhands : Hands given server next)
    (hmore : ∀ conn, List.Sublist (given conn) (more conn)) :
    Hands more server next := fun conn =>
  (hhands conn).trans ((hmore conn).append_left _).subperm

theorem Hands.trans_of_nothing {third : Server}
    {given : ConnId → List Request}
    (hfirst : Hands (fun _ => []) server next)
    (hsecond : Hands given next third) : Hands given server third := by
  intro conn
  have hkept := hfirst conn
  rw [List.append_nil] at hkept
  exact (hsecond conn).trans ((List.subperm_append_right _).mpr hkept)

/-- One connection is changed. -/
theorem Hands.of_update {given : ConnId → List Request} {conn : ConnId}
    {self self' : Conn} (hconn : server.conns conn = some self)
    (hconns : next.conns = Function.update server.conns conn (some self'))
    (hself : List.Subperm self'.inHand (self.inHand ++ given conn)) :
    Hands given server next := by
  intro other
  by_cases hsame : other = conn
  · subst hsame
    rw [inHand_of_some hconn, inHand, hconns, Function.update_self]
    exact hself
  · rw [inHand, inHand, hconns, Function.update_of_ne hsame]
    exact (List.sublist_append_left _ _).subperm

theorem Hands.runConn {given : ConnId → List Request} (conn : ConnId)
    (results : List HandlerResult) {method : World → World}
    (hmethod : ∀ self, server.conns conn = some self →
      List.Subperm (method ⟨self, server.reg, results⟩).self.inHand
        (self.inHand ++ given conn)) :
    Hands given server (server.runConn conn results method) := by
  cases hconn : server.conns conn with
  | none =>
      rw [runConn_of_none hconn]
      exact .of_conns _ rfl
  | some self =>
      rw [runConn_of_some hconn]
      exact .of_update hconn rfl (hmethod self hconn)

theorem Hands.onStream {given : ConnId → List Request} (conn : ConnId)
    {change : SVStream → SVStream}
    (hchange : ∀ stream, List.Subperm
      ((change stream).tasks.filterMap Task.request)
      (stream.tasks.filterMap Task.request ++ given conn)) :
    Hands given server (server.onStream conn change) := by
  cases hconn : server.conns conn with
  | none =>
      rw [onStream_of_none hconn]
      exact .of_conns _ rfl
  | some self =>
      rw [onStream_of_some hconn]
      refine .of_update hconn rfl ?_
      rw [Conn.inHand, Conn.inHand, List.append_assoc]
      exact (List.subperm_append_left _).mpr (hchange self.stream)

/-- A change of a stream that enqueues no request. -/
theorem Hands.onStream_of_eq (given : ConnId → List Request) (conn : ConnId)
    {change : SVStream → SVStream}
    (hchange : ∀ stream, (change stream).tasks.filterMap Task.request =
      stream.tasks.filterMap Task.request) :
    Hands given server (server.onStream conn change) :=
  .onStream conn fun stream => by
    rw [hchange stream]
    exact (List.sublist_append_left _ _).subperm

theorem Hands.newConn (worker : WorkerId) :
    Hands (fun _ => []) server (server.newConn codec worker) := by
  intro other
  rw [List.append_nil, newConn_eq]
  by_cases hsame : other = server.next
  · subst hsame
    rw [inHand_of_some (Function.update_self _ _ _)]
    exact List.nil_subperm
  · rw [inHand, inHand]
    dsimp only
    rw [Function.update_of_ne hsame]

theorem Hands.shutdownLoop (worker : WorkerId)
    (results : ℕ → List HandlerResult) (fuel index : ℕ) :
    Hands (fun _ => []) server
      (server.shutdownLoop codec worker results fuel index) := by
  induction fuel generalizing index server with
  | zero => exact .of_conns _ rfl
  | succ fuel ih =>
      unfold Server.shutdownLoop
      split
      · exact .of_conns _ rfl
      case h_2 conn hmember =>
        refine Hands.trans_of_nothing (.runConn conn _ fun self _ => ?_) (ih _)
        exact (Spends.kept.destroy _).subperm_append []

theorem Hands.complete (hwf : WellFormed server) {conn : ConnId} {ok : Bool}
    {request : Request} {acceptor : AcceptorResult}
    {results : List HandlerResult} {self : Conn}
    (hconn : server.conns conn = some self) :
    Hands (fun other => if other = conn ∧ ok = true ∧ self.status = .read then
        [request] else []) server
      (server.complete codec conn ok request acceptor results) := by
  have hprocess : ∀ other : Server, other.conns conn = some self →
      Hands (fun other => if other = conn ∧ ok = true ∧ self.status = .read
        then [request] else []) other
        (other.runConn conn results
          (World.process codec ok request acceptor)) := by
    intro other hsame
    refine .runConn conn results fun state hstate => ?_
    rw [hsame, Option.some.injEq] at hstate
    subst hstate
    simp only [true_and]
    exact World.process_inHand ok request acceptor _
  rw [Server.complete, hconn]
  dsimp only
  split
  · refine (Hands.newConn self.worker).trans_of_nothing (hprocess _ ?_)
    rw [newConn_eq]
    refine (Function.update_of_ne ?_ _ _).trans hconn
    rintro rfl
    rw [hwf.fresh] at hconn
    contradiction
  · exact hprocess server hconn

/-- A step hands on what is in hand and what its action gives. -/
theorem hands_step {action : Action} (hwf : WellFormed server)
    (hstep : server.step codec action = some next) :
    Hands (fun conn => action.given server conn) server next := by
  cases action with
  | launch worker =>
      obtain rfl := Option.some.inj hstep
      exact .newConn worker
  | complete conn ok request acceptor results =>
      obtain ⟨self, hconn, -, rfl⟩ := step_complete hstep
      refine (Hands.complete hwf hconn).mono fun other => ?_
      split
      case isTrue hgiven =>
        obtain ⟨rfl, rfl, hread⟩ := hgiven
        rw [Action.given, hconn, if_pos ⟨rfl, by simp [hread]⟩]
      · exact List.nil_sublist _
  | consume conn results =>
      obtain ⟨-, -, -, rfl⟩ := step_consume hstep
      exact .runConn conn results fun _ _ =>
        (Spends.kept.consumeTask Spends.kept.destroyKept 3 _).subperm_append _
  | shutdown worker results =>
      obtain ⟨-, -, rfl⟩ := step_shutdown hstep
      exact .shutdownLoop worker results _ 0
  | prepareShutdown worker =>
      obtain rfl := Option.some.inj hstep
      exact .of_conns _ rfl
  | finishLogin lcid cid msgid data =>
      rcases step_finishLogin hstep with ⟨-, rfl⟩ | ⟨conn, -, rfl⟩
      · exact .of_conns _ rfl
      · exact .of_conns _ rfl
  | postLogin conn request =>
      obtain ⟨-, rfl⟩ := step_postLogin hstep
      refine .onStream_of_eq _ conn fun stream => ?_
      rw [SVStream.enqueue, List.filterMap_append]
      exact List.append_nil _
  | getStream cid =>
      rcases step_getStream hstep with ⟨-, rfl⟩ | ⟨conn, -, rfl⟩
      · exact .of_conns _ rfl
      · exact .onStream_of_eq _ conn fun _ => rfl
  | closeStream conn =>
      obtain ⟨-, rfl⟩ := step_closeStream hstep
      refine .onStream_of_eq _ conn fun stream => ?_
      rw [SVStream.enqueue, List.filterMap_append]
      exact List.append_nil _
  | addTask conn request =>
      obtain rfl := Option.some.inj hstep
      refine .onStream conn fun stream => ?_
      rw [SVStream.enqueue, List.filterMap_append, Action.given, if_pos rfl]
      exact List.Subperm.refl _
  | send conn reply =>
      obtain rfl := Option.some.inj hstep
      refine .onStream_of_eq _ conn fun stream => ?_
      rw [SVStream.send_tasks]
  | writeDone conn ok =>
      obtain rfl := step_writeDone hstep
      refine .onStream_of_eq _ conn fun stream => ?_
      rw [SVStream.writeDone_tasks]
  | closerDone conn ok =>
      obtain rfl := step_closerDone hstep
      refine .onStream_of_eq _ conn fun stream => ?_
      rw [SVStream.closerDone_tasks]

end Hands

end Server

end GrpcMtk
