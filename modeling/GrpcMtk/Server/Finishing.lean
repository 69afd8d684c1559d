import GrpcMtk.Server.Methods
import GrpcMtk.Server.System

/-!
# Finishing a stream

`Step` and `ConsumeTask` call `Finish` wherever they close a connection, and
nothing remembers that it was called: a pass of `ConsumeTask` goes on behind a
closing task, and `Destroy` makes another pass.  The calls a method makes are
counted here on the world it starts from.
-/

namespace GrpcMtk

open GrpcMtk.Proto
open GrpcMtk.Runs

/-- How often a pass of `ConsumeTask` over the queue calls `Finish`, on a
connection that does not wait for its login.  The pass ends at a Login task
with id 0, and at any other closing task of a deleted connection. -/
def closings (gone : Bool) : List Task → ℤ → ℕ
  | [], _ => 0
  | task :: rest, count =>
      if count = 0 then 0
      else
        match task with
        | .normal _ => closings gone rest (count - 1)
        | .login (some request) =>
            if request.id = 0 then 1 else closings gone rest (count - 1)
        | .login none | .close | .other _ =>
            1 + if gone then 0 else closings gone rest (count - 1)

/-- The same on a connection that waits for its login.  There `Finish` destroys
the connection, which takes all the tasks left. -/
def waitingClosings (gone : Bool) :
    List Task → ℤ → List HandlerResult → ℕ
  | [], _, _ => 0
  | task :: rest, count, results =>
      if count = 0 then 0
      else
        match task with
        | .normal _ =>
            if (results.headD { ok := true, close := false }).close then
              closings gone rest (count - 1)
            else waitingClosings gone rest (count - 1) results.tail
        | .login (some request) =>
            if request.id = 0 then 1 + closings gone rest (-1)
            else closings gone rest (count - 1)
        | .login none | .close | .other _ => 1 + closings gone rest (-1)

namespace World

/-- How often a pass of `ConsumeTask` calls `Finish`. -/
def passClosings (count : ℤ) (world : World) : ℕ :=
  let tasks := world.self.stream.tasks
  let gone := world.self.isDeleted
  if world.dying ∧ world.self.status ≠ .close then
    1 + if world.self.status = .waitLogin then closings gone tasks (-1) else 0
  else if world.self.status = .waitLogin then
    waitingClosings gone tasks count world.results
  else closings gone tasks count

/-- How often `Destroy` calls `Finish`. -/
def destroyClosings (world : World) : ℕ :=
  if world.self.status.hasPeer then world.passClosings (-1) else 0

/-- The acceptor is called and its last call closes the connection. -/
def LoginCloses (codec : Codec) (acceptor : AcceptorResult) (world : World) :
    Prop :=
  codec.unpackConnect world.self.req.payload ≠ none ∧
    acceptor.calls.getLast? = some .close

instance (codec : Codec) (acceptor : AcceptorResult) (world : World) :
    Decidable (world.LoginCloses codec acceptor) :=
  inferInstanceAs (Decidable (_ ∧ _))

/-- The request closes the connection, or its handler or the shutdown does. -/
def RequestCloses (world : World) : Prop :=
  let result := world.results.headD { ok := true, close := false }
  world.self.req.kind = .close ∨ result.ok = false ∨ result.close = true ∨
    world.dying = true

instance (world : World) : Decidable world.RequestCloses :=
  inferInstanceAs (Decidable (_ ∨ _ ∨ _ ∨ _))

/-- How often `Step` calls `Finish`. -/
def stepClosings (codec : Codec) (acceptor : AcceptorResult) (world : World) :
    ℕ :=
  match world.self.status with
  | .init | .accept => 0
  | .login =>
      if world.self.req.kind = .close ∨ world.LoginCloses codec acceptor ∨
        world.dying then 1 else 0
  | .read => if world.RequestCloses then 1 else 0
  | .close => world.destroyClosings
  | .waitLogin | .write => 1

/-- How often `Finish` is called for a completion. -/
def processClosings (codec : Codec) (ok : Bool) (request : Request)
    (acceptor : AcceptorResult) (world : World) : ℕ :=
  if ok then { world with self.req := request }.stepClosings codec acceptor
  else world.destroyClosings

/-! ## What a method calls -/

section Methods

variable {codec : Codec} {world : World}

theorem closeByTask_finishes (world : World) :
    world.closeByTask.self.stream.finishes =
      world.self.stream.finishes + 1 := rfl

theorem closings_zero (gone : Bool) (tasks : List Task) :
    closings gone tasks 0 = 0 := by
  cases tasks <;> simp [closings]

theorem closings_closing {gone : Bool} {task : Task} (hcloses : task.Closes)
    (rest : List Task) {count : ℤ} (hcount : count ≠ 0) :
    closings gone (task :: rest) count =
      1 + if gone then 0 else closings gone rest (count - 1) := by
  match task, hcloses with
  | .login none, _ => rw [closings, if_neg hcount]
  | .close, _ => rw [closings, if_neg hcount]
  | .other _, _ => rw [closings, if_neg hcount]

theorem waitingClosings_zero (gone : Bool) (tasks : List Task)
    (results : List HandlerResult) :
    waitingClosings gone tasks 0 results = 0 := by
  cases tasks <;> simp [waitingClosings]

theorem waitingClosings_closing {gone : Bool} {task : Task}
    (hcloses : task.Closes) (rest : List Task) {count : ℤ} (hcount : count ≠ 0)
    (results : List HandlerResult) :
    waitingClosings gone (task :: rest) count results =
      1 + closings gone rest (-1) := by
  match task, hcloses with
  | .login none, _ => rw [waitingClosings, if_neg hcount]
  | .close, _ => rw [waitingClosings, if_neg hcount]
  | .other _, _ => rw [waitingClosings, if_neg hcount]

/-- A pass on a connection that does not wait for its login. -/
theorem finishes_consumeLoop (destroy : World → World) (tasks : List Task)
    (count : ℤ) (hsettled : world.self.status ≠ .waitLogin) :
    (world.consumeLoop codec destroy tasks count).self.stream.finishes =
      world.self.stream.finishes +
        closings world.self.isDeleted tasks count := by
  induction tasks generalizing count world with
  | nil => rfl
  | cons task rest ih =>
      by_cases hcount : count = 0
      · rw [hcount, consumeLoop_zero, closings_zero, Nat.add_zero]
      have hdequeued : (world.dequeue rest).self.status ≠ .waitLogin := hsettled
      rcases task.cases with ⟨request, rfl⟩ | ⟨request, rfl⟩ | hcloses
      · rw [consumeLoop_normal hcount, closings, if_neg hcount,
          ih _ (handle_settled request hdequeued), handle_stream,
          handle_isDeleted]
        rfl
      · have haccepted := @acceptLogin_settled codec request _ hdequeued
        have hfinishes :=
          @acceptLogin_finishes codec request (world.dequeue rest)
        have hgone := @acceptLogin_isDeleted codec request (world.dequeue rest)
        rw [closings, if_neg hcount]
        by_cases hid : request.id = 0
        · rw [consumeLoop_refused hcount hid, finish_of_not_waiting haccepted,
            if_pos hid, closeByTask_finishes, hfinishes]
          rfl
        · rw [consumeLoop_accepted hcount hid, if_neg hid, ih _ haccepted,
            hfinishes, hgone]
          rfl
      · have hsame : (world.dequeue rest).closeByTask.self.isDeleted =
            world.self.isDeleted := rfl
        have hcloser : (world.dequeue rest).closeByTask.self.stream.finishes =
            world.self.stream.finishes + 1 := rfl
        rw [consumeLoop_closing hcount hcloses, closings_closing hcloses rest
          hcount, finish_of_not_waiting hdequeued, hsame]
        cases hgone : world.self.isDeleted with
        | true => rfl
        | false =>
            rw [if_neg Bool.false_ne_true, if_neg Bool.false_ne_true,
              ih _ (by simp), hsame, hgone, hcloser, Nat.add_assoc]

/-- Behind its pass `Destroy` calls `Finish` no more. -/
theorem finishes_destroyWithin (depth : ℕ) (world : World) :
    (world.destroyWithin codec (depth + 1)).self.stream.finishes =
      if world.self.status.hasPeer then
        (world.consumeTask codec (destroyWithin codec depth)
          (-1)).self.stream.finishes
      else world.self.stream.finishes := by
  rw [destroyWithin, delete]
  split
  · apply (SVStream.unref_finishes _).trans
    exact congrArg SVStream.finishes (unregister_stream _)
  · exact SVStream.unref_finishes _

theorem finishes_destroy_closed (depth : ℕ)
    (hclosed : world.self.status = .close) :
    (world.destroyWithin codec (depth + 1)).self.stream.finishes =
      world.self.stream.finishes +
        closings world.self.isDeleted world.self.stream.tasks (-1) := by
  have hsettled : world.self.status ≠ .waitLogin := by simp [hclosed]
  rw [finishes_destroyWithin, if_pos (by rw [hclosed]; rfl), consumeTask,
    if_neg fun hdying => hdying.2 hclosed]
  exact finishes_consumeLoop _ _ _ hsettled

/-- `Finish` by a task destroys a connection that waits for its login. -/
theorem finishes_finish_waiting (depth : ℕ)
    (hwait : world.self.status = .waitLogin) :
    (world.finish (destroyWithin codec (depth + 1))
      true).self.stream.finishes = world.self.stream.finishes +
        (1 + closings world.self.isDeleted world.self.stream.tasks (-1)) := by
  have hgone : world.closeByTask.self.isDeleted = world.self.isDeleted := rfl
  rw [finish_byTask, if_pos hwait,
    finishes_destroy_closed depth (closeByTask_status world), hgone,
    closeByTask_finishes, closeByTask_tasks, Nat.add_assoc]

theorem isDeleted_finish_waiting (depth : ℕ)
    (hwait : world.self.status = .waitLogin) :
    (world.finish (destroyWithin codec (depth + 1)) true).self.isDeleted =
      true := by
  rw [finish_byTask, if_pos hwait, destroyWithin]
  exact delete_isDeleted _

/-- A pass on a connection that waits for its login. -/
theorem finishes_consumeLoop_waiting (depth : ℕ) (tasks : List Task)
    (count : ℤ) (hwait : world.self.status = .waitLogin) :
    (world.consumeLoop codec (destroyWithin codec (depth + 1)) tasks
      count).self.stream.finishes = world.self.stream.finishes +
        waitingClosings world.self.isDeleted tasks count world.results := by
  induction tasks generalizing count world with
  | nil => rfl
  | cons task rest ih =>
      by_cases hcount : count = 0
      · rw [hcount, consumeLoop_zero, waitingClosings_zero, Nat.add_zero]
      have hdequeued : (world.dequeue rest).self.status = .waitLogin := hwait
      rcases task.cases with ⟨request, rfl⟩ | ⟨request, rfl⟩ | hcloses
      · have hstatus := handle_status_eq request (world.dequeue rest)
        have hstream := handle_stream request (world.dequeue rest)
        have hgone := handle_isDeleted request (world.dequeue rest)
        have hresults := handle_results request (world.dequeue rest)
        rw [consumeLoop_normal hcount, waitingClosings, if_neg hcount]
        by_cases hcloses : (world.results.headD
            { ok := true, close := false }).close = true
        · have hclosed := hstatus.trans (if_pos hcloses)
          rw [if_pos hcloses, finishes_consumeLoop _ _ _
            (by rw [hclosed]; simp), hstream, hgone]
          rfl
        · rw [if_neg hcloses,
            ih _ ((hstatus.trans (if_neg hcloses)).trans hwait), hstream,
            hgone, hresults]
          rfl
      · have hfinishes :=
          @acceptLogin_finishes codec request (world.dequeue rest)
        have hgone := @acceptLogin_isDeleted codec request (world.dequeue rest)
        rw [waitingClosings, if_neg hcount]
        by_cases hid : request.id = 0
        · have hstill : ((world.dequeue rest).acceptLogin codec
              request).2.self.status = .waitLogin := by
            rw [acceptLogin, if_pos hid]
            exact hwait
          rw [consumeLoop_refused hcount hid, if_pos hid,
            finishes_finish_waiting depth hstill, hfinishes, hgone,
            acceptLogin_tasks]
          rfl
        · have hread : ((world.dequeue rest).acceptLogin codec
              request).2.self.status ≠ .waitLogin := by
            rw [acceptLogin_opened hid]
            simp
          rw [consumeLoop_accepted hcount hid, if_neg hid,
            finishes_consumeLoop _ _ _ hread, hfinishes, hgone]
          rfl
      · rw [consumeLoop_closing hcount hcloses,
          waitingClosings_closing hcloses rest hcount,
          if_pos (isDeleted_finish_waiting depth hdequeued)]
        exact finishes_finish_waiting depth hdequeued

theorem finishes_consumeTask (depth : ℕ) (count : ℤ) (world : World) :
    (world.consumeTask codec (destroyWithin codec (depth + 1))
      count).self.stream.finishes =
        world.self.stream.finishes + world.passClosings count := by
  rw [consumeTask, passClosings]
  by_cases hdying : world.dying = true ∧ world.self.status ≠ .close
  · rw [if_pos hdying, if_pos hdying]
    by_cases hwait : world.self.status = .waitLogin
    · rw [if_pos hwait]
      exact finishes_finish_waiting depth hwait
    · rw [if_neg hwait, finish_of_not_waiting hwait]
      rfl
  · rw [if_neg hdying, if_neg hdying]
    by_cases hwait : world.self.status = .waitLogin
    · rw [if_pos hwait]
      exact finishes_consumeLoop_waiting depth _ count hwait
    · rw [if_neg hwait]
      exact finishes_consumeLoop _ _ count hwait

theorem finishes_destroy (world : World) :
    (world.destroy codec).self.stream.finishes =
      world.self.stream.finishes + world.destroyClosings := by
  rw [destroy, finishes_destroyWithin, destroyClosings]
  split
  · exact finishes_consumeTask 0 (-1) world
  · rfl

theorem finishes_login (acceptor : AcceptorResult) (world : World) :
    (world.login codec acceptor).2.self.stream.finishes =
      world.self.stream.finishes := by
  obtain ⟨stream, events, -, hfinishes, -, hlogin⟩ :=
    @login_eq codec acceptor world
  rw [hlogin]
  exact hfinishes

theorem login_closes_iff (acceptor : AcceptorResult)
    (hstatus : world.self.status = .login) :
    (world.login codec acceptor).2.self.status = .close ↔
      world.LoginCloses codec acceptor := by
  obtain ⟨stream, events, -, -, -, hlogin⟩ := @login_eq codec acceptor world
  rw [hlogin, LoginCloses]
  dsimp only
  cases hunpack : codec.unpackConnect world.self.req.payload with
  | none => simp [handlerLogin, hunpack, hstatus]
  | some connect =>
      simp only [handlerLogin, hunpack, ne_eq, reduceCtorEq, not_false_eq_true,
        true_and]
      rw [acceptorCalls_status]
      cases acceptor.calls.getLast? with
      | none => simp [hstatus]
      | some call => cases call <;> simp

theorem finishes_register (cid : ℕ) (world : World) :
    (world.register cid).self.stream.finishes =
      world.self.stream.finishes :=
  congrArg (fun conn => conn.stream.finishes) (register_self cid world)

theorem finishes_step (acceptor : AcceptorResult) (world : World) :
    (world.step codec acceptor).self.stream.finishes =
      world.self.stream.finishes + world.stepClosings codec acceptor := by
  rw [step, stepClosings]
  cases hstatus : world.self.status with
  | login =>
      dsimp only
      have hfinishes := @finishes_login codec acceptor world
      have hcloses := @login_closes_iff codec world acceptor hstatus
      have hframe := @Frame.login codec acceptor world
      have hdying : (world.login codec acceptor).2.dying = world.dying := by
        rw [dying, hframe.dying, hframe.worker]
        rfl
      by_cases hkind : world.self.req.kind = .close
      · rw [if_pos hkind, if_pos (Or.inl hkind)]
        rfl
      rw [if_neg hkind, hdying]
      by_cases hclosing : world.LoginCloses codec acceptor ∨
          world.dying = true
      · rw [if_pos (or_congr_left hcloses |>.mpr hclosing),
          if_pos (Or.inr hclosing)]
        exact congrArg (· + 1) hfinishes
      · rw [if_neg (or_congr_left hcloses |>.not.mpr hclosing),
          if_neg (not_or.mpr ⟨hkind, hclosing⟩)]
        split
        · exact hfinishes
        · exact (finishes_register (world.login codec acceptor).1 _).trans
            hfinishes
  | read =>
      dsimp only
      obtain ⟨hreg, hself⟩ := handle_spec world.self.req world
      have hclosed := handle_status_eq world.self.req world
      have hdying : (world.handle world.self.req).2.dying = world.dying := by
        rw [dying, hreg, hself]
        rfl
      have hfinishes : (world.handle world.self.req).2.self.stream.finishes =
          world.self.stream.finishes := by rw [hself]
      by_cases hkind : world.self.req.kind = .close
      · have hcloses : world.RequestCloses := Or.inl hkind
        rw [if_pos hkind, if_pos hcloses]
        rfl
      have hopen : ((world.handle world.self.req).1 = true ∧
          (world.handle world.self.req).2.self.status ≠ .close ∧
            ¬world.dying = true) ↔ ¬world.RequestCloses := by
        have hok : (world.handle world.self.req).1 = (world.results.headD
          { ok := true, close := false }).ok := rfl
        rw [hok, hclosed, hstatus, RequestCloses]
        simp [hkind]
      rw [if_neg hkind, hdying]
      by_cases hcloses : world.RequestCloses
      · rw [if_neg (hopen.not.mpr (not_not_intro hcloses)), if_pos hcloses]
        exact congrArg (· + 1) hfinishes
      · rw [if_pos (hopen.mpr hcloses), if_neg hcloses]
        exact hfinishes
  | close => exact finishes_destroy world
  | _ => rfl

theorem finishes_process (ok : Bool) (request : Request)
    (acceptor : AcceptorResult) (world : World) :
    (world.process codec ok request acceptor).self.stream.finishes =
      world.self.stream.finishes +
        world.processClosings codec ok request acceptor := by
  rw [process, processClosings]
  cases ok with
  | false => exact finishes_destroy _
  | true =>
      rw [if_pos rfl, if_pos rfl]
      dsimp only
      split
      case isTrue haccept =>
        rw [finishes_step, stepClosings, stepClosings]
        dsimp only at haccept ⊢
        rw [haccept]
      · exact finishes_step acceptor _

end Methods

end World

/-! ## The server -/

namespace Server

/-- `Finish` has been called at most once on every stream. -/
def FinishedOnce (server : Server) : Prop :=
  ∀ conn self, server.conns conn = some self → self.stream.finishes ≤ 1

/-- On the stream of the connection, `Finish` was called at most once with the
calls to come. -/
def AtMostOnce (server : Server) (conn : ConnId) (calls : Conn → ℕ) : Prop :=
  ∀ self ∈ server.conns conn, self.stream.finishes + calls self ≤ 1

/-- The condition on the connections the shutdown loop destroys. -/
def ShutsDownOnce (codec : Codec) (worker : WorkerId)
    (results : ℕ → List HandlerResult) : ℕ → ℕ → Server → Prop
  | 0, _, _ => True
  | fuel + 1, index, server =>
      match (server.reg.connections worker)[index]? with
      | none => True
      | some conn =>
          server.AtMostOnce conn (fun self =>
              World.destroyClosings ⟨self, server.reg, results index⟩) ∧
            ShutsDownOnce codec worker results fuel (index + 1)
              (server.runConn conn (results index) (World.destroy codec))

/-- The condition on one action: what closes the connection in it comes after
no other closing. -/
def ClosesOnce (codec : Codec) (server : Server) : Action → Prop
  | .complete conn ok request acceptor results =>
      server.AtMostOnce conn fun self =>
        World.processClosings codec ok request acceptor
          ⟨self, server.reg, results⟩
  | .consume conn results =>
      server.AtMostOnce conn fun self =>
        World.passClosings 3 ⟨self, server.reg, results⟩
  | .shutdown worker results =>
      ShutsDownOnce codec worker results
        (server.reg.connections worker).length 0 server
  | _ => True

section Steps

variable {codec : Codec} {server next : Server}

theorem finishedOnce_runConn_iff (honce : server.FinishedOnce)
    (conn : ConnId) (results : List HandlerResult) {method : World → World}
    {calls : Conn → ℕ}
    (hcalls : ∀ self,
      (method ⟨self, server.reg, results⟩).self.stream.finishes =
        self.stream.finishes + calls self) :
    (server.runConn conn results method).FinishedOnce ↔
      server.AtMostOnce conn calls := by
  cases hconn : server.conns conn with
  | none =>
      rw [runConn_of_none hconn]
      apply iff_of_true honce
      rw [AtMostOnce, hconn]
      nofun
  | some self =>
      rw [runConn_of_some hconn, AtMostOnce, hconn]
      constructor
      · intro hafter state hstate
        obtain rfl := Option.some.inj hstate
        rw [← hcalls]
        exact hafter conn _ (Function.update_self _ _ _)
      · intro hself other state hother
        dsimp only at hother
        by_cases hsame : other = conn
        · subst hsame
          rw [Function.update_self, Option.some.injEq] at hother
          rw [← hother, hcalls]
          exact hself self rfl
        · rw [Function.update_of_ne hsame] at hother
          exact honce other state hother

theorem finishedOnce_onStream (honce : server.FinishedOnce) (conn : ConnId)
    {change : SVStream → SVStream}
    (hchange : ∀ stream, (change stream).finishes = stream.finishes) :
    (server.onStream conn change).FinishedOnce := by
  intro other state hother
  obtain ⟨old, hold, ⟨rfl, rfl⟩ | ⟨-, rfl⟩⟩ := onStream_conns hother
  · dsimp only
    rw [hchange]
    exact honce other old hold
  · exact honce other old hold

theorem finishedOnce_newConn (honce : server.FinishedOnce)
    (worker : WorkerId) : (server.newConn codec worker).FinishedOnce := by
  rw [newConn_eq]
  intro other state hother
  dsimp only at hother
  by_cases hsame : other = server.next
  · subst hsame
    rw [Function.update_self, Option.some.injEq] at hother
    rw [← hother]
    exact Nat.zero_le 1
  · rw [Function.update_of_ne hsame] at hother
    exact honce other state hother

theorem finishedOnce_complete_iff (hwf : WellFormed server)
    (honce : server.FinishedOnce) (conn : ConnId) (ok : Bool)
    (request : Request) (acceptor : AcceptorResult)
    (results : List HandlerResult) :
    (server.complete codec conn ok request acceptor results).FinishedOnce ↔
      server.ClosesOnce codec
        (.complete conn ok request acceptor results) := by
  have hcalls := fun self => @World.finishes_process codec ok request acceptor
    ⟨self, server.reg, results⟩
  cases hconn : server.conns conn with
  | none =>
      rw [complete, hconn, ClosesOnce, AtMostOnce, hconn]
      exact iff_of_true honce fun self hself =>
        absurd hself (Option.not_mem_none self)
  | some self =>
      rw [complete, hconn]
      dsimp only
      split
      · rw [finishedOnce_runConn_iff (finishedOnce_newConn honce _) conn
          results hcalls, AtMostOnce, ClosesOnce, AtMostOnce, newConn_eq]
        dsimp only
        rw [Function.update_of_ne (Nat.ne_of_lt (hwf.known conn self hconn).2)]
      · exact finishedOnce_runConn_iff honce conn results hcalls

/-- The shutdown loop takes no Finish back. -/
theorem finishes_shutdownLoop (worker : WorkerId)
    (results : ℕ → List HandlerResult) (fuel index : ℕ) {conn : ConnId}
    {self : Conn} (hconn : server.conns conn = some self) :
    ∃ after, (server.shutdownLoop codec worker results fuel index).conns conn =
        some after ∧ self.stream.finishes ≤ after.stream.finishes := by
  induction fuel generalizing index server self with
  | zero => exact ⟨self, hconn, Nat.le_refl _⟩
  | succ fuel ih =>
      rw [shutdownLoop]
      split
      · exact ⟨self, hconn, Nat.le_refl _⟩
      case h_2 visited hvisited =>
        have hdestroyed : ∃ after, (server.runConn visited (results index)
            (World.destroy codec)).conns conn = some after ∧
              self.stream.finishes ≤ after.stream.finishes := by
          cases hfound : server.conns visited with
          | none =>
              rw [runConn_of_none hfound]
              exact ⟨self, hconn, Nat.le_refl _⟩
          | some state =>
              rw [runConn_of_some hfound]
              by_cases hsame : conn = visited
              · subst hsame
                obtain rfl := Option.some.inj (hfound.symm.trans hconn)
                refine ⟨_, Function.update_self _ _ _, ?_⟩
                rw [World.finishes_destroy]
                exact Nat.le_add_right _ _
              · exact ⟨self, (Function.update_of_ne hsame _ _).trans hconn,
                  Nat.le_refl _⟩
        obtain ⟨middle, hmiddle, hle⟩ := hdestroyed
        obtain ⟨after, hafter, hle'⟩ := ih (index + 1) hmiddle
        exact ⟨after, hafter, Nat.le_trans hle hle'⟩

theorem finishedOnce_shutdownLoop_iff (honce : server.FinishedOnce)
    (worker : WorkerId) (results : ℕ → List HandlerResult)
    (fuel index : ℕ) :
    (server.shutdownLoop codec worker results fuel index).FinishedOnce ↔
      ShutsDownOnce codec worker results fuel index server := by
  induction fuel generalizing index server with
  | zero => exact iff_of_true honce trivial
  | succ fuel ih =>
      rw [shutdownLoop, ShutsDownOnce]
      cases (server.reg.connections worker)[index]? with
      | none => exact iff_of_true honce trivial
      | some conn =>
        have hdestroyed := @finishedOnce_runConn_iff server honce conn
          (results index) (World.destroy codec) _
          fun self => World.finishes_destroy ⟨self, server.reg, results index⟩
        constructor
        · intro hafter
          have hmiddle : (server.runConn conn (results index)
              (World.destroy codec)).FinishedOnce := by
            intro other state hother
            obtain ⟨last, hlast, hle⟩ := @finishes_shutdownLoop codec _ worker
              results fuel (index + 1) _ _ hother
            exact Nat.le_trans hle (hafter other last hlast)
          exact ⟨hdestroyed.mp hmiddle, (ih hmiddle (index + 1)).mp hafter⟩
        · rintro ⟨hhere, hrest⟩
          exact (ih (hdestroyed.mpr hhere) (index + 1)).mpr hrest

theorem finishedOnce_step_iff {action : Action} (hwf : WellFormed server)
    (honce : server.FinishedOnce)
    (hstep : server.step codec action = some next) :
    next.FinishedOnce ↔ server.ClosesOnce codec action := by
  cases action with
  | launch worker =>
      obtain rfl := Option.some.inj hstep
      exact iff_of_true (finishedOnce_newConn honce worker) trivial
  | complete conn ok request acceptor results =>
      obtain ⟨-, -, -, rfl⟩ := step_complete hstep
      exact finishedOnce_complete_iff hwf honce conn ok request acceptor results
  | consume conn results =>
      obtain ⟨-, -, -, rfl⟩ := step_consume hstep
      exact finishedOnce_runConn_iff honce conn results fun self =>
        World.finishes_consumeTask 1 3 ⟨self, server.reg, results⟩
  | shutdown worker results =>
      obtain ⟨-, -, rfl⟩ := step_shutdown hstep
      exact finishedOnce_shutdownLoop_iff honce worker results _ 0
  | prepareShutdown worker =>
      obtain rfl := Option.some.inj hstep
      exact iff_of_true honce trivial
  | finishLogin lcid cid msgid data =>
      rcases step_finishLogin hstep with ⟨-, rfl⟩ | ⟨conn, -, rfl⟩
      · exact iff_of_true honce trivial
      · exact iff_of_true honce trivial
  | postLogin conn request =>
      obtain ⟨-, rfl⟩ := step_postLogin hstep
      refine iff_of_true (finishedOnce_onStream ?_ conn ?_) trivial
      · exact honce
      · exact fun _ => rfl
  | getStream cid =>
      rcases step_getStream hstep with ⟨-, rfl⟩ | ⟨conn, -, rfl⟩
      · exact iff_of_true honce trivial
      · refine iff_of_true (finishedOnce_onStream ?_ conn ?_) trivial
        · exact honce
        · exact fun _ => rfl
  | closeStream conn =>
      obtain ⟨-, rfl⟩ := step_closeStream hstep
      exact iff_of_true (finishedOnce_onStream honce conn fun _ => rfl) trivial
  | addTask conn request =>
      obtain rfl := Option.some.inj hstep
      exact iff_of_true (finishedOnce_onStream honce conn fun _ => rfl) trivial
  | send conn reply =>
      obtain rfl := Option.some.inj hstep
      exact iff_of_true (finishedOnce_onStream honce conn fun stream =>
        stream.send_finishes reply) trivial
  | writeDone conn ok =>
      obtain rfl := step_writeDone hstep
      exact iff_of_true (finishedOnce_onStream honce conn fun stream =>
        stream.writeDone_finishes ok) trivial
  | closerDone conn ok =>
      obtain rfl := step_closerDone hstep
      exact iff_of_true (finishedOnce_onStream honce conn
        SVStream.closerDone_finishes) trivial

end Steps

/-- A well-formed server with `Finish` called at most once on each stream. -/
structure Unfinished (server : Server) : Prop where
  wellFormed : WellFormed server
  once : server.FinishedOnce

/-- In a run `Finish` is called at most once on each stream exactly if every
closing comes after no other. -/
theorem finished_once_iff (codec : Codec) (actions : List Action) :
    AllSteps (step codec) (fun _ _ next => next.FinishedOnce) init actions ↔
      AllSteps (step codec) (fun server action _ =>
        server.ClosesOnce codec action) init actions := by
  have hinit : Unfinished init := ⟨wellFormed_init, nofun⟩
  apply allSteps_iff_of_invariant _ _ hinit actions
  · intro server action next hserver hstep hcloses
    exact ⟨wellFormed_step hserver.wellFormed hstep,
      (finishedOnce_step_iff hserver.wellFormed hserver.once hstep).mpr hcloses⟩
  · intro server action next hserver hstep
    exact finishedOnce_step_iff hserver.wellFormed hserver.once hstep

private def connectRequest (msgid : ℕ) : Request :=
  { type := 0, msgid, kind := .connect, payload := [] }

/-- A client logs in with the cid 7, and the application closes it twice. -/
private def closedTwice : List Action :=
  [.launch 0,
    .complete 0 true (connectRequest 0) { cid := 0, calls := [], slice := [] }
      [],
    .complete 0 true (connectRequest 1) { cid := 7, calls := [], slice := [] }
      [],
    .getStream 7, .closeStream 0, .closeStream 0, .consume 0 []]

theorem finished_once_fails :
    ¬∀ actions final, exec (step Codec.small) init actions = some final →
      final.FinishedOnce := by
  intro honce
  have hfinishes := honce closedTwice _ rfl 0 _ rfl
  exact absurd hfinishes (by decide)

end Server

end GrpcMtk
