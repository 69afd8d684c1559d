import GrpcMtk.Server.Methods
import GrpcMtk.Server.System

/-!
# The msgids of a server's replies

A server makes up no msgid.  A reply it sends by itself, to a login, has the
msgid of the request it has read or the one `FinishLogin` was given, and every
other reply comes from the application.  So whatever set of msgids holds those
of the requests a connection has read and those the application passes in, it
holds those of its replies.
-/

namespace GrpcMtk

open GrpcMtk.Proto

namespace SVStream

variable {known : ℕ → Prop} {before after third : SVStream}

/-- The msgids of the replies, sent or to be sent, and of the Login tasks. -/
structure Answers (known : ℕ → Prop) (stream : SVStream) : Prop where
  replies : ∀ reply ∈ stream.written ++ stream.queue, known reply.msgid
  logins : ∀ request, .login (some request) ∈ stream.tasks →
    known request.msgid

/-- Replies are only added to those written, and only with known msgids. -/
structure Onward (known : ℕ → Prop) (before after : SVStream) : Prop where
  written : before.written <+: after.written
  answers : before.Answers known → after.Answers known

namespace Onward

theorem trans (hfirst : Onward known before after)
    (hsecond : Onward known after third) : Onward known before third where
  written := hfirst.written.trans hsecond.written
  answers hanswers := hsecond.answers (hfirst.answers hanswers)

theorem of_eq (hwritten : after.written = before.written)
    (hqueue : after.queue = before.queue)
    (htasks : after.tasks ⊆ before.tasks) : Onward known before after where
  written := hwritten ▸ List.prefix_refl _
  answers hanswers :=
    { replies := by
        rw [hwritten, hqueue]
        exact hanswers.replies
      logins := fun request hmem => hanswers.logins request (htasks hmem) }

theorem refl (stream : SVStream) : Onward known stream stream :=
  of_eq rfl rfl (List.Subset.refl _)

theorem unref (stream : SVStream) : Onward known stream stream.unref :=
  of_eq (unref_written stream) (unref_queue stream)
    (unref_tasks stream ▸ List.Subset.refl _)

/-- The replies of a stream in the order they are sent. -/
theorem of_replies {rest : List Reply}
    (hreplies : after.written ++ after.queue =
      before.written ++ before.queue ++ rest)
    (hwritten : before.written <+: after.written)
    (htasks : after.tasks ⊆ before.tasks)
    (hrest : ∀ reply ∈ rest, known reply.msgid) :
    Onward known before after where
  written := hwritten
  answers hanswers :=
    { replies := by
        rw [hreplies]
        exact List.forall_mem_append.mpr ⟨hanswers.replies, hrest⟩
      logins := fun request hmem => hanswers.logins request (htasks hmem) }

end Onward

/-- A Send writes the reply or queues it; a write in flight means that there
may be replies in the queue, none in flight that there are none. -/
theorem answers_send (stream : SVStream) {reply : Reply}
    (hknown : known reply.msgid) (hanswers : stream.Answers known) :
    (stream.send reply).Answers known := by
  have hreply : ∀ other ∈ [reply], known other.msgid :=
    List.forall_mem_singleton.mpr hknown
  obtain ⟨hreplies, hlogins⟩ := hanswers
  rw [List.forall_mem_append] at hreplies
  unfold send
  split
  · refine ⟨?_, hlogins⟩
    exact List.forall_mem_append.mpr
      ⟨hreplies.1, List.forall_mem_append.mpr ⟨hreplies.2, hreply⟩⟩
  · refine ⟨?_, hlogins⟩
    exact List.forall_mem_append.mpr
      ⟨List.forall_mem_append.mpr ⟨hreplies.1, hreply⟩, hreplies.2⟩

theorem written_send (stream : SVStream) (reply : Reply) :
    stream.written <+: (stream.send reply).written := by
  unfold send
  split
  · exact List.prefix_refl _
  · exact List.prefix_append _ _

theorem Onward.send (stream : SVStream) {reply : Reply}
    (hknown : known reply.msgid) :
    Onward known stream (stream.send reply) where
  written := written_send stream reply
  answers := answers_send stream hknown

theorem Onward.writeDone (stream : SVStream) (ok : Bool) :
    Onward known stream (stream.writeDone ok) := by
  cases ok with
  | false =>
      have hdone : Onward known stream
          { stream with writing := stream.writing - 1 } :=
        of_eq rfl rfl (List.Subset.refl _)
      exact hdone.trans (unref _)
  | true =>
      have hstep : Onward known stream
          { stream with writing := stream.writing - 1 }.step := by
        unfold SVStream.step
        split
        case h_1 reply rest hqueue =>
          apply @of_replies _ _ _ []
          · rw [List.append_nil]
            have hqueue' : stream.queue = reply :: rest := hqueue
            rw [hqueue']
            exact List.append_assoc _ _ _
          · exact List.prefix_append _ _
          · exact List.Subset.refl _
          · exact List.forall_mem_nil _
        case h_2 =>
          have hdone : Onward known stream
              { stream with
                writing := stream.writing - 1, isSending := false } :=
            of_eq rfl rfl (List.Subset.refl _)
          exact hdone.trans (unref _)
      exact hstep

theorem Onward.enqueue (stream : SVStream) {task : Task}
    (hknown : ∀ request, task = .login (some request) →
      known request.msgid) : Onward known stream (stream.enqueue task) where
  written := List.prefix_refl _
  answers hanswers :=
    { replies := hanswers.replies
      logins := fun request hmem => by
        rcases List.mem_append.mp hmem with hold | hnew
        · exact hanswers.logins request hold
        · exact hknown request (List.mem_singleton.mp hnew).symm }

end SVStream

/-! ## What a method sends -/

/-- The msgids of a connection: of the request it has read, of its replies and
of its Login tasks. -/
structure Conn.Answers (known : ℕ → Prop) (state : Conn) : Prop where
  req : known state.req.msgid
  stream : state.stream.Answers known

/-- Before, while and after a connection waits for its peer. -/
def StreamStatus.stage : StreamStatus → ℕ
  | .init => 0
  | .accept => 1
  | .login | .waitLogin | .read | .write | .close => 2

theorem StreamStatus.stage_le (status : StreamStatus) : status.stage ≤ 2 := by
  cases status <;> decide

/-- A method goes on writing with known msgids, and a connection that has met
its peer never waits for one again. -/
structure Onward (known : ℕ → Prop) (before after : World) : Prop where
  written : before.self.stream.written <+: after.self.stream.written
  stage : before.self.status.stage ≤ after.self.status.stage
  answers : before.self.Answers known → after.self.Answers known

namespace Onward

variable {known : ℕ → Prop} {codec : Codec} {before after third : World}

theorem trans (hfirst : Onward known before after)
    (hsecond : Onward known after third) : Onward known before third where
  written := hfirst.written.trans hsecond.written
  stage := Nat.le_trans hfirst.stage hsecond.stage
  answers hanswers := hsecond.answers (hfirst.answers hanswers)

theorem of_stream
    (hstream : SVStream.Onward known before.self.stream after.self.stream)
    (hreq : after.self.req = before.self.req)
    (hstage : before.self.status.stage ≤ after.self.status.stage) :
    Onward known before after where
  written := hstream.written
  stage := hstage
  answers hanswers :=
    { req := hreq ▸ hanswers.req
      stream := hstream.answers hanswers.stream }

theorem of_eq (hstream : after.self.stream = before.self.stream)
    (hreq : after.self.req = before.self.req)
    (hstatus : after.self.status = before.self.status) :
    Onward known before after :=
  of_stream (hstream ▸ .refl _) hreq (hstatus ▸ Nat.le_refl _)

theorem refl (world : World) : Onward known world world := of_eq rfl rfl rfl

theorem clearLoginCid (world : World) :
    Onward known world world.clearLoginCid := by
  unfold World.clearLoginCid
  split <;> exact of_eq rfl rfl rfl

theorem register (cid : ℕ) (world : World) :
    Onward known world (world.register cid) := by
  have hself := World.register_self cid world
  apply of_eq <;> rw [hself]

theorem unregister (world : World) : Onward known world world.unregister :=
  (clearLoginCid world).trans (of_eq rfl rfl rfl)

theorem dequeue {world : World} {task : Task} {rest : List Task}
    (htasks : world.self.stream.tasks = task :: rest) :
    Onward known world (world.dequeue rest) := by
  refine of_stream (.of_eq rfl rfl ?_) rfl (Nat.le_refl _)
  rw [htasks]
  exact List.subset_cons_self _ _

theorem handle (request : Request) (world : World) :
    Onward known world (world.handle request).2 := by
  have hself := (World.handle_spec request world).2
  refine of_stream ?_ ?_ ?_
  · rw [hself]
    exact .refl _
  · rw [hself]
  · rcases World.handle_status request world with hsame | hclose
    · rw [hsame]
    · rw [hclose]
      exact StreamStatus.stage_le _

theorem closeByTask (world : World) : Onward known world world.closeByTask :=
  of_stream (.of_eq rfl rfl (List.Subset.refl _)) rfl
    (StreamStatus.stage_le _)

/-- What is known may be taken from the connection the method starts with. -/
theorem of_answers (hwrites : Onward (fun _ => True) before after)
    (hknown : before.self.Answers known → Onward known before after) :
    Onward known before after where
  written := hwrites.written
  stage := hwrites.stage
  answers hanswers := (hknown hanswers).answers hanswers

theorem record (event : ConnEvent) (world : World) :
    Onward known world (world.record event) := of_eq rfl rfl rfl

/-- A reply sent by a method. -/
theorem send (world : World) {reply : Reply} (hknown : known reply.msgid) :
    Onward known world
      { world with self.stream := world.self.stream.send reply } :=
  of_stream (.send _ hknown) rfl (Nat.le_refl _)

theorem sysRep {msgid : ℕ} (payload : Bytes) (world : World)
    (hknown : known msgid) :
    Onward known world (world.sysRep msgid payload) :=
  @send known world { type := 0, msgid, error := none, payload } hknown

theorem deny {msgid : ℕ} (payload : Bytes) (world : World)
    (hknown : known msgid) :
    Onward known world (world.deny msgid payload) := by
  have hsend := @send known world
    { type := 0, msgid, error := some { errorCode := mtkAcceptDeny, payload }
      payload := [] } hknown
  exact hsend.trans (record .denied _)

theorem recv (world : World) : Onward known world world.recv :=
  of_eq rfl rfl rfl

theorem setStatus {status : StreamStatus} (hstage : status.stage = 2)
    (world : World) :
    Onward known world { world with self.status := status } :=
  of_stream (.refl _) rfl (hstage ▸ StreamStatus.stage_le _)

/-- A deferred login is answered with the msgid of its task. -/
theorem acceptLogin {request : SystemPayload.Login} (world : World)
    (hknown : known request.msgid) :
    Onward known world (world.acceptLogin codec request).2 := by
  have htask := @record known (.loginTask request.id) world
  unfold World.acceptLogin
  dsimp only
  split
  · exact htask.trans (deny _ _ hknown)
  · have hregister := htask.trans (register request.id _)
    have hread := hregister.trans (@setStatus known .read rfl _)
    exact (hread.trans (recv _)).trans (sysRep _ _ hknown)

theorem acceptTask {request : SystemPayload.Login} {world : World}
    {rest : List Task}
    (htasks : world.self.stream.tasks = .login (some request) :: rest) :
    Onward known world
      ((world.dequeue rest).acceptLogin codec request).2 := by
  apply of_answers
  · exact (dequeue htasks).trans (acceptLogin _ trivial)
  · intro hanswers
    have hmsgid := hanswers.stream.logins request
      (htasks ▸ List.mem_cons_self)
    exact (dequeue htasks).trans (acceptLogin _ hmsgid)

/-- What the methods that run each other do. -/
theorem kept : Kept codec (Onward known) where
  refl := refl
  trans := trans
  normal world request rest htasks :=
    (dequeue htasks).trans (handle request _)
  accept world request rest htasks _ := acceptTask htasks
  refuse world request rest htasks _ :=
    (acceptTask htasks).trans (closeByTask _)
  closing world _ rest htasks _ := (dequeue htasks).trans (closeByTask _)
  dying world _ _ := closeByTask world
  usedAfterDelete world _ := record _ world
  close world := (record _ world).trans (unregister _)
  delete world := by
    have hunref : Onward known world
        { world with self.stream := world.self.stream.unref } :=
      of_stream (.unref _) rfl (Nat.le_refl _)
    exact hunref.trans (record _ _)

theorem acceptorCalls (calls : List AcceptorCall) (world : World) :
    Onward known world (calls.foldl World.acceptorCall world) := by
  induction calls generalizing world with
  | nil => exact refl world
  | cons call rest ih =>
      have hcall : Onward known world (world.acceptorCall call) := by
        cases call with
        | close => exact @setStatus known .close rfl world
        | deferLogin =>
            exact of_stream (.refl _) rfl (StreamStatus.stage_le _)
      exact hcall.trans (ih _)

theorem acceptorCalls_req (calls : List AcceptorCall) (world : World) :
    (calls.foldl World.acceptorCall world).self.req = world.self.req := by
  induction calls generalizing world with
  | nil => rfl
  | cons call rest ih =>
      rw [List.foldl_cons, ih]
      cases call <;> rfl

/-- A login is answered with the msgid of the request that asks for it. -/
theorem login (acceptor : AcceptorResult) {world : World}
    (hknown : known world.self.req.msgid) :
    Onward known world (world.login codec acceptor).2 := by
  have hhandler : Onward known world (world.handlerLogin codec acceptor).2.2 ∧
      (world.handlerLogin codec acceptor).2.2.self.req = world.self.req := by
    unfold World.handlerLogin
    split
    · exact ⟨refl world, rfl⟩
    · exact ⟨acceptorCalls acceptor.calls world,
        acceptorCalls_req acceptor.calls world⟩
  have hmsgid : known
      (world.handlerLogin codec acceptor).2.2.self.req.msgid := by
    rwa [hhandler.2]
  have hreturned := hhandler.1.trans
    (record (.loginReturned (world.handlerLogin codec acceptor).1) _)
  dsimp only [World.login]
  split
  · exact hreturned
  · split
    · exact hreturned.trans (sysRep _ _ hmsgid)
    · exact hreturned.trans (deny _ _ hmsgid)

theorem finish (destroy : World → World) (world : World) :
    Onward known world (world.finish destroy false) :=
  of_stream (.of_eq rfl rfl (List.Subset.refl _)) rfl
    (StreamStatus.stage_le _)

theorem step (acceptor : AcceptorResult) {world : World}
    (hknown : known world.self.req.msgid) :
    Onward known world (world.step codec acceptor) := by
  unfold World.step
  split
  case h_1 hstatus =>
    exact of_stream (.refl _) rfl (by rw [hstatus]; exact Nat.zero_le _)
  case h_2 => exact (@setStatus known .login rfl world).trans (recv _)
  case h_3 =>
    have hlogin := @login known codec acceptor world hknown
    split
    · exact finish _ world
    · dsimp only
      split
      · exact hlogin.trans (finish _ _)
      · split
        · exact hlogin
        · have hregister := hlogin.trans
            (register (world.login codec acceptor).1 _)
          exact (hregister.trans (@setStatus known .read rfl _)).trans
            (recv _)
  case h_4 =>
    have hhandle := @handle known world.self.req world
    split
    · exact finish _ world
    · dsimp only
      split
      · exact hhandle.trans (recv _)
      · exact hhandle.trans (finish _ _)
  case h_5 => exact kept.destroy world
  case h_6 => exact finish _ world
  case h_7 => exact finish _ world

/-- A completion, with the request that a Read has received. -/
theorem process (ok : Bool) {request : Request} (acceptor : AcceptorResult)
    {world : World} (hreq : known world.self.req.msgid)
    (hrequest : ok = true → world.self.status ≠ .accept →
      known request.msgid) :
    Onward known world (world.process codec ok request acceptor) := by
  have hpopped : Onward known world
      { world with self.pending := world.self.pending - 1 } :=
    of_eq rfl rfl rfl
  dsimp only [World.process]
  split
  case isTrue hok =>
    split
    · exact hpopped.trans (step acceptor hreq)
    case isFalse hstatus =>
      have hread : Onward known world
          { world with
            self.pending := world.self.pending - 1
            self.req := request } :=
        { written := List.prefix_refl _
          stage := Nat.le_refl _
          answers := fun hanswers =>
            { req := hrequest hok hstatus
              stream := hanswers.stream } }
      exact hread.trans (step acceptor (hrequest hok hstatus))
  · exact hpopped.trans (kept.destroy _)

end Onward

/-! ## What a server sends -/

namespace Server

/-- Every msgid a connection has, or is to get from `FinishLogin`, is known
for it. -/
structure Answers (known : ConnId → ℕ → Prop) (server : Server) : Prop where
  conns : EachConn (fun _ conn self => self.Answers (known conn)) server
  finishing : ∀ conn request, (conn, request) ∈ server.finishing →
    known conn request.msgid

/-- What comes in from outside has a known msgid: a request that is read, a
reply of the application, and the msgid it finishes a login with. -/
def Action.Answers (known : ConnId → ℕ → Prop) (server : Server) :
    Action → Prop
  | .complete conn ok request _ _ => ∀ self, server.conns conn = some self →
      ok = true → self.status ≠ .accept → known conn request.msgid
  | .finishLogin lcid _ msgid _ => ∀ conn, server.reg.pmap lcid = some conn →
      known conn msgid
  | .send conn reply => known conn reply.msgid
  | _ => True

/-- A connection is still there, has written what it had, and does not go back
to waiting for its peer; a new one waits for it at least. -/
structure Goes (server next : Server) : Prop where
  kept : ∀ conn self, server.conns conn = some self →
    ∃ self', next.conns conn = some self' ∧
      self.stream.written <+: self'.stream.written ∧
      self.status.stage ≤ self'.status.stage
  made : ∀ conn self', next.conns conn = some self' →
    server.conns conn = none → 1 ≤ self'.status.stage

/-- A step from a server whose msgids are known to another one. -/
structure Advances (known : ConnId → ℕ → Prop) (server next : Server) :
    Prop where
  goes : Goes server next
  answers : next.Answers known

/-- More msgids may be known. -/
theorem Answers.mono {known more : ConnId → ℕ → Prop} {server : Server}
    (hanswers : server.Answers known)
    (hmore : ∀ conn msgid, known conn msgid → more conn msgid) :
    server.Answers more where
  conns conn self hconn := by
    have hself := hanswers.conns conn self hconn
    exact {
      req := hmore conn _ hself.req
      stream :=
        { replies := fun reply hmem =>
            hmore conn _ (hself.stream.replies reply hmem)
          logins := fun request hmem =>
            hmore conn _ (hself.stream.logins request hmem) } }
  finishing conn request hmem :=
    hmore conn _ (hanswers.finishing conn request hmem)

section Advances

variable {known : ConnId → ℕ → Prop} {server next : Server} {codec : Codec}

theorem Goes.of_conns (hconns : next.conns = server.conns) :
    Goes server next where
  kept _ self hconn :=
    ⟨self, hconns ▸ hconn, List.prefix_refl _, Nat.le_refl _⟩
  made conn self' hconn hnone := by
    rw [hconns, hnone] at hconn
    contradiction

/-- One connection is changed. -/
theorem Goes.of_update {conn : ConnId} {self self' : Conn}
    (hconn : server.conns conn = some self)
    (hconns : next.conns = Function.update server.conns conn (some self'))
    (hwritten : self.stream.written <+: self'.stream.written)
    (hstage : self.status.stage ≤ self'.status.stage) :
    Goes server next where
  kept other state hother := by
    rw [hconns]
    by_cases hsame : other = conn
    · subst hsame
      rw [hconn, Option.some.injEq] at hother
      subst hother
      exact ⟨self', Function.update_self _ _ _, hwritten, hstage⟩
    · exact ⟨state, (Function.update_of_ne hsame _ _).trans hother,
        List.prefix_refl _, Nat.le_refl _⟩
  made other state hother hnone := by
    have hne : other ≠ conn := by
      rintro rfl
      rw [hconn] at hnone
      contradiction
    rw [hconns, Function.update_of_ne hne, hnone] at hother
    contradiction

theorem Goes.trans {third : Server} (hfirst : Goes server next)
    (hsecond : Goes next third) : Goes server third where
  kept conn self hconn := by
    obtain ⟨middle, hmiddle, hwritten, hstage⟩ := hfirst.kept conn self hconn
    obtain ⟨last, hlast, hwritten', hstage'⟩ :=
      hsecond.kept conn middle hmiddle
    exact ⟨last, hlast, hwritten.trans hwritten',
      Nat.le_trans hstage hstage'⟩
  made conn self' hconn hnone := by
    cases hmiddle : next.conns conn with
    | none => exact hsecond.made conn self' hconn hmiddle
    | some middle =>
        obtain ⟨last, hlast, -, hstage⟩ := hsecond.kept conn middle hmiddle
        rw [hconn, Option.some.injEq] at hlast
        exact Nat.le_trans (hfirst.made conn middle hmiddle hnone)
          (hlast ▸ hstage)

theorem Advances.trans {third : Server} (hfirst : Advances known server next)
    (hsecond : Advances known next third) : Advances known server third where
  goes := hfirst.goes.trans hsecond.goes
  answers := hsecond.answers

theorem Advances.refl (hanswers : server.Answers known) :
    Advances known server server where
  goes := .of_conns rfl
  answers := hanswers

/-- Only the registries and the pending logins are changed. -/
theorem Advances.of_conns (hanswers : server.Answers known)
    (hconns : next.conns = server.conns)
    (hfinishing : ∀ conn request, (conn, request) ∈ next.finishing →
      (conn, request) ∈ server.finishing ∨ known conn request.msgid) :
    Advances known server next where
  goes := .of_conns hconns
  answers :=
    { conns := fun _ self hconn =>
        hanswers.conns _ self (hconns ▸ hconn)
      finishing := fun conn request hmem =>
        (hfinishing conn request hmem).elim (hanswers.finishing conn request)
          id }

theorem Advances.runConn (hanswers : server.Answers known) (conn : ConnId)
    (results : List HandlerResult) {method : World → World}
    (hmethod : ∀ self, server.conns conn = some self →
      Onward (known conn) ⟨self, server.reg, results⟩
        (method ⟨self, server.reg, results⟩)) :
    Advances known server (server.runConn conn results method) := by
  cases hconn : server.conns conn with
  | none =>
      rw [runConn_of_none hconn]
      exact .refl hanswers
  | some self =>
      have honward := hmethod self hconn
      rw [runConn_of_some hconn]
      constructor
      · exact .of_update hconn rfl honward.written honward.stage
      · refine ⟨fun other state hother => ?_, hanswers.finishing⟩
        dsimp only at hother
        by_cases hsame : other = conn
        · subst hsame
          rw [Function.update_self, Option.some.injEq] at hother
          exact hother ▸ honward.answers (hanswers.conns _ self hconn)
        · rw [Function.update_of_ne hsame] at hother
          exact hanswers.conns other state hother

theorem Advances.onStream (hanswers : server.Answers known) (conn : ConnId)
    {change : SVStream → SVStream}
    (hchange : ∀ stream,
      SVStream.Onward (known conn) stream (change stream)) :
    Advances known server (server.onStream conn change) where
  goes := by
    cases hconn : server.conns conn with
    | none =>
        rw [onStream_of_none hconn]
        exact .of_conns rfl
    | some self =>
        rw [onStream_of_some hconn]
        exact .of_update hconn rfl (hchange _).written (Nat.le_refl _)
  answers :=
    { conns := hanswers.conns.onStream conn change fun self _ hself =>
        { req := hself.req
          stream := (hchange self.stream).answers hself.stream }
      finishing := by
        rw [onStream_finishing]
        exact hanswers.finishing }

theorem Advances.newConn (hwf : WellFormed server)
    (hanswers : server.Answers known) (hzero : ∀ conn, known conn 0)
    (worker : WorkerId) :
    Advances known server (server.newConn codec worker) where
  goes :=
    { kept := fun other state hother => by
        have hne : other ≠ server.next := by
          rintro rfl
          rw [hwf.fresh] at hother
          contradiction
        rw [newConn_eq]
        exact ⟨state, (Function.update_of_ne hne _ _).trans hother,
          List.prefix_refl _, Nat.le_refl _⟩
      made := fun other state hother hnone => by
        rw [newConn_eq] at hother
        dsimp only at hother
        by_cases hsame : other = server.next
        · subst hsame
          rw [Function.update_self, Option.some.injEq] at hother
          exact hother ▸ Nat.le_refl 1
        · rw [Function.update_of_ne hsame, hnone] at hother
          contradiction }
  answers :=
    { conns := hanswers.conns.newConn worker
        { req := hzero _
          stream := ⟨List.forall_mem_nil _, fun _ hmem =>
            absurd hmem List.not_mem_nil⟩ }
      finishing := hanswers.finishing }

theorem Advances.shutdownLoop (hanswers : server.Answers known)
    (worker : WorkerId) (results : ℕ → List HandlerResult)
    (fuel index : ℕ) :
    Advances known server
      (server.shutdownLoop codec worker results fuel index) := by
  induction fuel generalizing index server with
  | zero => exact .refl hanswers
  | succ fuel ih =>
      unfold Server.shutdownLoop
      split
      · exact .refl hanswers
      case h_2 conn hmember =>
        have hfirst := @Advances.runConn known server hanswers conn
          (results index) (World.destroy codec)
          fun _ _ => Onward.kept.destroy _
        exact hfirst.trans (ih hfirst.answers _)

/-- A completion reads a request with a known msgid, or none. -/
theorem Advances.complete (hwf : WellFormed server)
    (hzero : ∀ conn, known conn 0) (hanswers : server.Answers known)
    {conn : ConnId} {ok : Bool} {request : Request}
    {acceptor : AcceptorResult} {results : List HandlerResult} {self : Conn}
    (hconn : server.conns conn = some self)
    (hrequest : ok = true → self.status ≠ .accept →
      known conn request.msgid) :
    Advances known server
      (server.complete codec conn ok request acceptor results) := by
  have hprocess : ∀ other : Server, other.Answers known →
      other.conns conn = some self →
      Advances known other (other.runConn conn results
        (World.process codec ok request acceptor)) := by
    intro other hother hsame
    refine .runConn hother conn results fun state hstate => ?_
    rw [hsame, Option.some.injEq] at hstate
    subst hstate
    exact Onward.process ok acceptor (hother.conns conn _ hsame).req hrequest
  rw [Server.complete, hconn]
  dsimp only
  split
  · have hnew := @Advances.newConn known server codec hwf hanswers hzero
      self.worker
    refine hnew.trans (hprocess _ hnew.answers ?_)
    rw [newConn_eq]
    refine (Function.update_of_ne ?_ _ _).trans hconn
    rintro rfl
    rw [hwf.fresh] at hconn
    contradiction
  · exact hprocess server hanswers hconn

/-- A server whose msgids are known, given only known ones, sends only
replies with known msgids. -/
theorem advances_step {action : Action} (hwf : WellFormed server)
    (hzero : ∀ conn, known conn 0) (hanswers : server.Answers known)
    (haction : action.Answers known server)
    (hstep : server.step codec action = some next) :
    Advances known server next := by
  cases action with
  | launch worker =>
      obtain rfl := Option.some.inj hstep
      exact .newConn hwf hanswers hzero worker
  | complete conn ok request acceptor results =>
      obtain ⟨self, hconn, -, rfl⟩ := step_complete hstep
      exact .complete hwf hzero hanswers hconn (haction self hconn)
  | consume conn results =>
      obtain ⟨-, -, -, rfl⟩ := step_consume hstep
      exact .runConn hanswers conn results fun _ _ =>
        Onward.kept.consumeTask Onward.kept.destroyKept 3 _
  | shutdown worker results =>
      obtain ⟨-, -, rfl⟩ := step_shutdown hstep
      exact .shutdownLoop hanswers worker results _ 0
  | prepareShutdown worker =>
      obtain rfl := Option.some.inj hstep
      exact .of_conns hanswers rfl fun _ _ hmem => Or.inl hmem
  | finishLogin lcid cid msgid data =>
      rcases step_finishLogin hstep with ⟨-, rfl⟩ | ⟨conn, hentry, rfl⟩
      · exact .refl hanswers
      refine .of_conns hanswers rfl fun other request hmem => ?_
      rcases List.mem_append.mp hmem with hold | hnew
      · exact Or.inl hold
      · obtain ⟨rfl, rfl⟩ := Prod.mk.inj (List.mem_singleton.mp hnew)
        exact Or.inr (haction _ hentry)
  | postLogin conn request =>
      obtain ⟨hmem, rfl⟩ := step_postLogin hstep
      have hknown := hanswers.finishing conn request hmem
      have hfirst := @Advances.of_conns known server
        { server with finishing := server.finishing.erase (conn, request) }
        hanswers rfl fun _ _ hmem => Or.inl (List.mem_of_mem_erase hmem)
      refine hfirst.trans (.onStream hfirst.answers conn fun stream => ?_)
      exact .enqueue stream fun other hother => by
        cases hother
        exact hknown
  | getStream cid =>
      rcases step_getStream hstep with ⟨-, rfl⟩ | ⟨conn, hentry, rfl⟩
      · exact .refl hanswers
      have hfirst := @Advances.of_conns known server
        { server with handles := server.handles ++ [conn] }
        hanswers rfl fun _ _ hmem => Or.inl hmem
      exact hfirst.trans (.onStream hfirst.answers conn fun _ =>
        .of_eq rfl rfl (List.Subset.refl _))
  | closeStream conn =>
      obtain ⟨-, rfl⟩ := step_closeStream hstep
      exact .onStream hanswers conn fun stream =>
        .enqueue stream fun _ hother => by cases hother
  | addTask conn request =>
      obtain rfl := Option.some.inj hstep
      exact .onStream hanswers conn fun stream =>
        .enqueue stream fun _ hother => by cases hother
  | send conn reply =>
      obtain rfl := Option.some.inj hstep
      exact .onStream hanswers conn fun stream => .send stream haction
  | writeDone conn ok =>
      obtain rfl := step_writeDone hstep
      exact .onStream hanswers conn fun stream => .writeDone stream ok
  | closerDone conn ok =>
      obtain rfl := step_closerDone hstep
      exact .onStream hanswers conn fun stream => by
        have hdone : SVStream.Onward (known conn) stream
            { stream with closers := stream.closers - 1 } :=
          .of_eq rfl rfl (List.Subset.refl _)
        exact hdone.trans (.unref _)

theorem goes_step {action : Action} (hwf : WellFormed server)
    (hstep : server.step codec action = some next) : Goes server next := by
  have hanswers : server.Answers fun _ _ => True :=
    { conns := fun _ _ _ => ⟨trivial, fun _ _ => trivial, fun _ _ => trivial⟩
      finishing := fun _ _ _ => trivial }
  have haction : action.Answers (fun _ _ => True) server := by
    cases action with
    | complete => exact fun _ _ _ _ => trivial
    | finishLogin => exact fun _ _ => trivial
    | _ => trivial
  exact (advances_step hwf (fun _ => trivial) hanswers haction hstep).goes

end Advances

end Server

end GrpcMtk
