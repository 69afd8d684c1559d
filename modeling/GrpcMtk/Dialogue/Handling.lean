import GrpcMtk.Server.Handling
import GrpcMtk.Dialogue.Delivery

/-!
# Handling a call once

The handler of a server is called with a request of the client at most once,
though the client may have connected again in between.  `Finish` must be the end
of its `Conn` for this: a Login task that is accepted after it makes the
completion of `Finish` look like that of a Read, and `req_` is handled again.
-/

namespace GrpcMtk

open GrpcMtk.Proto
open GrpcMtk.Runs

namespace Dialogue

/-- A Finish does not complete on a connection that is open again. -/
def Settled (dialogue : Dialogue) : Action → Prop
  | .server (.complete conn true _ _ _) => dialogue.peers conn = none ∨
      ∀ self ∈ dialogue.server.conns conn, self.status ≠ .read
  | _ => True

instance (dialogue : Dialogue) : ∀ action, Decidable (dialogue.Settled action)
  | .server (.complete _ true _ _ _) => inferInstanceAs (Decidable (_ ∨ _))
  | .server (.complete _ false _ _ _) | .client _ | .receive _ _ _
  | .accept _ _ | .read _ _ _ | .server (.launch _) | .server (.consume _ _)
  | .server (.shutdown _ _) | .server (.prepareShutdown _)
  | .server (.finishLogin _ _ _ _) | .server (.postLogin _ _)
  | .server (.getStream _) | .server (.closeStream _)
  | .server (.addTask _ _) | .server (.send _ _) | .server (.writeDone _ _)
  | .server (.closerDone _ _) => isTrue trivial

/-- What a connection hands on it has read, or `AddTask` has given it. -/
structure Handling (dialogue : Dialogue) : Prop where
  delivering : Delivering dialogue
  inHand : ∀ conn, List.Subperm (dialogue.server.inHand conn)
    (dialogue.heard conn ++ dialogue.tasked conn)

theorem handling_init : Handling init where
  delivering := delivering_init
  inHand _ := List.Subperm.refl _

section Handling

variable {codec : Codec} {dialogue next : Dialogue}

/-- What an action gives is read or enqueued. -/
theorem Handling.of_hands (hhandling : Handling dialogue)
    (hdelivering : Delivering next) {given : ConnId → List Request}
    (hhands : Server.Hands given dialogue.server next.server)
    (hgiven : ∀ conn, List.Subperm
      (dialogue.heard conn ++ dialogue.tasked conn ++ given conn)
      (next.heard conn ++ next.tasked conn)) : Handling next where
  delivering := hdelivering
  inHand conn := by
    have hkept := (List.subperm_append_right (given conn)).mpr
      (hhandling.inHand conn)
    exact ((hhands conn).trans hkept).trans (hgiven conn)

/-- Nothing is given. -/
theorem Handling.of_nothing (hhandling : Handling dialogue)
    (hdelivering : Delivering next) {given : ConnId → List Request}
    (hhands : Server.Hands given dialogue.server next.server)
    (hgiven : ∀ conn, given conn = [])
    (hheard : ∀ conn, List.Sublist (dialogue.heard conn) (next.heard conn))
    (htasked : next.tasked = dialogue.tasked) : Handling next := by
  refine hhandling.of_hands hdelivering hhands fun conn => ?_
  rw [hgiven conn, List.append_nil, htasked]
  exact ((hheard conn).append_right _).subperm

theorem Handling.clientStep {action : RPCStream.Action}
    (hhandling : Handling dialogue) (hdelivering : Delivering next)
    {middle : Dialogue} (hstep : dialogue.clientStep action = some middle)
    (hserver : next.server = middle.server) (hheard : next.heard = middle.heard)
    (htasked : next.tasked = middle.tasked) : Handling next := by
  obtain ⟨-, hserver', -, hheard', htasked', -⟩ := clientStep_eq hstep
  exact {
    delivering := hdelivering
    inHand := by
      rw [hserver, hserver', hheard, hheard', htasked, htasked']
      exact hhandling.inHand }

/-- The request is put behind what was read before. -/
theorem subperm_update (heard tasked : ConnId → List Request)
    {given : ConnId → List Request} {conn : ConnId} {request : Request}
    (hgiven : ∀ other, given other = [] ∨
      other = conn ∧ given other = [request]) (other : ConnId) :
    List.Subperm (heard other ++ tasked other ++ given other)
      (Function.update heard conn (heard conn ++ [request]) other ++
        tasked other) := by
  by_cases hsame : other = conn
  · subst hsame
    rw [Function.update_self, List.append_assoc, List.append_assoc,
      List.subperm_append_left]
    rcases hgiven other with hnone | ⟨-, hone⟩
    · rw [hnone, List.append_nil]
      exact (List.sublist_append_right _ _).subperm
    · rw [hone]
      exact List.perm_append_comm.subperm
  · have hnone := (hgiven other).resolve_right fun hone => hsame hone.1
    rw [Function.update_of_ne hsame, hnone, List.append_nil]

/-- Only the connection whose Read completes is given its request. -/
theorem given_complete (server : Server) (conn : ConnId) (ok : Bool)
    (request : Request) (acceptor : AcceptorResult)
    (results : List HandlerResult) (other : ConnId) :
    Server.Action.given server other
        (.complete conn ok request acceptor results) = [] ∨
      other = conn ∧ Server.Action.given server other
        (.complete conn ok request acceptor results) = [request] := by
  cases ok with
  | false => exact Or.inl rfl
  | true =>
      rw [Server.Action.given]
      split
      case isTrue hgiven => exact Or.inr ⟨hgiven.1.symm, rfl⟩
      · exact Or.inl rfl

/-- Nothing is given to a connection that is not in READ. -/
theorem given_of_not_read {server : Server} {conn : ConnId}
    (hstatus : ∀ self ∈ server.conns conn, self.status ≠ .read) (ok : Bool)
    (request : Request) (acceptor : AcceptorResult)
    (results : List HandlerResult) (other : ConnId) :
    Server.Action.given server other
      (.complete conn ok request acceptor results) = [] := by
  cases ok with
  | false => rfl
  | true =>
      refine if_neg ?_
      rintro ⟨rfl, hany⟩
      obtain ⟨self, hself, hread⟩ := Option.any_eq_true _ _ |>.mp hany
      exact hstatus self hself (of_decide_eq_true hread)

theorem heardAfter_read {conn : ConnId} {request : Request}
    {acceptor : AcceptorResult} {results : List HandlerResult}
    (hpeer : dialogue.peers conn = none)
    (hread : ¬∀ self ∈ dialogue.server.conns conn, self.status ≠ .read) :
    dialogue.heardAfter (.complete conn true request acceptor results) =
      Function.update dialogue.heard conn
        (dialogue.heard conn ++ [request]) := by
  simp only [not_forall, not_not] at hread
  obtain ⟨self, hconn, hstatus⟩ := hread
  rw [Option.mem_def] at hconn
  rw [heardAfter, hconn]
  dsimp only
  rw [if_neg (by rw [hstatus]; exact StreamStatus.noConfusion), if_pos hpeer]

theorem Handling.step {action : Action} (hhandling : Handling dialogue)
    (hstep : dialogue.step codec action = some next)
    (hsettled : dialogue.Settled action) : Handling next := by
  have hdelivering := hhandling.delivering.step hstep
  have hwf := hhandling.delivering.wellFormed
  cases action with
  | client action =>
      exact hhandling.clientStep hdelivering (step_client hstep).2 rfl rfl rfl
  | receive index conn reply =>
      obtain ⟨_, middle, -, -, -, hmiddle, rfl⟩ := step_receive hstep
      exact hhandling.clientStep hdelivering hmiddle rfl rfl rfl
  | server action =>
      obtain ⟨-, server, hserver, rfl⟩ := step_server hstep
      have hhands := Server.hands_step hwf hserver
      cases action with
      | complete conn ok request acceptor results =>
          have hkept := dialogue.sublist_heardAfter
            (.complete conn ok request acceptor results)
          by_cases hread : ∀ self ∈ dialogue.server.conns conn,
              self.status ≠ .read
          · exact hhandling.of_nothing hdelivering hhands
              (given_of_not_read hread ok request acceptor results) hkept rfl
          · cases ok with
            | false =>
                exact hhandling.of_nothing hdelivering hhands (fun _ => rfl)
                  hkept rfl
            | true =>
                refine hhandling.of_hands hdelivering hhands fun other => ?_
                dsimp only
                rw [heardAfter_read (hsettled.resolve_right hread) hread]
                exact subperm_update _ _ (given_complete dialogue.server conn
                  true request acceptor results) other
      | addTask conn request =>
          refine hhandling.of_hands hdelivering hhands fun other => ?_
          dsimp only [heardAfter, taskedAfter, Server.Action.given]
          by_cases hsame : conn = other
          · subst hsame
            rw [if_pos rfl, Function.update_self, List.append_assoc]
          · rw [if_neg hsame, Function.update_of_ne (Ne.symm hsame),
              List.append_nil]
      | _ =>
          exact hhandling.of_nothing hdelivering hhands (fun _ => rfl)
            (fun _ => .refl _) rfl
  | accept conn peer =>
      obtain ⟨self, server, hconn, hstatus, -, hserver, rfl⟩ :=
        step_accept hstep
      refine hhandling.of_nothing hdelivering (Server.hands_step hwf hserver)
        (given_of_not_read (fun other hother => ?_) true noRequest noAcceptor
          []) (fun _ => .refl _) rfl
      rw [Option.mem_def, hconn, Option.some.injEq] at hother
      rw [← hother, hstatus]
      exact StreamStatus.noConfusion
  | read conn acceptor results =>
      obtain ⟨peer, sent, server, -, -, hserver, rfl⟩ := step_read hstep
      exact hhandling.of_hands hdelivering (Server.hands_step hwf hserver)
        (subperm_update _ _ (given_complete dialogue.server conn true
          sent.request acceptor results))

end Handling

/-- If no Finish completes on a connection that is open again, a `Conn` that
has accepted a connection of the client calls the handler once at most with each
request it has read and each that `AddTask` has given it, and no other `Conn`
has read the request of one of these calls. -/
theorem handled_once (codec : Codec) (actions : List Action)
    (dialogue : Dialogue)
    (hrun : exec (step codec) init actions = some dialogue)
    (hsettled : AllSteps (step codec)
      (fun dialogue action _ => dialogue.Settled action) init actions)
    (conn : ConnId) (self : Conn)
    (hconn : dialogue.server.conns conn = some self)
    (hpeer : dialogue.peers conn ≠ none) :
    ∃ calls tasks,
      List.Perm self.handled (calls.map Sent.request ++ tasks) ∧
      List.Sublist calls (dialogue.readBy conn) ∧
      (calls.map Sent.call).Nodup ∧
      (∀ other ≠ conn, ∀ sent ∈ dialogue.readBy other,
        sent.call ∉ calls.map Sent.call) ∧
      List.Sublist tasks (dialogue.tasked conn) := by
  have hhandling := exec_invariant_of_allSteps
    (fun _ _ _ hhandling hstep hsettled =>
      Handling.step hhandling hstep hsettled) handling_init hsettled hrun
  have hdelivering := hhandling.delivering
  have hinHand := hhandling.inHand conn
  rw [Server.inHand_of_some hconn, hdelivering.heard conn hpeer] at hinHand
  have hhandled : List.Subperm self.handled
      ((dialogue.readBy conn).map Sent.request ++ dialogue.tasked conn) :=
    (List.sublist_append_left _ _).subperm.trans hinHand
  obtain ⟨given, hperm, hgiven⟩ := hhandled
  obtain ⟨requests, tasks, rfl, hrequests, htasks⟩ :=
    List.sublist_append_iff.mp hgiven
  obtain ⟨calls, hcalls, rfl⟩ := List.sublist_map_iff.mp hrequests
  refine ⟨calls, tasks, hperm.symm, hcalls,
    (hdelivering.nodup_readBy conn).sublist (hcalls.map _), ?_, htasks⟩
  intro other hother sent hread hmem
  obtain ⟨sent', hsent', hcall⟩ := List.mem_map.mp hmem
  exact hother
    (hdelivering.apart hread (hcalls.subset hsent') hcall.symm).1

theorem handled_once_exchange :
    ∃ dialogue self, exec (step Codec.small) init exchange = some dialogue ∧
      dialogue.server.conns 0 = some self ∧ self.handled.length = 1 ∧
      ∃ calls tasks,
        List.Perm self.handled (calls.map Sent.request ++ tasks) ∧
        List.Sublist calls (dialogue.readBy 0) ∧
        (calls.map Sent.call).Nodup ∧
        (∀ other ≠ 0, ∀ sent ∈ dialogue.readBy other,
          sent.call ∉ calls.map Sent.call) ∧
        List.Sublist tasks (dialogue.tasked 0) := by
  obtain ⟨dialogue, hrun⟩ := Option.isSome_iff_exists.mp
    (by decide +kernel :
      (exec (step Codec.small) init exchange).isSome = true)
  have hfinal : (exec (step Codec.small) init exchange).all (fun dialogue =>
      decide (dialogue.peers 0 ≠ none ∧ ∃ self ∈ dialogue.server.conns 0,
        self.handled.length = 1)) = true := by decide +kernel
  rw [hrun, Option.all_some, decide_eq_true_eq] at hfinal
  obtain ⟨hpeer, self, hconn, hlength⟩ := hfinal
  exact ⟨dialogue, self, hrun, hconn, hlength,
    handled_once Codec.small exchange dialogue hrun (by decide +kernel) 0 self
      hconn hpeer⟩

/-- The acceptor accepts the login, but it has deferred it and closed the
connection before, so `Finish` is called; then the login is finished all the
same, and the client goes on. -/
def reopened : List Action :=
  let nothing : Reply := { type := 0, msgid := 0, error := none, payload := [] }
  let acceptor : AcceptorResult :=
    { cid := 1, calls := [.deferLogin, .close], slice := [] }
  let request : Request :=
    { type := 1, msgid := 2, kind := .normal, payload := [] }
  let handler : HandlerResult := { ok := true, close := false }
  [.server (.launch 0)] ++ updates 3 ++
    [.client .ioTimeout, .accept 0 1, .client (.ioEvent 0 true nothing)] ++
    updates 7 ++ [.client .ioTimeout] ++
    [.read 0 acceptor [], .server (.finishLogin 1 1 1 []),
      .server (.postLogin 0
        { loginCid := 1, id := 1, msgid := 1, payload := [] }),
      .server (.consume 0 []),
      .receive 0 0 { type := 0, msgid := 1, error := none, payload := [8, 1] }
      ] ++ updates 4 ++
    [.client (.callBegin { request with msgid := 0 }),
      .client (.callNumber 1 1), .client (.callEnqueue 1),
      .client (.callInsert 1), .client (.ioEvent 0 true nothing),
      .read 0 acceptor [handler],
      .server (.complete 0 true request acceptor [handler])]

/-- Then the handler is called twice with the request of the one call. -/
theorem handled_twice_reopened :
    ∃ dialogue self, exec (step Codec.small) init reopened = some dialogue ∧
      dialogue.server.conns 0 = some self ∧
      self.handled.map Request.msgid = [2, 2] ∧
      (dialogue.sent.map fun sent => sent.request.msgid) = [1, 2] ∧
      dialogue.tasked 0 = [] := by
  obtain ⟨dialogue, hrun⟩ := Option.isSome_iff_exists.mp
    (by decide +kernel :
      (exec (step Codec.small) init reopened).isSome = true)
  have hfinal : (exec (step Codec.small) init reopened).all (fun dialogue =>
      decide ((∃ self ∈ dialogue.server.conns 0,
        self.handled.map Request.msgid = [2, 2]) ∧
        (dialogue.sent.map fun sent => sent.request.msgid) = [1, 2] ∧
        dialogue.tasked 0 = [])) = true := by decide +kernel
  rw [hrun, Option.all_some, decide_eq_true_eq] at hfinal
  obtain ⟨⟨self, hconn, htwice⟩, hsent, htasked⟩ := hfinal
  exact ⟨dialogue, self, hrun, hconn, htwice, hsent, htasked⟩

end Dialogue

end GrpcMtk
