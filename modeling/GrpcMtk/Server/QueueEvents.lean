import GrpcMtk.Core.Runs
import GrpcMtk.Server.Methods
import GrpcMtk.Server.System
import Mathlib.Data.Int.ModEq

/-!
# Events of a queue

With `use_queue` a server does not call its application.  Three closures push
what happens into a queue, and the application tells the events apart by the
login cid and the message id that it finds in them.

A connection calls its handler from few places: `Step` for the Login and for
every Request it has read, `ConsumeTask` for a Normal task, `Destroy` for the
close.  Between two of them anything may happen to it.
-/

namespace GrpcMtk

open GrpcMtk.Proto
open GrpcMtk.Runs

/-- `mtk_svevent_t`.  `_OnAccept` leaves `result` as it was allocated. -/
structure SvEvent where
  lcid : ℕ
  cid : ℕ
  msgid : ℕ
  result : Option ℤ
  data : Bytes
  deriving DecidableEq, Repr

inductive SvEvent.Kind where
  | accept
  | message
  | close
  deriving DecidableEq, Repr

/-- What `Server.Process` takes an event for. -/
def SvEvent.kind (event : SvEvent) : SvEvent.Kind :=
  if event.lcid ≠ 0 then .accept
  else if event.msgid ≠ 0 then .message
  else .close

namespace QueueReadHandler

/-! ## The closures -/

/-- A `uint32_t` passed as a `mtk_result_t`. -/
def toResult (type : ℕ) : ℤ := (type : ℤ).bmod (2 ^ 32)

def onRecv (world : World) (r : ℤ) (p : Bytes) : SvEvent where
  lcid := 0
  cid := world.self.cid
  msgid := world.self.req.msgid
  result := some r
  data := p

def onClose (world : World) : SvEvent where
  lcid := 0
  cid := world.self.cid
  msgid := 0
  result := some 0
  data := []

def onAccept (msgid cid : ℕ) (p : Bytes) (world : World) : SvEvent × World :=
  let world := world.deferLogin
  ({ lcid := world.self.lcid, cid, msgid, result := none, data := p }, world)

/-- The acceptor that `_OnAccept` is. -/
def acceptor : AcceptorResult where
  cid := 0
  calls := [.deferLogin]
  slice := []

/-! ## The calls of a connection -/

/-- An event that the handler of the connection was called for. -/
def OfHandler : ConnEvent → Bool
  | .loginReturned _ | .handled _ | .closed => true
  | .loginTask _ | .denied | .registered _ | .deleted
  | .usedAfterDelete => false

/-- The handler was not called and no Read has completed. -/
def Silent (before after : World) : Prop :=
  after.self.req = before.self.req ∧
    after.self.history.filter OfHandler = before.self.history.filter OfHandler

instance (before after : World) : Decidable (Silent before after) :=
  inferInstanceAs (Decidable (_ ∧ _))

inductive Action where
  /-- A Read has filled `req_`. -/
  | read (request : Request)
  /-- `handler_->Login(this, req_, s)`. -/
  | login
  /-- `handler_->Handle(this, req_)`. -/
  | handle
  /-- `handler_->Handle(this, *t)`. -/
  | task (request : Request)
  /-- `handler_->Close(this)`. -/
  | close
  /-- Whatever else happens to the connection. -/
  | other (after : World)

section Step

variable (codec : Codec)

def step (world : World) : Action → Option World
  | .read request => some { world with self.req := request }
  | .login =>
      match codec.unpackConnect world.self.req.payload with
      | none => some (world.record (.loginReturned 0))
      | some connect =>
          some ((onAccept world.self.req.msgid connect.id connect.payload
            world).2.record (.loginReturned 0))
  | .handle => some (world.handle world.self.req).2
  | .task request => some (world.handle request).2
  | .close => some (world.record .closed)
  | .other after => if Silent world after then some after else none

/-- The events that the call pushes. -/
def pushed (world : World) : Action → List SvEvent
  | .login =>
      match codec.unpackConnect world.self.req.payload with
      | none => []
      | some connect =>
          [(onAccept world.self.req.msgid connect.id connect.payload world).1]
  | .handle =>
      [onRecv world (toResult world.self.req.type) world.self.req.payload]
  | .task request =>
      [onRecv world (toResult request.type) request.payload]
  | .close => [onClose world]
  | .read _ | .other _ => []

/-- The event is a message and carries the request.  A task has no message id
of its own and goes by that of the Request the connection has read last. -/
def Reports (world : World) (request : Request) (event : SvEvent) : Prop :=
  event.kind = .message ∧ event.cid = world.self.cid ∧
    event.msgid = world.self.req.msgid ∧
    (∃ r ∈ event.result, r ≡ request.type [ZMOD 2 ^ 32]) ∧
    event.data = request.payload

/-- The event is what the call was about. -/
def Describes (world : World) (event : SvEvent) : Action → Prop
  | .login =>
      ∃ connect ∈ codec.unpackConnect world.self.req.payload,
        event.kind = .accept ∧ event.cid = connect.id ∧
          event.msgid = world.self.req.msgid ∧ event.data = connect.payload
  | .handle => Reports world world.self.req event
  | .task request => Reports world request event
  | .close => event.kind = .close ∧ event.cid = world.self.cid
  | .read _ | .other _ => False

/-- Every event that the call pushes is classified as what it is. -/
def Classified (world : World) (action : Action) : Prop :=
  ∀ event ∈ pushed codec world action, Describes codec world event action

/-- The marks are there: a Request or task is handled while the message id of
the last Request is not 0, and the acceptor draws a login cid that is not 0. -/
def Marked (world : World) : Action → Prop
  | .login => codec.unpackConnect world.self.req.payload = none ∨
      (world.reg.loginCidSeed + 1) % 2 ^ 64 ≠ 0
  | .handle | .task _ => world.self.req.msgid ≠ 0
  | .read _ | .close | .other _ => True

end Step

/-! ## The classification -/

section Classification

variable {codec : Codec}

theorem toResult_modEq (type : ℕ) : toResult type ≡ type [ZMOD 2 ^ 32] :=
  Int.bmod_emod

theorem reports_onRecv_iff (world : World) (request : Request) :
    Reports world request
        (onRecv world (toResult request.type) request.payload) ↔
      world.self.req.msgid ≠ 0 := by
  have hkind : (onRecv world (toResult request.type) request.payload).kind =
      if world.self.req.msgid ≠ 0 then .message else .close :=
    if_neg (not_not.mpr rfl)
  rw [Reports, hkind]
  constructor
  · rintro ⟨hmessage, -⟩ hzero
    rw [if_neg (not_not.mpr hzero)] at hmessage
    contradiction
  · intro hmsgid
    rw [if_pos hmsgid]
    exact ⟨rfl, rfl, rfl, ⟨_, rfl, toResult_modEq request.type⟩, rfl⟩

theorem classified_iff (world : World) (action : Action) :
    Classified codec world action ↔ Marked codec world action := by
  cases action with
  | read request => simp [Classified, Marked, pushed]
  | other after => simp [Classified, Marked, pushed]
  | handle =>
      rw [Classified, pushed, List.forall_mem_singleton]
      exact reports_onRecv_iff world world.self.req
  | task request =>
      rw [Classified, pushed, List.forall_mem_singleton]
      exact reports_onRecv_iff world request
  | close =>
      rw [Classified, pushed, List.forall_mem_singleton]
      exact iff_of_true ⟨rfl, rfl⟩ trivial
  | login =>
      rw [Classified, pushed, Marked]
      cases hconnect : codec.unpackConnect world.self.req.payload with
      | none => simp
      | some connect =>
          rw [List.forall_mem_singleton, Describes, hconnect]
          have hlcid : (onAccept world.self.req.msgid connect.id
              connect.payload world).1.lcid =
                (world.reg.loginCidSeed + 1) % 2 ^ 64 := rfl
          constructor
          · rintro ⟨_, -, haccept, -⟩
            refine Or.inr fun hzero => ?_
            rw [SvEvent.kind, hlcid, if_neg (not_not.mpr hzero)] at haccept
            split at haccept <;> contradiction
          · rintro (hnone | hdrawn)
            · contradiction
            · refine ⟨connect, rfl, ?_, rfl, rfl, rfl⟩
              rw [SvEvent.kind, hlcid, if_pos hdrawn]

/-- In every history of a connection, every event is classified as what it is
if and only if each Request and task is handled while the message id of the
Request read last is not 0 and no deferred login draws the login cid 0. -/
theorem events_classified_iff (codec : Codec) (world : World)
    (actions : List Action) :
    AllSteps (step codec)
        (fun world action _ => Classified codec world action) world actions ↔
      AllSteps (step codec)
        (fun world action _ => Marked codec world action) world actions :=
  allSteps_congr (fun world action _ _ => classified_iff world action) world
    actions

/-- A client sends a Request with the message id 0. -/
theorem events_classified_fails :
    ¬AllSteps (step Codec.small)
      (fun world action _ => Classified Codec.small world action)
      ⟨{ Conn.new 0 0 with status := .read, cid := 7 }, Server.init.reg, []⟩
      [.read { type := 5, msgid := 0, kind := .normal, payload := [1] },
        .handle] :=
  fun hall => (classified_iff _ .handle).mp hall.2.1 rfl

end Classification

/-! ## The methods of a connection -/

/-- What a method does to a connection whose handler pushes into a queue: it
calls the handler, each call with its event, and nothing else that shows. -/
def Calls (codec : Codec) (before after : World) : Prop :=
  before.results = [] → after.results = [] ∧
    ∃ actions, exec (step codec) before actions = some after

namespace Calls

variable {codec : Codec}

theorem refl (world : World) : Calls codec world world :=
  fun hresults => ⟨hresults, [], rfl⟩

theorem trans {first second third : World} (hfirst : Calls codec first second)
    (hsecond : Calls codec second third) : Calls codec first third := by
  intro hresults
  obtain ⟨hmiddle, before, hbefore⟩ := hfirst hresults
  obtain ⟨hlast, after, hafter⟩ := hsecond hmiddle
  exact ⟨hlast, before ++ after,
    exec_append_eq_some.mpr ⟨second, hbefore, hafter⟩⟩

theorem of_step {before after : World} (action : Action)
    (hstep : step codec before action = some after)
    (hresults : before.results = [] → after.results = []) :
    Calls codec before after :=
  fun hempty => ⟨hresults hempty, [action],
    exec_cons_eq_some.mpr ⟨after, hstep, rfl⟩⟩

theorem silent {before after : World} (hresults : after.results = before.results)
    (hreq : after.self.req = before.self.req)
    (hhistory : after.self.history.filter OfHandler =
      before.self.history.filter OfHandler) : Calls codec before after :=
  of_step (.other after) (if_pos ⟨hreq, hhistory⟩) (hresults.trans ·)

theorem handle (request : Request) (world : World) :
    Calls codec world (world.handle request).2 :=
  of_step (.task request) rfl fun hempty => by
    rw [World.handle_results, hempty, List.tail_nil]

theorem clearLoginCid_req (world : World) :
    world.clearLoginCid.self.req = world.self.req := by
  unfold World.clearLoginCid
  split <;> rfl

theorem register (cid : ℕ) (world : World) :
    Calls codec world (world.register cid) := by
  refine silent (World.clearLoginCid_results world) (clearLoginCid_req world) ?_
  have hhistory : (world.register cid).self.history =
      .registered cid :: world.self.history :=
    congrArg (_ :: ·) (World.clearLoginCid_history world)
  rw [hhistory, List.filter_cons_of_neg (by simp [OfHandler])]

theorem record {event : ConnEvent} (hevent : OfHandler event = false)
    (world : World) : Calls codec world (world.record event) := by
  refine silent rfl rfl ?_
  rw [World.record, List.filter_cons_of_neg (by simp [hevent])]

theorem deny (msgid : ℕ) (payload : Bytes) (world : World) :
    Calls codec world (world.deny msgid payload) := by
  refine trans ?_ (record rfl _)
  exact silent rfl rfl rfl

theorem delete (world : World) : Calls codec world world.delete := by
  refine trans ?_ (record rfl _)
  exact silent rfl rfl rfl

theorem acceptLogin (request : SystemPayload.Login) (world : World) :
    Calls codec world (world.acceptLogin codec request).2 := by
  have htask := @record codec (.loginTask request.id) rfl world
  rw [World.acceptLogin]
  split
  · exact htask.trans (deny _ _ _)
  · exact (htask.trans (register request.id _)).trans (silent rfl rfl rfl)

theorem dequeue (rest : List Task) (world : World) :
    Calls codec world (world.dequeue rest) := silent rfl rfl rfl

theorem closeByTask (world : World) : Calls codec world world.closeByTask :=
  silent rfl rfl rfl

theorem finish (destroy : World → World) (world : World) :
    Calls codec world (world.finish destroy false) := silent rfl rfl rfl

theorem unregister (world : World) : Calls codec world world.unregister := by
  refine silent (World.clearLoginCid_results world) (clearLoginCid_req world) ?_
  rw [World.unregister_history]

theorem kept : Kept codec (Calls codec) where
  refl := refl
  trans := trans
  normal world request rest _ := (dequeue rest world).trans (handle request _)
  accept world request rest _ _ :=
    (dequeue rest world).trans (acceptLogin request _)
  refuse world request rest _ _ :=
    ((dequeue rest world).trans (acceptLogin request _)).trans (closeByTask _)
  closing world _ rest _ _ := (dequeue rest world).trans (closeByTask _)
  dying world _ _ := closeByTask world
  usedAfterDelete world _ := record rfl world
  close _ := (of_step .close rfl id).trans (unregister _)
  delete := delete

/-- The Login of a connection whose acceptor pushes into the queue. -/
theorem login (world : World) :
    Calls codec world (world.login codec acceptor).2 := by
  have hhandler : Calls codec world
      ((world.handlerLogin codec acceptor).2.2.record
        (.loginReturned (world.handlerLogin codec acceptor).1)) := by
    refine of_step .login ?_ ?_
    · rw [step, World.handlerLogin]
      cases codec.unpackConnect world.self.req.payload <;> rfl
    · rw [World.handlerLogin]
      cases codec.unpackConnect world.self.req.payload <;> exact id
  dsimp only [World.login]
  split
  · exact hhandler
  · split
    · exact hhandler.trans (silent rfl rfl rfl)
    · exact hhandler.trans (deny _ _ _)

theorem step (world : World) :
    Calls codec world (world.step codec acceptor) := by
  unfold World.step
  split
  case h_1 => exact silent rfl rfl rfl
  case h_2 => exact silent rfl rfl rfl
  case h_3 =>
    have hlogin := @login codec world
    split
    · exact finish _ world
    · dsimp only
      split
      · exact hlogin.trans (finish _ _)
      · split
        · exact hlogin
        · exact (hlogin.trans (register _ _)).trans (silent rfl rfl rfl)
  case h_4 =>
    have hhandle : Calls codec world (world.handle world.self.req).2 :=
      of_step .handle rfl fun hempty => by
        rw [World.handle_results, hempty, List.tail_nil]
    split
    · exact finish _ world
    · dsimp only
      split
      · exact hhandle.trans (silent rfl rfl rfl)
      · exact hhandle.trans (finish _ _)
  case h_5 => exact kept.destroy world
  case h_6 => exact finish _ world
  case h_7 => exact finish _ world

/-- Every completion of the connection is such a history. -/
theorem process (ok : Bool) (request : Request) (world : World) :
    Calls codec world (world.process codec ok request acceptor) := by
  have hpopped : Calls codec world
      { world with self.pending := world.self.pending - 1 } :=
    silent rfl rfl rfl
  have hread : Calls codec
      { world with self.pending := world.self.pending - 1 }
      { world with
        self.pending := world.self.pending - 1
        self.req := request } := of_step (.read request) rfl id
  dsimp only [World.process]
  split
  · split
    · exact hpopped.trans (step _)
    · exact (hpopped.trans hread).trans (step _)
  · exact hpopped.trans (kept.destroy _)

/-- So is a pass of `ConsumeTask`. -/
theorem consumeTask (world : World) :
    Calls codec world (world.consumeTask codec (World.destroy codec) 3) :=
  kept.consumeTask kept.destroyKept 3 world

end Calls

end QueueReadHandler

end GrpcMtk
