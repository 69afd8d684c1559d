import GrpcMtk.Client.LoginReply
import GrpcMtk.Core.Messages
import GrpcMtk.Server.Conn

/-!
# Payloads

The templates of `SVStream` and of `RPCStream::Call` pack a message into a
buffer of its size and put the buffer into a request or a reply; the other side
unpacks it.  The buffer is on the stack and is not cleared.  It is filled to its
end, and what was packed is unpacked: a client is told the cid and the bytes
with which the server has answered its login.
-/

namespace GrpcMtk

open GrpcMtk.Proto
open GrpcMtk.Wire

namespace Proto

section Templates

variable {W : Type} (wire : Wire) (layout : Layout W)

/-- `Codec::Pack`.  A message that is longer than the buffer does not fit. -/
def Codec.pack (message : W) (buffer : Bytes) : Option Bytes :=
  let written := wire.serialize layout.fields message
  if written.length ≤ buffer.length then
    some (written ++ buffer.drop written.length)
  else none

/-- `Codec::Unpack`: how far it has read, and the message. -/
def Codec.unpack (bytes : Bytes) (message : W) : Option (ℕ × W) :=
  (wire.parse layout.fields message bytes).map fun parsed =>
    (bytes.length - parsed.rest.length, parsed.message)

variable (stack : ℕ → UInt8)

/-- `uint8_t buffer[w.ByteSizeLong()]`, with what the stack holds there, after
`Codec::Pack`. -/
def packed (w : W) : Option Bytes :=
  Codec.pack wire layout w
    ((List.range (byteSize layout.packed w)).map stack)

/-- `SVStream::SetupPayload`. -/
def setupPayload (rep : Reply) (w : W) : Option Reply :=
  (packed wire layout stack w).map fun payload => { rep with payload }

/-- `SVStream::SetupRequest`. -/
def setupRequest (req : Request) (type : ℕ) (w : W) : Option Request :=
  (packed wire layout stack w).map fun payload => { req with type, payload }

/-- `SVStream::SetupSysTask`. -/
def setupSysTask (req : Request) (kind : Kind) (w : W) : Option Request :=
  (packed wire layout stack w).map fun payload => { req with kind, payload }

/-- `SVStream::SetupNotify`; what `SetupPayload` returns is ignored. -/
def setupNotify (rep : Reply) (type : ℕ) (w : W) : Reply :=
  { (setupPayload wire layout stack rep w).getD rep with type, msgid := 0 }

/-- `SVStream::SetupReply`. -/
def setupReply (rep : Reply) (msgid : ℕ) (w : W) : Reply :=
  { (setupPayload wire layout stack rep w).getD rep with msgid }

/-- `SVStream::SetupSystemReply`. -/
def setupSystemReply (rep : Reply) (msgid : ℕ) (w : W) : Option Reply :=
  (packed wire layout stack w).map fun payload => { rep with msgid, payload }

/-- The request that `RPCStream::Call` makes of a system payload, with the kind
of `SetSystemPayloadKind`. -/
def systemRequest (kind : Kind) (spl : W) : Option Request :=
  (packed wire layout stack spl).map fun payload =>
    { type := 0, msgid := 0, kind, payload }

end Templates

/-- `SetSystemPayloadKind<SystemPayload::Connect>`. -/
def connectRequest (wire : Wire) (stack : ℕ → UInt8) :
    SystemPayload.Connect → Option Request :=
  systemRequest wire (SystemPayload.Connect.layout wire) stack .connect

section Packed

variable {W : Type} {wire : Wire} {layout : Layout W} {stack : ℕ → UInt8}
variable {w : W}

/-- The message fills its buffer. -/
theorem packed_eq (hvalid : layout.Valid w) :
    packed wire layout stack w = some (wire.serialize layout.fields w) := by
  have hlength := @length_serialize wire _ layout w hvalid
  rw [packed, Codec.pack, if_pos (by simp [hlength]),
    List.drop_of_length_le (by simp [hlength]), List.append_nil]

theorem unpack_serialize (hvalid : layout.Valid w) (message : W) :
    Codec.unpack wire layout (wire.serialize layout.fields w) message =
      some ((wire.serialize layout.fields w).length,
        merge layout.packed message w) := by
  have hparse := @parse_serialize wire _ layout message w hvalid []
  rw [List.append_nil] at hparse
  rw [Codec.unpack, hparse, parse_nil]
  rfl

/-- Whatever was there, the message is unpacked from the payload to its end, as
it is merged. -/
def Carries (wire : Wire) (layout : Layout W) (payload : Bytes) (w : W) :
    Prop :=
  payload.length = byteSize layout.packed w ∧
    ∀ message, Codec.unpack wire layout payload message =
      some (payload.length, merge layout.packed message w)

/-- Every template puts the message into the payload, and nothing of what lies
on the stack. -/
theorem setups_carry (hvalid : layout.Valid w) :
    ∃ payload, Carries wire layout payload w ∧
      ∀ (stack : ℕ → UInt8) (rep : Reply) (req : Request) (type msgid : ℕ)
        (kind : Kind),
        setupPayload wire layout stack rep w = some { rep with payload } ∧
        setupRequest wire layout stack req type w =
          some { req with type, payload } ∧
        setupSysTask wire layout stack req kind w =
          some { req with kind, payload } ∧
        setupNotify wire layout stack rep type w =
          { rep with type, msgid := 0, payload } ∧
        setupReply wire layout stack rep msgid w =
          { rep with msgid, payload } ∧
        setupSystemReply wire layout stack rep msgid w =
          some { rep with msgid, payload } ∧
        systemRequest wire layout stack kind w =
          some { type := 0, msgid := 0, kind, payload } := by
  refine ⟨wire.serialize layout.fields w,
    ⟨length_serialize layout hvalid, unpack_serialize hvalid⟩, ?_⟩
  intro stack rep req type msgid kind
  have hpacked := @packed_eq _ wire layout stack w hvalid
  simp [setupPayload, setupRequest, setupSysTask, setupNotify, setupReply,
    setupSystemReply, systemRequest, hpacked]

theorem setups_carry_connect :
    ∃ payload,
      Carries base128 (SystemPayload.Connect.layout base128) payload
        { id := 300, payload := [0x01] } ∧
      setupSystemReply base128 (SystemPayload.Connect.layout base128)
          (fun _ => 0xcd) Reply.blank 1 { id := 300, payload := [0x01] } =
        some { Reply.blank with msgid := 1, payload } := by
  obtain ⟨payload, hcarries, hsetups⟩ :=
    @setups_carry _ base128 (SystemPayload.Connect.layout base128)
      { id := 300, payload := [0x01] }
      ⟨(by decide : 300 < 2 ^ 64), (by decide : 1 < 2 ^ 31 - 16)⟩
  exact ⟨payload, hcarries, (hsetups (fun _ => 0xcd) Reply.blank
    { type := 0, msgid := 0, kind := .normal, payload := [] } 0 1
    .connect).2.2.2.2.2.1⟩

end Packed

/-- A task that `SVStream::SysTask` or `AddTask` has put into `tasks_`, as
`ConsumeTask` takes it. -/
def Request.task (wire : Wire) (req : Request) : Task :=
  match req.kind with
  | .normal => .normal req
  | .login =>
      .login ((Codec.unpack wire (SystemPayload.Login.layout wire) req.payload
        SystemPayload.Login.blank).map Prod.snd)
  | .close => .close
  | kind => .other kind

/-- `Codec` over a wire. -/
def Codec.ofWire (wire : Wire) (stack : ℕ → UInt8) : Codec where
  packConnect connect :=
    (packed wire (SystemPayload.Connect.layout wire) stack connect).getD []
  unpackConnect bytes :=
    (unpack wire (SystemPayload.Connect.layout wire) bytes
      SystemPayload.Connect.blank).map Prod.snd

end Proto

/-! ## The fields of a Connect -/

namespace Fields

variable (wire : Wire)

def idField : Wire.Field Fields :=
  .scalar wire 1 .uint64 (fun fields => fields.id.getD 0)
    fun id fields => { fields with id := some id }

def payloadField : Wire.Field Fields :=
  .bytes wire 2 (fun fields => fields.payload.getD [])
    fun payload fields => { fields with payload := some payload }

/-- What the reader of a Connect comes across.  The fields before a failure are
left out. -/
def reader : Reader := fun bytes =>
  match wire.parse [idField wire, payloadField wire] ⟨none, none⟩ bytes with
  | none => (false, ⟨none, none⟩)
  | some parsed => (true, parsed.message)

/-- It is what `Codec::Unpack` merges. -/
theorem unpack_eq (bytes : Bytes) (message : SystemPayload.Connect) :
    (Codec.unpack wire (SystemPayload.Connect.layout wire) bytes message).map
        Prod.snd =
      if (reader wire bytes).1 then
        some ((reader wire bytes).2.merge message)
      else none := by
  have hmaps : List.Forall₂
      (Wire.Field.Maps fun fields : Fields => fields.merge message)
      [idField wire, payloadField wire]
      (SystemPayload.Connect.fields wire) := by
    refine .cons ⟨rfl, rfl, fun fields bytes => ?_⟩
      (.cons ⟨rfl, rfl, fun fields bytes => ?_⟩ .nil)
    · dsimp only [idField, SystemPayload.Connect.idField, Field.scalar]
      cases wire.readVarint bytes <;> rfl
    · dsimp only [payloadField, SystemPayload.Connect.payloadField, Field.bytes]
      cases wire.readBytes bytes <;> rfl
  have hparse : wire.parse (SystemPayload.Connect.layout wire).fields message
      bytes = _ := parse_map hmaps ⟨none, none⟩ bytes
  rw [Codec.unpack, hparse, reader]
  cases wire.parse [idField wire, payloadField wire] ⟨none, none⟩ bytes <;> rfl

end Fields

/-! ## What a client is told of its login -/

/-- The callback `on_connect` with the cid and the bytes; without any, with
those of the last login. -/
def Client.told (cid : ℕ) (slice : Bytes) (client : Client) : Client :=
  let payload := if slice = [] then client.crep.payload else slice
  { client with
    cid
    crep := { id := cid, payload }
    connects := (cid, payload) :: client.connects }

/-- The reply opens the stream with this cid and these bytes, or, if the cid
is 0, does not open it. -/
def Answers (wire : Wire) (reply : Reply) (cid : ℕ) (slice : Bytes) : Prop :=
  let outcome := Outcome.replied reply
  if cid = 0 then outcome.result < 0
  else
    0 ≤ outcome.result ∧ ∀ (client : Client) (answer : Bool),
      client.onOpenStream (Fields.reader wire) outcome.result outcome.payload
        answer = (answer, client.told cid slice)

section Answers

variable {wire : Wire} {stack : ℕ → UInt8} {cid : ℕ} {slice : Bytes}
variable {world : World} {acceptor : AcceptorResult}

theorem onOpenStream_packed (hcid : cid ≠ 0)
    (hvalid : SystemPayload.Connect.Valid wire { id := cid, payload := slice })
    (client : Client) (answer : Bool) :
    client.onOpenStream (Fields.reader wire) 0
        ((Codec.ofWire wire stack).packConnect { id := cid, payload := slice })
        answer = (answer, client.told cid slice) := by
  let layout := SystemPayload.Connect.layout wire
  let connect : SystemPayload.Connect := { id := cid, payload := slice }
  have hpacked : (Codec.ofWire wire stack).packConnect connect =
      wire.serialize layout.fields connect := by
    change (packed wire layout stack connect).getD [] = _
    rw [@packed_eq _ wire layout stack connect hvalid, Option.getD_some]
  have hunpack := Fields.unpack_eq wire
    (wire.serialize layout.fields connect) client.crep
  rw [unpack_serialize hvalid] at hunpack
  have hmerge : merge layout.packed client.crep connect =
      { id := cid
        payload := if slice = [] then client.crep.payload else slice } := by
    change client.crep.mergeImpl connect = _
    dsimp only [SystemPayload.Connect.mergeImpl, connect]
    rw [if_neg hcid]
    split <;> rfl
  rw [hpacked]
  split at hunpack
  case isFalse => contradiction
  case isTrue hread =>
    have hcrep := (Option.some.inj hunpack).symm.trans hmerge
    dsimp only [Client.onOpenStream, unpack]
    rw [if_neg (lt_irrefl 0), hread, hcrep]
    rfl

theorem answers_connect (hcid : cid ≠ 0)
    (hvalid : SystemPayload.Connect.Valid wire { id := cid, payload := slice })
    (msgid : ℕ) :
    Answers wire
      { type := 0, msgid, error := none
        payload := (Codec.ofWire wire stack).packConnect
          { id := cid, payload := slice } } cid slice := by
  have hresult (payload : Bytes) :
      (Outcome.replied ⟨0, msgid, none, payload⟩).result = 0 := by
    simp [Outcome.result]
  rw [Answers, if_neg hcid, hresult]
  exact ⟨le_refl 0, onOpenStream_packed hcid hvalid⟩

theorem answers_deny (msgid : ℕ) (slice payload : Bytes) :
    Answers wire
      { type := 0, msgid
        error := some { errorCode := mtkAcceptDeny, payload }
        payload := [] } 0 slice :=
  (by decide : mtkAcceptDeny < 0)

theorem acceptorCalls_stream (calls : List AcceptorCall) (world : World) :
    (calls.foldl World.acceptorCall world).self.stream =
      world.self.stream ∧
    (calls.foldl World.acceptorCall world).self.req = world.self.req := by
  induction calls generalizing world with
  | nil => exact ⟨rfl, rfl⟩
  | cons call calls ih =>
      rw [List.foldl_cons, (ih _).1, (ih _).2]
      cases call <;> exact ⟨rfl, rfl⟩

theorem acceptorCalls_status {calls : List AcceptorCall}
    (hdefer : .deferLogin ∉ calls) (hstatus : world.self.status ≠ .waitLogin) :
    (calls.foldl World.acceptorCall world).self.status ≠ .waitLogin := by
  induction calls generalizing world with
  | nil => exact hstatus
  | cons call calls ih =>
      have hrest := List.not_mem_of_not_mem_cons hdefer
      cases call with
      | close => exact @ih world.internalClose hrest nofun
      | deferLogin => exact absurd List.mem_cons_self hdefer

/-- A client that asks for a login is answered with the cid and the bytes of
the acceptor, if it does not defer. -/
theorem login_answered {connect : SystemPayload.Connect}
    (hconnect : connect.Valid wire) (stack stack' : ℕ → UInt8)
    {sent : Request} (hsent : connectRequest wire stack connect = some sent)
    {msgid : ℕ} (hreq : world.self.req = { sent with msgid })
    (hstatus : world.self.status = .login)
    (hdefer : .deferLogin ∉ acceptor.calls)
    (hvalid : SystemPayload.Connect.Valid wire
      { id := acceptor.cid, payload := acceptor.slice }) :
    ∃ reply,
      (world.login (Codec.ofWire wire stack') acceptor).2.self.stream =
        world.self.stream.send reply ∧
      reply.msgid = msgid ∧
      Answers wire reply acceptor.cid acceptor.slice := by
  have hunpack : (Codec.ofWire wire stack').unpackConnect
      world.self.req.payload = some connect := by
    rw [connectRequest, systemRequest, packed_eq hconnect] at hsent
    obtain rfl := Option.some.inj hsent
    rw [hreq]
    change (Codec.unpack wire (SystemPayload.Connect.layout wire) _
      SystemPayload.Connect.blank).map Prod.snd = _
    rw [unpack_serialize hconnect]
    exact congrArg some ((SystemPayload.Connect.layout wire).merge_blank _)
  have hmsgid : world.self.req.msgid = msgid := congrArg Request.msgid hreq
  have hcalls := acceptorCalls_stream acceptor.calls world
  have hopen := @acceptorCalls_status world acceptor.calls hdefer
    (by rw [hstatus]; nofun)
  have hlogin : world.handlerLogin (Codec.ofWire wire stack') acceptor =
      (acceptor.cid, acceptor.slice,
        acceptor.calls.foldl World.acceptorCall world) := by
    rw [World.handlerLogin, hunpack]
  rw [World.login, hlogin]
  dsimp only
  rw [if_neg (by exact hopen)]
  split
  case isTrue hcid =>
    refine ⟨_, congrArg (SVStream.send · _) hcalls.1, ?_,
      answers_connect hcid hvalid _⟩
    exact (congrArg Request.msgid hcalls.2).trans hmsgid
  case isFalse hcid =>
    obtain hzero : acceptor.cid = 0 := not_not.mp hcid
    rw [hzero]
    refine ⟨_, congrArg (SVStream.send · _) hcalls.1, ?_,
      answers_deny _ _ _⟩
    exact (congrArg Request.msgid hcalls.2).trans hmsgid

/-- The Connect of a client that has had the cid 7. -/
private def again : World where
  self := { Conn.new 0 0 with
    status := .login
    req := { type := 0, msgid := 1, kind := .connect, payload := [0x08, 0x07] } }
  reg := ⟨fun _ => none, fun _ => none, 0, fun _ => [], fun _ => false⟩
  results := []

private def accepting : AcceptorResult where
  cid := 300
  calls := []
  slice := [0x01]

theorem login_answered_again :
    ∃ reply,
      (again.login (Codec.ofWire base128 fun _ => 0xcd) accepting).2.self.stream =
        SVStream.new.ref.send reply ∧
      reply.msgid = 1 ∧ Answers base128 reply 300 [0x01] :=
  @login_answered base128 again accepting { id := 7, payload := [] }
    ⟨(by decide : 7 < 2 ^ 64), (by decide : 0 < 2 ^ 31 - 16)⟩
    (fun _ => 0xff) (fun _ => 0xcd)
    { type := 0, msgid := 0, kind := .connect, payload := [0x08, 0x07] } rfl
    1 rfl rfl (by decide)
    ⟨(by decide : 300 < 2 ^ 64), (by decide : 1 < 2 ^ 31 - 16)⟩

/-- A client whose login was deferred is answered with the cid and the bytes
that `FinishLogin` is given. -/
theorem deferred_answered {login : SystemPayload.Login}
    (hvalid : login.Valid wire) (stack stack' : ℕ → UInt8) {task : Request}
    (htask : setupSysTask wire (SystemPayload.Login.layout wire) stack
      { type := 0, msgid := 0, kind := .normal, payload := [] } .login login =
        some task) (world : World) :
    task.task wire = .login (some login) ∧
    ∃ reply,
      (world.acceptLogin (Codec.ofWire wire stack') login).2.self.stream =
        world.self.stream.send reply ∧
      reply.msgid = login.msgid ∧
      Answers wire reply login.id login.payload := by
  have hconnect : SystemPayload.Connect.Valid wire
      { id := login.id, payload := login.payload } :=
    ⟨hvalid.2.1, hvalid.2.2.2⟩
  refine ⟨?_, ?_⟩
  · rw [setupSysTask, packed_eq hvalid] at htask
    obtain rfl := Option.some.inj htask
    change Task.login ((Codec.unpack wire _ _ _).map Prod.snd) = _
    rw [unpack_serialize hvalid]
    exact congrArg (Task.login ∘ some)
      ((SystemPayload.Login.layout wire).merge_blank login)
  · unfold World.acceptLogin
    dsimp only
    split
    case isTrue hzero =>
      rw [hzero]
      exact ⟨_, rfl, rfl, answers_deny _ _ _⟩
    case isFalse hid =>
      have hregister (world : World) :
          (world.register login.id).self.stream = world.self.stream := by
        unfold World.register World.clearLoginCid
        dsimp only [World.record]
        split <;> rfl
      exact ⟨_, congrArg (SVStream.send · _) (hregister _), rfl,
        answers_connect hid hconnect _⟩

/-- The deferred login of a client is finished with the cid 5. -/
private def finished : Request where
  type := 0
  msgid := 0
  kind := .login
  payload := [0x08, 0x01, 0x10, 0x05, 0x18, 0x02]

theorem deferred_answered_finished :
    finished.task base128 =
        .login (some { loginCid := 1, id := 5, msgid := 2, payload := [] }) ∧
    ∃ reply,
      (again.acceptLogin (Codec.ofWire base128 fun _ => 0xcd)
          { loginCid := 1, id := 5, msgid := 2, payload := [] }).2.self.stream =
        SVStream.new.ref.send reply ∧
      reply.msgid = 2 ∧ Answers base128 reply 5 [] :=
  @deferred_answered base128 { loginCid := 1, id := 5, msgid := 2, payload := [] }
    ⟨(by decide : 1 < 2 ^ 64), (by decide : 5 < 2 ^ 64),
      (by decide : 2 < 2 ^ 32), (by decide : 0 < 2 ^ 31 - 16)⟩
    (fun _ => 0xff) (fun _ => 0xcd) finished rfl again

end Answers

end GrpcMtk
