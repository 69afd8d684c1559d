import GrpcMtk.Core.Fields
import GrpcMtk.Core.Proto

/-!
# The messages on the wire

What the generated code of `mtk.proto` does with each message: how it is
written, sized, merged and read.  A message is read as it was written, and
merged into what was there; its fields may come in any order, with fields of a
newer `mtk.proto` between them.
-/

namespace GrpcMtk.Proto

open GrpcMtk.Wire

variable (wire : Wire)

/-! ## `Error` -/

namespace Error

def blank : Error where
  errorCode := 0
  payload := []

def errorCodeField : Wire.Field Error :=
  .scalar wire 1 .int32 Error.errorCode
    fun errorCode error => { error with errorCode }

def payloadField : Wire.Field Error :=
  .bytes wire 2 Error.payload fun payload error => { error with payload }

def fields : List (Wire.Field Error) := [errorCodeField wire, payloadField wire]

def packed : List (Wire.Field Error) := [payloadField wire, errorCodeField wire]

/-- `Error::_InternalSerialize`. -/
def internalSerialize (error : Error) : Bytes :=
  wire.serialize (fields wire) error

/-- `Error::ByteSizeLong`. -/
def byteSizeLong (error : Error) : ℕ := byteSize (packed wire) error

/-- `Error::MergeImpl`. -/
def mergeImpl (this other : Error) : Error :=
  let this :=
    if other.payload = [] then this else { this with payload := other.payload }
  if other.errorCode = 0 then this else { this with errorCode := other.errorCode }

/-- `Error::_InternalParse`. -/
def internalParse (error : Error) (bytes : Bytes) :
    Option (Parsed Error) :=
  wire.parse (fields wire) error bytes

def Valid (error : Error) : Prop :=
  Scalar.int32.Fits error.errorCode ∧
    error.payload.length < wire.sizeLimit

theorem mergeImpl_blank (error : Error) : blank.mergeImpl error = error := by
  obtain ⟨errorCode, payload⟩ := error
  dsimp only [mergeImpl, blank]
  split_ifs <;> simp_all

def layout : Layout Error where
  fields := fields wire
  packed := packed wire
  Valid := Valid wire
  lawful :=
    List.forall_mem_cons.mpr
      ⟨scalar_lawful (by decide) fun _ hvalid => hvalid.1,
        List.forall_mem_singleton.mpr
          (bytes_lawful (by decide) fun _ hvalid => hvalid.2)⟩
  distinct := (by decide : [1, 2].Nodup)
  packed_perm := (List.perm_append_singleton _ _).symm
  commutes := by
    refine List.pairwise_pair.mpr fun base message => ?_
    dsimp only [errorCodeField, payloadField, Field.scalar, Field.bytes]
    split_ifs <;> rfl
  blank := blank
  merge_blank := mergeImpl_blank

end Error

/-! ## `SystemPayload_Connect` -/

namespace SystemPayload.Connect

def blank : Connect where
  id := 0
  payload := []

def idField : Wire.Field Connect :=
  .scalar wire 1 .uint64 Connect.id
    fun id connect => { connect with id }

def payloadField : Wire.Field Connect :=
  .bytes wire 2 Connect.payload fun payload connect => { connect with payload }

def fields : List (Wire.Field Connect) := [idField wire, payloadField wire]

def packed : List (Wire.Field Connect) := [payloadField wire, idField wire]

/-- `SystemPayload_Connect::_InternalSerialize`. -/
def internalSerialize (connect : Connect) : Bytes :=
  wire.serialize (fields wire) connect

/-- `SystemPayload_Connect::ByteSizeLong`. -/
def byteSizeLong (connect : Connect) : ℕ := byteSize (packed wire) connect

/-- `SystemPayload_Connect::MergeImpl`. -/
def mergeImpl (this other : Connect) : Connect :=
  let this :=
    if other.payload = [] then this else { this with payload := other.payload }
  if other.id = 0 then this else { this with id := other.id }

/-- `SystemPayload_Connect::_InternalParse`. -/
def internalParse (connect : Connect) (bytes : Bytes) :
    Option (Parsed Connect) :=
  wire.parse (fields wire) connect bytes

def Valid (connect : Connect) : Prop :=
  Scalar.uint64.Fits connect.id ∧
    connect.payload.length < wire.sizeLimit

theorem mergeImpl_blank (connect : Connect) :
    blank.mergeImpl connect = connect := by
  obtain ⟨id, payload⟩ := connect
  dsimp only [mergeImpl, blank]
  split_ifs <;> simp_all

def layout : Layout Connect where
  fields := fields wire
  packed := packed wire
  Valid := Valid wire
  lawful :=
    List.forall_mem_cons.mpr
      ⟨scalar_lawful (by decide) fun _ hvalid => hvalid.1,
        List.forall_mem_singleton.mpr
          (bytes_lawful (by decide) fun _ hvalid => hvalid.2)⟩
  distinct := (by decide : [1, 2].Nodup)
  packed_perm := (List.perm_append_singleton _ _).symm
  commutes := by
    refine List.pairwise_pair.mpr fun base message => ?_
    dsimp only [idField, payloadField, Field.scalar, Field.bytes]
    split_ifs <;> rfl
  blank := blank
  merge_blank := mergeImpl_blank

end SystemPayload.Connect

/-! ## `SystemPayload_Login` -/

namespace SystemPayload.Login

def blank : Login where
  loginCid := 0
  id := 0
  msgid := 0
  payload := []

def loginCidField : Wire.Field Login :=
  .scalar wire 1 .uint64 Login.loginCid
    fun loginCid login => { login with loginCid }

def idField : Wire.Field Login :=
  .scalar wire 2 .uint64 Login.id
    fun id login => { login with id }

def msgidField : Wire.Field Login :=
  .scalar wire 3 .uint32 Login.msgid
    fun msgid login => { login with msgid }

def payloadField : Wire.Field Login :=
  .bytes wire 4 Login.payload fun payload login => { login with payload }

def fields : List (Wire.Field Login) :=
  [loginCidField wire, idField wire, msgidField wire, payloadField wire]

def packed : List (Wire.Field Login) :=
  [payloadField wire, loginCidField wire, idField wire, msgidField wire]

/-- `SystemPayload_Login::_InternalSerialize`. -/
def internalSerialize (login : Login) : Bytes :=
  wire.serialize (fields wire) login

/-- `SystemPayload_Login::ByteSizeLong`. -/
def byteSizeLong (login : Login) : ℕ := byteSize (packed wire) login

/-- `SystemPayload_Login::MergeImpl`. -/
def mergeImpl (this other : Login) : Login :=
  let this :=
    if other.payload = [] then this else { this with payload := other.payload }
  let this :=
    if other.loginCid = 0 then this else { this with loginCid := other.loginCid }
  let this :=
    if other.id = 0 then this else { this with id := other.id }
  if other.msgid = 0 then this else { this with msgid := other.msgid }

/-- `SystemPayload_Login::_InternalParse`. -/
def internalParse (login : Login) (bytes : Bytes) :
    Option (Parsed Login) :=
  wire.parse (fields wire) login bytes

def Valid (login : Login) : Prop :=
  Scalar.uint64.Fits login.loginCid ∧
  Scalar.uint64.Fits login.id ∧
  Scalar.uint32.Fits login.msgid ∧
    login.payload.length < wire.sizeLimit

theorem mergeImpl_blank (login : Login) : blank.mergeImpl login = login := by
  obtain ⟨loginCid, id, msgid, payload⟩ := login
  dsimp only [mergeImpl, blank]
  split_ifs <;> simp_all

def layout : Layout Login where
  fields := fields wire
  packed := packed wire
  Valid := Valid wire
  lawful :=
    List.forall_mem_cons.mpr
      ⟨scalar_lawful (by decide) fun _ hvalid => hvalid.1,
        List.forall_mem_cons.mpr
          ⟨scalar_lawful (by decide) fun _ hvalid => hvalid.2.1,
            List.forall_mem_cons.mpr
              ⟨scalar_lawful (by decide) fun _ hvalid => hvalid.2.2.1,
                List.forall_mem_singleton.mpr
                  (bytes_lawful (by decide) fun _ hvalid => hvalid.2.2.2)⟩⟩⟩
  distinct := (by decide : [1, 2, 3, 4].Nodup)
  packed_perm := (List.perm_append_singleton _ _).symm
  commutes := by
    apply pairwise_four <;>
      intro base message <;>
      dsimp only [loginCidField, idField, msgidField, payloadField,
        Field.scalar, Field.bytes] <;>
      split_ifs <;> rfl
  blank := blank
  merge_blank := mergeImpl_blank

end SystemPayload.Login

/-! ## `Request` -/

/-- A `Request` on the wire, where any number may stand for its kind. -/
structure Request.Raw where
  type : ℕ
  msgid : ℕ
  kind : ℤ
  payload : Bytes
  deriving DecidableEq, Repr

namespace Request.Raw

def blank : Raw where
  type := 0
  msgid := 0
  kind := 0
  payload := []

def typeField : Wire.Field Raw :=
  .scalar wire 1 .uint32 Raw.type
    fun type request => { request with type }

def msgidField : Wire.Field Raw :=
  .scalar wire 2 .uint32 Raw.msgid
    fun msgid request => { request with msgid }

def kindField : Wire.Field Raw :=
  .scalar wire 3 .int32 Raw.kind
    fun kind request => { request with kind }

def payloadField : Wire.Field Raw :=
  .bytes wire 10 Raw.payload fun payload request => { request with payload }

def fields : List (Wire.Field Raw) :=
  [typeField wire, msgidField wire, kindField wire, payloadField wire]

def packed : List (Wire.Field Raw) :=
  [payloadField wire, typeField wire, msgidField wire, kindField wire]

/-- `Request::_InternalSerialize`. -/
def internalSerialize (request : Raw) : Bytes :=
  wire.serialize (fields wire) request

/-- `Request::ByteSizeLong`. -/
def byteSizeLong (request : Raw) : ℕ := byteSize (packed wire) request

/-- `Request::MergeImpl`. -/
def mergeImpl (this other : Raw) : Raw :=
  let this :=
    if other.payload = [] then this else { this with payload := other.payload }
  let this :=
    if other.type = 0 then this else { this with type := other.type }
  let this :=
    if other.msgid = 0 then this else { this with msgid := other.msgid }
  if other.kind = 0 then this else { this with kind := other.kind }

/-- `Request::_InternalParse`. -/
def internalParse (request : Raw) (bytes : Bytes) :
    Option (Parsed Raw) :=
  wire.parse (fields wire) request bytes

def Valid (request : Raw) : Prop :=
  Scalar.uint32.Fits request.type ∧
  Scalar.uint32.Fits request.msgid ∧
  Scalar.int32.Fits request.kind ∧
    request.payload.length < wire.sizeLimit

theorem mergeImpl_blank (request : Raw) :
    blank.mergeImpl request = request := by
  obtain ⟨type, msgid, kind, payload⟩ := request
  dsimp only [mergeImpl, blank]
  split_ifs <;> simp_all

def layout : Layout Raw where
  fields := fields wire
  packed := packed wire
  Valid := Valid wire
  lawful :=
    List.forall_mem_cons.mpr
      ⟨scalar_lawful (by decide) fun _ hvalid => hvalid.1,
        List.forall_mem_cons.mpr
          ⟨scalar_lawful (by decide) fun _ hvalid => hvalid.2.1,
            List.forall_mem_cons.mpr
              ⟨scalar_lawful (by decide) fun _ hvalid => hvalid.2.2.1,
                List.forall_mem_singleton.mpr
                  (bytes_lawful (by decide) fun _ hvalid => hvalid.2.2.2)⟩⟩⟩
  distinct := (by decide : [1, 2, 3, 10].Nodup)
  packed_perm := (List.perm_append_singleton _ _).symm
  commutes := by
    apply pairwise_four <;>
      intro base message <;>
      dsimp only [typeField, msgidField, kindField, payloadField,
        Field.scalar, Field.bytes] <;>
      split_ifs <;> rfl
  blank := blank
  merge_blank := mergeImpl_blank

end Request.Raw

/-- The number of a kind in `Request_Kind`. -/
def Kind.number : Kind → ℤ
  | .normal => 0
  | .ping => 1
  | .connect => 2
  | .login => 3
  | .close => 4

def Kind.ofNumber? (number : ℤ) : Option Kind :=
  [normal, ping, connect, login, close].find? fun kind => kind.number = number

theorem Kind.ofNumber?_number (kind : Kind) :
    ofNumber? kind.number = some kind := by
  cases kind <;> rfl

namespace Request

def raw (request : Request) : Raw where
  type := request.type
  msgid := request.msgid
  kind := request.kind.number
  payload := request.payload

/-- The request, if its kind is one of `Request_Kind`. -/
def Raw.request? (request : Raw) : Option Request :=
  (Kind.ofNumber? request.kind).map fun kind =>
    { type := request.type, msgid := request.msgid, kind
      payload := request.payload }

/-- A request is read as it was written, whatever the order of its fields and
whatever fields of a newer `mtk.proto` stand between them. -/
theorem parse_written {wire : Wire} {request : Request}
    (hvalid : request.raw.Valid wire) {pieces : List (Piece Raw)}
    (hperm : (pieces.filterMap Piece.field?).Perm (Raw.fields wire))
    (hskipped : ∀ tag content, .unknown tag content ∈ pieces →
      Skipped wire (Raw.fields wire) tag content) :
    ((Raw.internalParse wire Raw.blank
        (pieces.flatMap (Piece.write wire request.raw))).bind
      fun parsed => parsed.message.request?) = some request := by
  have hparse := @parse_shuffled wire _ (Raw.layout wire) Raw.blank
    request.raw hvalid pieces hperm hskipped []
  rw [List.append_nil] at hparse
  have hread : Raw.internalParse wire Raw.blank
      (pieces.flatMap (Piece.write wire request.raw)) =
        some ⟨request.raw, none, []⟩ :=
    hparse.trans (congrArg (Raw.internalParse wire · [])
      (Raw.mergeImpl_blank request.raw))
  have hrequest : request.raw.request? = some request := by
    rw [Raw.request?, raw, Kind.ofNumber?_number, Option.map_some]
  rw [hread, Option.bind_some, hrequest]

/-- A request with a long msgid, its payload first and then a field 11 that
`mtk.proto` does not have. -/
private def newer : List (Piece Raw) :=
  [.known (Raw.payloadField base128), .unknown 88 [0x2a],
    .known (Raw.typeField base128), .known (Raw.msgidField base128),
    .known (Raw.kindField base128)]

private def login : Request where
  type := 0
  msgid := 300
  kind := .connect
  payload := [0x08, 0x01]

theorem parse_written_login :
    ((Raw.internalParse base128 Raw.blank
        [0x52, 0x02, 0x08, 0x01, 0x58, 0x2a, 0x10, 0xac, 0x02, 0x18,
          0x02]).bind fun parsed => parsed.message.request?) = some login := by
  have hvalid : login.raw.Valid base128 :=
    ⟨(by decide : 0 < 2 ^ 32), (by decide : 300 < 2 ^ 32),
      (by decide : -2 ^ 31 ≤ (2 : ℤ) ∧ (2 : ℤ) < 2 ^ 31),
      (by decide : 2 < 2 ^ 31 - 16)⟩
  have hskipped : ∀ tag content, .unknown tag content ∈ newer →
      Skipped base128 (Raw.fields base128) tag content := by
    intro tag content hmem
    simp only [newer, List.mem_cons, reduceCtorEq, Piece.unknown.injEq,
      List.not_mem_nil, or_false, false_or] at hmem
    obtain ⟨rfl, rfl⟩ := hmem
    exact ⟨by decide, by decide, by decide,
      (by decide : 11 ∉ [1, 2, 3, 10]), fun _ => rfl⟩
  exact @parse_written base128 login hvalid newer
    (Raw.layout base128).packed_perm hskipped

end Request

/-! ## `Reply` -/

namespace Reply

def blank : Reply where
  type := 0
  msgid := 0
  error := none
  payload := []

def typeField : Wire.Field Reply :=
  .scalar wire 1 .uint32 Reply.type fun type reply => { reply with type }

def msgidField : Wire.Field Reply :=
  .scalar wire 2 .uint32 Reply.msgid fun msgid reply => { reply with msgid }

def errorField : Wire.Field Reply :=
  .message wire 3 (Error.fields wire) (Error.packed wire) Error.blank
    Reply.error fun error reply => { reply with error := some error }

def payloadField : Wire.Field Reply :=
  .bytes wire 10 Reply.payload fun payload reply => { reply with payload }

def fields : List (Wire.Field Reply) :=
  [typeField wire, msgidField wire, errorField wire, payloadField wire]

def packed : List (Wire.Field Reply) :=
  [payloadField wire, errorField wire, typeField wire, msgidField wire]

/-- `Reply::_InternalSerialize`. -/
def internalSerialize (reply : Reply) : Bytes :=
  wire.serialize (fields wire) reply

/-- `Reply::ByteSizeLong`. -/
def byteSizeLong (reply : Reply) : ℕ := byteSize (packed wire) reply

/-- `Reply::MergeImpl`. -/
def mergeImpl (this other : Reply) : Reply :=
  let this :=
    if other.payload = [] then this else { this with payload := other.payload }
  let this :=
    match other.error with
    | none => this
    | some error =>
        { this with
          error := some ((this.error.getD Error.blank).mergeImpl error) }
  let this :=
    if other.type = 0 then this else { this with type := other.type }
  if other.msgid = 0 then this else { this with msgid := other.msgid }

/-- `Reply::_InternalParse`. -/
def internalParse (reply : Reply) (bytes : Bytes) : Option (Parsed Reply) :=
  wire.parse (fields wire) reply bytes

def Valid (reply : Reply) : Prop :=
  Scalar.uint32.Fits reply.type ∧
  Scalar.uint32.Fits reply.msgid ∧
  (∀ error ∈ reply.error,
    error.Valid wire ∧ error.byteSizeLong wire < wire.sizeLimit) ∧
    reply.payload.length < wire.sizeLimit

theorem mergeImpl_blank (reply : Reply) : blank.mergeImpl reply = reply := by
  obtain ⟨type, msgid, error, payload⟩ := reply
  cases error <;>
    dsimp only [mergeImpl, blank] <;>
    split_ifs <;> simp_all [Error.mergeImpl_blank]

theorem merge_packed (this other : Reply) :
    merge (packed wire) this other = this.mergeImpl other := by
  obtain ⟨type, msgid, error, payload⟩ := other
  cases error <;> rfl

def layout : Layout Reply where
  fields := fields wire
  packed := packed wire
  Valid := Valid wire
  lawful :=
    List.forall_mem_cons.mpr
      ⟨scalar_lawful (by decide) fun _ hvalid => hvalid.1,
        List.forall_mem_cons.mpr
          ⟨scalar_lawful (by decide) fun _ hvalid => hvalid.2.1,
            List.forall_mem_cons.mpr
              ⟨message_lawful (Error.layout wire) (by decide)
                fun _ hvalid => hvalid.2.2.1,
                List.forall_mem_singleton.mpr
                  (bytes_lawful (by decide) fun _ hvalid => hvalid.2.2.2)⟩⟩⟩
  distinct := (by decide : [1, 2, 3, 10].Nodup)
  packed_perm :=
    ((List.perm_append_singleton _ [_, _]).symm.cons _).trans
      (List.perm_append_singleton _ [_, _, _]).symm
  commutes := by
    apply pairwise_four <;>
      intro base message <;>
      dsimp only [typeField, msgidField, errorField, payloadField,
        Field.scalar, Field.message, Field.bytes] <;>
      cases message.error <;>
      split_ifs <;> rfl
  blank := blank
  merge_blank reply := by
    rw [merge_packed, mergeImpl_blank]

/-- A reply is read as it is merged into the one that was there, whatever the
order of its fields, whatever fields of a newer `mtk.proto` stand between them
and whatever follows. -/
theorem internalParse_shuffled {wire : Wire} {reply : Reply}
    (hvalid : reply.Valid wire) {pieces : List (Piece Reply)}
    (hperm : (pieces.filterMap Piece.field?).Perm (fields wire))
    (hskipped : ∀ tag content, .unknown tag content ∈ pieces →
      Skipped wire (fields wire) tag content) (base : Reply) (rest : Bytes) :
    internalParse wire base
        (pieces.flatMap (Piece.write wire reply) ++ rest) =
      internalParse wire (base.mergeImpl reply) rest := by
  have hparse :=
    @parse_shuffled wire _ (layout wire) base reply hvalid pieces hperm
      hskipped rest
  exact hparse.trans (congrArg
    (internalParse wire · rest) (merge_packed wire base reply))

/-- A field 4 of 32 bits between the payload and the error. -/
private def newer : List (Piece Reply) :=
  [.known (payloadField base128), .unknown 37 [0, 0, 0, 1],
    .known (errorField base128), .known (typeField base128),
    .known (msgidField base128)]

private def denial : Reply where
  type := 0
  msgid := 5
  error := some { errorCode := -3, payload := [] }
  payload := []

/-- The code of the error takes ten bytes, as it is negative. -/
theorem internalParse_shuffled_denial :
    internalParse base128 blank
        [0x25, 0x00, 0x00, 0x00, 0x01, 0x1a, 0x0b, 0x08, 0xfd, 0xff, 0xff,
          0xff, 0xff, 0xff, 0xff, 0xff, 0xff, 0x01, 0x10, 0x05] =
      some ⟨denial, none, []⟩ := by
  have hvalid : denial.Valid base128 := by
    refine ⟨(by decide : 0 < 2 ^ 32), (by decide : 5 < 2 ^ 32), ?_,
      (by decide : 0 < 2 ^ 31 - 16)⟩
    rintro error ⟨⟩
    exact ⟨⟨(by decide : -2 ^ 31 ≤ (-3 : ℤ) ∧ (-3 : ℤ) < 2 ^ 31),
      (by decide : 0 < 2 ^ 31 - 16)⟩, (by decide : 11 < 2 ^ 31 - 16)⟩
  have hskipped : ∀ tag content, .unknown tag content ∈ newer →
      Skipped base128 (fields base128) tag content := by
    intro tag content hmem
    simp only [newer, List.mem_cons, reduceCtorEq, Piece.unknown.injEq,
      List.not_mem_nil, or_false, false_or] at hmem
    obtain ⟨rfl, rfl⟩ := hmem
    exact ⟨by decide, by decide, by decide,
      (by decide : 4 ∉ [1, 2, 3, 10]), fun _ => rfl⟩
  exact @internalParse_shuffled base128 denial hvalid newer
    (layout base128).packed_perm hskipped blank []

end Reply

end GrpcMtk.Proto
