import Mathlib.Algebra.Group.Int.Defs
import Mathlib.Algebra.Group.Nat.Defs
import Mathlib.Data.Int.Basic

/-!
# Messages of `mtk.proto`

The messages the server and the client exchange, with the result codes of
`mtk.h` that the library itself puts into an `Error`.  Wire encoding belongs
to protobuf; where the library packs or unpacks a system payload it goes
through `Codec`, a parameter of the model.
-/

namespace GrpcMtk.Proto

abbrev Bytes := List UInt8

/-- The members of `mtk_error_t` that the modelled methods report. -/
def mtkTimeout : ℤ := -2
def mtkAcceptDeny : ℤ := -3
def mtkNotConnect : ℤ := -5

structure Error where
  errorCode : ℤ
  payload : Bytes
  deriving DecidableEq, Repr

/-- `Request::Kind`. -/
inductive Kind where
  | normal
  | ping
  | connect
  | login
  | close
  deriving DecidableEq, Repr

structure Request where
  type : ℕ
  msgid : ℕ
  kind : Kind
  payload : Bytes
  deriving DecidableEq, Repr

structure Reply where
  type : ℕ
  msgid : ℕ
  error : Option Error
  payload : Bytes
  deriving DecidableEq, Repr

namespace SystemPayload

structure Connect where
  id : ℕ
  payload : Bytes
  deriving DecidableEq, Repr

structure Login where
  loginCid : ℕ
  id : ℕ
  msgid : ℕ
  payload : Bytes
  deriving DecidableEq, Repr

end SystemPayload

/-- `Codec::Pack` and `Codec::Unpack` at the payload of a Connect request or
reply; `none` is a negative return of `Unpack`. -/
structure Codec where
  packConnect : SystemPayload.Connect → Bytes
  unpackConnect : Bytes → Option SystemPayload.Connect

/-- The wire format of Connect for an id of one byte and an empty payload. -/
def Codec.small : Codec where
  packConnect connect :=
    if connect.id = 0 then [] else [0x08, connect.id.toUInt8]
  unpackConnect
    | [] => some { id := 0, payload := [] }
    | [0x08, id] =>
        if id < 0x80 then some { id := id.toNat, payload := [] } else none
    | _ => none

end GrpcMtk.Proto
