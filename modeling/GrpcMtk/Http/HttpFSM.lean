import Mathlib.Data.List.Basic
import Mathlib.Logic.Function.Basic
import GrpcMtk.Http.Text

/-!
# The http parser

`HttpFSM` stores what it receives in one buffer and parses it in place, byte
by byte.  The buffer is a function from offsets to bytes, and every pointer
into it is an offset, which a `realloc` leaves as it is.  Of the bytes the
parser has not written nothing is assumed.  `ASSERT` is empty, as in a build
without `DEBUG`.
-/

namespace GrpcMtk.Http

open GrpcMtk.Proto

/-- `HttpFSM::state`. -/
inductive State where
  | invalid
  | recvHeader
  | recvBody
  | recvBodyNochunk
  | recvBodylen
  | recvFooter
  | recvComment
  | recvFinish
  | websocketEstablish
  | error
  deriving DecidableEq, Repr

/-- `hd[i]` and `hl[i]`. -/
structure Header where
  hd : ℕ
  hl : ℕ
  deriving DecidableEq, Repr

/-- `HttpFSM` with its context.  `headers` holds the first `n_hd` entries of
`hd` and `hl`, and `allocated` is the size `m_p` was last allocated with. -/
structure HttpFSM where
  version : ℕ
  headers : List Header
  state : State
  res : ℤ
  bd : Option ℕ
  bl : ℕ
  mMax : ℕ
  mLen : ℕ
  mBuf : ℕ
  mP : ℕ → UInt8
  allocated : ℕ

namespace HttpFSM

def maxHeader : ℕ := 64

/-- `HttpFSM::reset`, with the content of the memory `malloc` returns. -/
def reset (chunkSize : ℕ) (memory : ℕ → UInt8) (fsm : HttpFSM) : HttpFSM :=
  { fsm with
    mP := memory
    mBuf := 0
    allocated := chunkSize
    mLen := 0
    mMax := chunkSize
    version := 11
    headers := []
    bd := none
    state := .recvHeader }

section Reading

variable (fsm : HttpFSM)

/-- The received bytes, as far as they are kept. -/
def content : Bytes := (List.range fsm.mLen).map fsm.mP

/-- The C string at an offset.  While the parser runs, and after it, the byte
at `m_len` is NUL. -/
def cstr (offset : ℕ) : Bytes :=
  (fsm.content.drop offset).takeWhile fun byte => byte ≠ 0

def hdrstr (key : String) (l : ℕ) : Option Bytes :=
  findKey (ascii key) l
    (fsm.headers.map fun header => (fsm.cstr header.hd, header.hl))

def hdrint (key : String) : Option ℤ :=
  match fsm.hdrstr key 256 with
  | none => none
  | some text =>
      match stoi text with
      | some (value, []) => some value
      | _ => none

/-- `HttpFSM::hdr`. -/
def hdr (index : ℕ) : Option Bytes :=
  fsm.headers[index]?.map fun header => fsm.cstr header.hd

/-- `HttpFSM::bodylen`, an `int`. -/
def bodylen : ℤ := toInt fsm.bl

/-- The bytes at `body()`, as many as `bl` counts. -/
def body : Option Bytes :=
  fsm.bd.map fun bd => (fsm.content.drop bd).take fsm.bl

/-- How many of the last bytes end a line. -/
def recvLf : ℕ :=
  if fsm.mLen > 2 ∧ fsm.mP (fsm.mLen - 2) = cr ∧ fsm.mP (fsm.mLen - 1) = lf
  then 2
  else if fsm.mLen > 1 ∧ fsm.mP (fsm.mLen - 1) = lf then 1
  else 0

/-- The C string behind the version, which `putrc` scans.  On a first line
that is shorter than the version it begins behind `m_len`; there `putrc` looks
at a few bytes more than `hl`. -/
def versionEnd (first : Header) : Bytes :=
  (((List.range (max fsm.mLen (first.hd + first.hl + 16))).map fsm.mP).drop
    (first.hd + 8)).takeWhile fun byte => byte ≠ 0

/-- `HttpFSM::putrc`; `none` is `HRC_ERROR`.  When it is called there is a
first line. -/
def putrc : ℕ × Option ℤ :=
  match fsm.headers with
  | [] => (fsm.version, none)
  | first :: _ =>
      let version := [fsm.mP (first.hd + 5), fsm.mP (first.hd + 6),
        fsm.mP (first.hd + 7)]
      let code :=
        match skipToToken first.hl 8 (fsm.versionEnd first) with
        | none => none
        | some (read, text) =>
            match takeToken first.hl read [] text with
            | none => none
            | some tok => atoi tok 256
      if version = ascii "1.1" then (11, code)
      else if version = ascii "1.0" then (10, code)
      else (fsm.version, none)

end Reading

section Receiving

variable (fsm : HttpFSM)

/-- `for (; nlf > 0; nlf--) { *(p - nlf) = '\0'; }`. -/
def terminate : ℕ → HttpFSM → HttpFSM
  | 0, fsm => fsm
  | nlf + 1, fsm =>
      terminate nlf
        { fsm with mP := Function.update fsm.mP (fsm.mLen - (nlf + 1)) 0 }

/-- `m_ctx.res = putrc()`, an `int16_t`. -/
def setResult : HttpFSM :=
  let (version, code) := fsm.putrc
  { fsm with version, res := (code.getD (-1)).bmod (2 ^ 16) }

/-- Record the line that starts at `m_buf`. -/
def addHeader (nlf : ℕ) : HttpFSM :=
  { fsm with
    headers := fsm.headers ++
      [⟨fsm.mBuf, (fsm.mLen - fsm.mBuf - nlf) % 2 ^ 16⟩]
    mBuf := fsm.mLen }

/-- What `recv_header` does at the empty line. -/
def endHeader : HttpFSM :=
  let fsm := fsm.setResult
  match fsm.hdrint "Content-Length" with
  | some cl =>
      { fsm with
        bd := some fsm.mLen
        bl := toUInt32 cl
        state := .recvBodyNochunk }
  | none =>
      if (fsm.hdrstr "Transfer-Encoding" 256).map (List.take 7) =
          some (ascii "chunked") then
        { fsm with
          mBuf := fsm.mLen
          bd := some fsm.mLen
          bl := 0
          state := .recvBodylen }
      else if fsm.hdrstr "Sec-WebSocket-Key" 256 ≠ none ∨
          fsm.hdrstr "Sec-WebSocket-Accept" 256 ≠ none then
        { fsm with state := .websocketEstablish }
      else if fsm.res = 200 then { fsm with state := .error }
      else { fsm with state := .recvFinish }

def recvHeader : HttpFSM :=
  let nlf := fsm.recvLf
  if nlf = 0 then fsm
  else
    let fsm := fsm.terminate nlf
    if fsm.mLen - nlf = fsm.mBuf then fsm.endHeader
    else if fsm.headers.length < maxHeader then fsm.addHeader nlf
    else { fsm with state := .error }

def recvBody : HttpFSM :=
  let nlf := fsm.recvLf
  if nlf = 0 then fsm
  else
    let nDiff : ℤ := fsm.bd.getD 0 + fsm.bl - (fsm.mLen - nlf)
    if nDiff > 0 then fsm
    else if nDiff < 0 then { fsm with state := .error }
    else
      { fsm with
        mLen := fsm.mLen - nlf
        mBuf := fsm.mLen - nlf
        state := .recvBodylen }

def recvBodyNochunk : HttpFSM :=
  let diff : ℤ := fsm.bd.getD 0 + fsm.bl - fsm.mLen
  if diff > 0 then fsm
  else if diff < 0 then { fsm with state := .error }
  else { fsm with state := .recvFinish }

/-- What `recv_bodylen` does with a size line of which the last `nlf` bytes
are no part of the size.  `m_buf` is never beyond `m_len`, so going back by
their difference leads to `m_buf`. -/
def takeSize (nlf : ℕ) (next : State) : HttpFSM :=
  let fsm := fsm.terminate nlf
  match htoi (fsm.cstr fsm.mBuf) (fsm.mLen - fsm.mBuf) with
  | none => { fsm with state := .error }
  | some cl =>
      if cl = 0 then { fsm with mBuf := fsm.mLen, state := .recvFooter }
      else
        { fsm with
          bl := toUInt32 (fsm.bl + cl)
          mLen := fsm.mLen - (fsm.mLen - fsm.mBuf)
          state := next }

def recvBodylen : HttpFSM :=
  let nlf := fsm.recvLf
  if nlf ≠ 0 then fsm.takeSize nlf .recvBody
  else if fsm.mP fsm.mLen = semicolon then fsm.takeSize 1 .recvComment
  else fsm

def recvFooter : HttpFSM :=
  let nlf := fsm.recvLf
  if nlf = 0 then fsm
  else
    let fsm := fsm.terminate nlf
    if fsm.mLen - nlf = fsm.mBuf then { fsm with state := .recvFinish }
    else if fsm.headers.length < maxHeader then
      { fsm with mP := Function.update fsm.mP fsm.mLen 0 }.addHeader nlf
    else { fsm with state := .error }

def recvComment : HttpFSM :=
  if fsm.recvLf = 0 then fsm
  else
    { fsm with
      mLen := fsm.mLen - (fsm.mLen - fsm.mBuf)
      state := .recvBody }

/-- The `switch` of `append`. -/
def recv : HttpFSM :=
  match fsm.state with
  | .recvHeader => fsm.recvHeader
  | .recvBody => fsm.recvBody
  | .recvBodyNochunk => fsm.recvBodyNochunk
  | .recvBodylen => fsm.recvBodylen
  | .recvFooter => fsm.recvFooter
  | .recvComment => fsm.recvComment
  | _ => fsm

end Receiving

/-! ## Appending -/

/-- `limit`, a `uint32_t`; `m_max` never changes. -/
def limit (fsm : HttpFSM) : ℕ := (fsm.mMax + 2 ^ 32 - 1) % 2 ^ 32

/-- `realloc(m_p, limit * 2)` when `m_len` has reached the limit. -/
def expand (fsm : HttpFSM) : HttpFSM :=
  if fsm.mLen ≥ fsm.limit then
    { fsm with allocated := fsm.limit * 2 % 2 ^ 32 }
  else fsm

/-- `m_p[m_len++] = *w++` and `m_p[m_len] = '\0'`. -/
def write (byte : UInt8) (fsm : HttpFSM) : HttpFSM :=
  let mLen := (fsm.mLen + 1) % 2 ^ 32
  { fsm with
    mP := Function.update (Function.update fsm.mP fsm.mLen byte) mLen 0
    mLen }

def store (byte : UInt8) (fsm : HttpFSM) : HttpFSM := fsm.expand.write byte

/-- `HttpFSM::append`, which is called with at least one byte. -/
def append : Bytes → HttpFSM → HttpFSM
  | [], fsm => fsm
  | byte :: rest, fsm =>
      match fsm.state with
      | .error | .recvFinish => fsm
      | .websocketEstablish => fsm.store byte
      | _ => append rest (fsm.store byte).recv

end HttpFSM

end GrpcMtk.Http
