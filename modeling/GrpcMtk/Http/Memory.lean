import GrpcMtk.Http.Cutting
import GrpcMtk.Http.HeaderBlock

/-!
# What a message depends on

`reset` takes a buffer from `malloc` and leaves the result and the body length
of the message before.  Two parsers that start from different memory and
receive the same stream are compared byte by byte.  All that is read was written
before, with one exception: a message without a body ends without its length
being set.
-/

namespace GrpcMtk.Http

open GrpcMtk.Proto

namespace HttpFSM

/-- Both parsers report the same message, and length 0 of a body that is not
there. -/
structure SameReport (fsm other : HttpFSM) : Prop where
  state : fsm.state = other.state
  version : fsm.version = other.version
  hdrlen : fsm.headers.length = other.headers.length
  hdr : ∀ index, fsm.hdr index = other.hdr index
  res : fsm.state = .recvFinish → fsm.res = other.res
  bodylen : fsm.state = .recvFinish → fsm.bodylen = other.bodylen
  bodiless : fsm.state = .recvFinish → fsm.body = none → fsm.bodylen = 0

/-- Whatever the memory holds that `malloc` returns, and whatever the parser
held before, the report on the stream is the same. -/
def Determined (chunkSize : ℕ) (calls : List Bytes) : Prop :=
  ∀ (memory memory' : ℕ → UInt8) (fsm other : HttpFSM),
    SameReport ((fsm.reset chunkSize memory).appendAll calls)
      ((other.reset chunkSize memory').appendAll calls)

/-! ## Another memory -/

/-- The same parser over another memory. -/
def withMemory (mP : ℕ → UInt8) (fsm : HttpFSM) : HttpFSM := { fsm with mP }

theorem withMemory_mLen (mP : ℕ → UInt8) (fsm : HttpFSM) :
    (fsm.withMemory mP).mLen = fsm.mLen := rfl

theorem withMemory_mBuf (mP : ℕ → UInt8) (fsm : HttpFSM) :
    (fsm.withMemory mP).mBuf = fsm.mBuf := rfl

theorem withMemory_headers (mP : ℕ → UInt8) (fsm : HttpFSM) :
    (fsm.withMemory mP).headers = fsm.headers := rfl

/-- A memory that holds the same content. -/
def Holds (fsm : HttpFSM) (mP : ℕ → UInt8) : Prop :=
  ∀ index < fsm.mLen, mP index = fsm.mP index

/-- A header ends with a NUL, up to which the first line is read at most. -/
theorem versionEnd_of_end {fsm : HttpFSM} {first : Header}
    (hlong : first.hd + 8 < fsm.mLen) (hend : fsm.mP (fsm.mLen - 1) = 0) :
    fsm.versionEnd first = cString (fsm.content.drop (first.hd + 8)) := by
  obtain ⟨count, hcount⟩ := Nat.exists_eq_add_of_lt hlong
  obtain ⟨more, hmemory⟩ := @map_mP_range fsm
    (max fsm.mLen (first.hd + first.hl + 16)) (Nat.le_max_left _ _)
  have hcontent : fsm.content =
      (List.range (first.hd + 8 + count)).map fsm.mP ++ [0] := by
    rw [content, hcount, List.range_succ, List.map_append, List.map_singleton]
    rw [hcount, Nat.add_sub_cancel] at hend
    rw [hend]
  have hshort : first.hd + 8 ≤
      ((List.range (first.hd + 8 + count)).map fsm.mP).length := by
    rw [List.length_map, List.length_range]
    omega
  rw [versionEnd, hmemory, hcontent, List.append_assoc,
    List.drop_append_of_le_length hshort, List.drop_append_of_le_length hshort,
    cString_of_nul]
  exact cString_of_nul _ _

theorem expand_withMemory (mP : ℕ → UInt8) (fsm : HttpFSM) :
    (fsm.withMemory mP).expand = fsm.expand.withMemory mP := by
  rw [expand, expand]
  by_cases hfull : fsm.mLen ≥ fsm.limit
  · rw [if_pos hfull]
    exact if_pos hfull
  · rw [if_neg hfull]
    exact if_neg hfull

section Holds

variable {fsm : HttpFSM} {mP : ℕ → UInt8} (hholds : fsm.Holds mP)

include hholds

theorem Holds.content : (fsm.withMemory mP).content = fsm.content :=
  content_congr rfl hholds

theorem Holds.cstr (offset : ℕ) :
    (fsm.withMemory mP).cstr offset = fsm.cstr offset := by
  rw [HttpFSM.cstr, hholds.content, HttpFSM.cstr]

theorem Holds.hdrstr (key : String) (l : ℕ) :
    (fsm.withMemory mP).hdrstr key l = fsm.hdrstr key l := by
  rw [HttpFSM.hdrstr, HttpFSM.hdrstr]
  simp only [hholds.cstr]
  rfl

theorem Holds.hdrint (key : String) :
    (fsm.withMemory mP).hdrint key = fsm.hdrint key := by
  rw [HttpFSM.hdrint, hholds.hdrstr, HttpFSM.hdrint]

theorem Holds.recvLf : (fsm.withMemory mP).recvLf = fsm.recvLf := by
  have hlast : fsm.mLen > 1 → mP (fsm.mLen - 1) = fsm.mP (fsm.mLen - 1) :=
    fun hlen => hholds _ (by omega)
  have hbefore : fsm.mLen > 2 → mP (fsm.mLen - 2) = fsm.mP (fsm.mLen - 2) :=
    fun hlen => hholds _ (by omega)
  change (if fsm.mLen > 2 ∧ mP (fsm.mLen - 2) = cr ∧
      mP (fsm.mLen - 1) = lf then 2
    else if fsm.mLen > 1 ∧ mP (fsm.mLen - 1) = lf then 1 else 0) = _
  rw [HttpFSM.recvLf]
  congr 1
  · refine propext (and_congr_right fun hlen => ?_)
    rw [hbefore hlen, hlast (by omega)]
  · congr 1
    refine propext (and_congr_right fun hlen => ?_)
    rw [hlast hlen]

/-- The same bytes become NUL. -/
theorem Holds.terminate (nlf : ℕ) : ∃ next,
    (fsm.withMemory mP).terminate nlf =
        (fsm.terminate nlf).withMemory next ∧
      (fsm.terminate nlf).Holds next := by
  induction nlf generalizing fsm mP with
  | zero => exact ⟨mP, rfl, hholds⟩
  | succ nlf ih =>
      refine @ih { fsm with
        mP := Function.update fsm.mP (fsm.mLen - (nlf + 1)) 0 }
        (Function.update mP (fsm.mLen - (nlf + 1)) 0) fun index hindex => ?_
      change _ = Function.update fsm.mP (fsm.mLen - (nlf + 1)) 0 index
      rw [Function.update_apply, Function.update_apply, hholds index hindex]

/-- A byte and the NUL behind it are stored in the same places. -/
theorem Holds.store (hlen : fsm.mLen + 1 < 2 ^ 32) (byte : UInt8) : ∃ next,
    (fsm.withMemory mP).store byte = (fsm.store byte).withMemory next ∧
      (fsm.store byte).Holds next := by
  have hmod : (fsm.mLen + 1) % 2 ^ 32 = fsm.mLen + 1 := Nat.mod_eq_of_lt hlen
  have hlength : fsm.expand.mLen = fsm.mLen := expand_mLen fsm
  refine ⟨Function.update (Function.update mP fsm.expand.mLen byte)
    ((fsm.expand.mLen + 1) % 2 ^ 32) 0, ?_, fun index hindex => ?_⟩
  · rw [HttpFSM.store, expand_withMemory, HttpFSM.store, write, write,
      withMemory_mLen]
    generalize (fsm.expand.mLen + 1) % 2 ^ 32 = mLen
    rfl
  · rw [store_mLen, hmod] at hindex
    rw [store_mP, hlength, hmod, Function.update_of_ne (Nat.ne_of_lt hindex),
      Function.update_of_ne (Nat.ne_of_lt hindex), Function.update_apply,
      Function.update_apply]
    split
    case isTrue => rfl
    case isFalse hother => exact hholds index (by omega)

/-- A receiving function writes nothing or goes back. -/
theorem Holds.mono {next : HttpFSM} (hmemory : next.mP = fsm.mP)
    (hlen : next.mLen ≤ fsm.mLen) : next.Holds mP := fun index hindex => by
  rw [hmemory]
  exact hholds index (Nat.lt_of_lt_of_le hindex hlen)

/-! ## The receiving functions -/

theorem Holds.recvBody : ∃ next,
    (fsm.withMemory mP).recvBody = fsm.recvBody.withMemory next ∧
      fsm.recvBody.Holds next := by
  refine ⟨mP, ?_, hholds.mono ?_ (moves_recvBody fsm).received.mLen⟩
  · rw [HttpFSM.recvBody, HttpFSM.recvBody, hholds.recvLf]
    dsimp only
    rw [apply_ite (withMemory mP), apply_ite (withMemory mP),
      apply_ite (withMemory mP)]
    rfl
  · rw [HttpFSM.recvBody]
    dsimp only
    rw [apply_ite HttpFSM.mP, apply_ite HttpFSM.mP, apply_ite HttpFSM.mP,
      ite_self, ite_self, ite_self]

theorem Holds.recvBodyNochunk : ∃ next,
    (fsm.withMemory mP).recvBodyNochunk =
        fsm.recvBodyNochunk.withMemory next ∧
      fsm.recvBodyNochunk.Holds next := by
  refine ⟨mP, ?_, hholds.mono ?_ (moves_recvBodyNochunk fsm).received.mLen⟩
  · rw [HttpFSM.recvBodyNochunk, HttpFSM.recvBodyNochunk]
    rw [apply_ite (withMemory mP), apply_ite (withMemory mP)]
    rfl
  · rw [HttpFSM.recvBodyNochunk]
    rw [apply_ite HttpFSM.mP, apply_ite HttpFSM.mP, ite_self, ite_self]

theorem Holds.recvComment : ∃ next,
    (fsm.withMemory mP).recvComment = fsm.recvComment.withMemory next ∧
      fsm.recvComment.Holds next := by
  refine ⟨mP, ?_, hholds.mono ?_ (moves_recvComment fsm).received.mLen⟩
  · rw [HttpFSM.recvComment, HttpFSM.recvComment, hholds.recvLf,
      apply_ite (withMemory mP)]
    rfl
  · rw [HttpFSM.recvComment, apply_ite HttpFSM.mP, ite_self]

theorem Holds.takeSize {nlf : ℕ} {state : State}
    (hends : SizeEnd fsm nlf state) : ∃ next,
    (fsm.withMemory mP).takeSize nlf state =
        (fsm.takeSize nlf state).withMemory next ∧
      (fsm.takeSize nlf state).Holds next := by
  obtain ⟨next, hnext, hheld⟩ := hholds.terminate nlf
  refine ⟨next, ?_, hheld.mono ?_ ?_⟩
  · rw [HttpFSM.takeSize, HttpFSM.takeSize, hnext, hheld.cstr,
      withMemory_mLen, withMemory_mBuf]
    generalize htoi _ _ = size
    cases size with
    | none => rfl
    | some cl =>
        dsimp only
        rw [apply_ite (withMemory next)]
        rfl
  · rw [HttpFSM.takeSize]
    generalize htoi _ _ = size
    cases size with
    | none => rfl
    | some cl =>
        dsimp only
        rw [apply_ite HttpFSM.mP, ite_self]
  · rw [terminate_mLen]
    exact (moves_takeSize hends).received.mLen

theorem Holds.recvBodylen (hnul : fsm.mP fsm.mLen = 0)
    (hnul' : mP fsm.mLen = 0) : ∃ next,
    (fsm.withMemory mP).recvBodylen = fsm.recvBodylen.withMemory next ∧
      fsm.recvBodylen.Holds next := by
  have hsemicolon : (0 : UInt8) ≠ semicolon := by decide
  have hother : ¬(fsm.withMemory mP).mP (fsm.withMemory mP).mLen =
      semicolon := by
    change ¬mP fsm.mLen = semicolon
    rw [hnul']
    exact hsemicolon
  rw [HttpFSM.recvBodylen, HttpFSM.recvBodylen, hholds.recvLf, hnul,
    if_neg hsemicolon, if_neg hother]
  by_cases hlf : fsm.recvLf ≠ 0
  · rw [if_pos hlf, if_pos hlf]
    exact hholds.takeSize (.line hlf)
  · rw [if_neg hlf, if_neg hlf]
    exact ⟨mP, rfl, hholds⟩

theorem Holds.recvFooter : ∃ next,
    (fsm.withMemory mP).recvFooter = fsm.recvFooter.withMemory next ∧
      fsm.recvFooter.Holds next := by
  rw [HttpFSM.recvFooter, HttpFSM.recvFooter, hholds.recvLf]
  by_cases hlf : fsm.recvLf = 0
  · rw [if_pos hlf, if_pos hlf]
    exact ⟨mP, rfl, hholds⟩
  · rw [if_neg hlf, if_neg hlf]
    obtain ⟨next, hnext, hheld⟩ := hholds.terminate fsm.recvLf
    rw [hnext]
    dsimp only
    rw [withMemory_mLen, withMemory_mBuf, withMemory_headers]
    by_cases hempty :
        (fsm.terminate fsm.recvLf).mLen - fsm.recvLf =
          (fsm.terminate fsm.recvLf).mBuf
    · rw [if_pos hempty, if_pos hempty]
      exact ⟨next, rfl, hheld⟩
    · rw [if_neg hempty, if_neg hempty]
      by_cases hroom :
          (fsm.terminate fsm.recvLf).headers.length < maxHeader
      · rw [if_pos hroom, if_pos hroom]
        refine ⟨Function.update next (fsm.terminate fsm.recvLf).mLen 0, rfl,
          fun index hindex => ?_⟩
        change index < (fsm.terminate fsm.recvLf).mLen at hindex
        change _ = Function.update (fsm.terminate fsm.recvLf).mP _ 0 index
        rw [Function.update_of_ne (Nat.ne_of_lt hindex),
          Function.update_of_ne (Nat.ne_of_lt hindex), hheld index hindex]
      · rw [if_neg hroom, if_neg hroom]
        exact ⟨next, rfl, hheld⟩

/-- Behind the header nothing but the content is read. -/
theorem Holds.recv_behind (hstate : fsm.state ≠ .recvHeader)
    (hnul : fsm.mP fsm.mLen = 0) (hnul' : mP fsm.mLen = 0) : ∃ next,
    (fsm.withMemory mP).recv = fsm.recv.withMemory next ∧
      fsm.recv.Holds next := by
  have hsame : (fsm.withMemory mP).state = fsm.state := rfl
  rw [HttpFSM.recv, HttpFSM.recv, hsame]
  cases hfsm : fsm.state with
  | recvHeader => exact absurd hfsm hstate
  | recvBody => exact hholds.recvBody
  | recvBodyNochunk => exact hholds.recvBodyNochunk
  | recvBodylen => exact hholds.recvBodylen hnul hnul'
  | recvFooter => exact hholds.recvFooter
  | recvComment => exact hholds.recvComment
  | _ => exact ⟨mP, rfl, hholds⟩

/-- Before its empty line nothing but the content of a header is read. -/
theorem Holds.recv_header (hstate : fsm.state = .recvHeader)
    (hend : ¬fsm.AtHeaderEnd) : ∃ next,
    (fsm.withMemory mP).recv = fsm.recv.withMemory next ∧
      fsm.recv.Holds next := by
  have hsame : (fsm.withMemory mP).state = fsm.state := rfl
  rw [HttpFSM.recv, HttpFSM.recv, hsame, hstate]
  dsimp only
  rw [recvHeader, recvHeader, hholds.recvLf]
  by_cases hlf : fsm.recvLf = 0
  · rw [if_pos hlf, if_pos hlf]
    exact ⟨mP, rfl, hholds⟩
  · rw [if_neg hlf, if_neg hlf]
    obtain ⟨next, hnext, hheld⟩ := hholds.terminate fsm.recvLf
    have hempty : ¬(fsm.terminate fsm.recvLf).mLen - fsm.recvLf =
        (fsm.terminate fsm.recvLf).mBuf := by
      rw [terminate_mLen, terminate_mBuf]
      exact fun hbuf => hend ⟨hstate, hlf, hbuf⟩
    rw [hnext]
    dsimp only
    rw [withMemory_mLen, withMemory_mBuf, withMemory_headers, if_neg hempty,
      if_neg hempty]
    by_cases hroom : (fsm.terminate fsm.recvLf).headers.length < maxHeader
    · rw [if_pos hroom, if_pos hroom]
      exact ⟨next, rfl, hheld⟩
    · rw [if_neg hroom, if_neg hroom]
      exact ⟨next, rfl, hheld⟩

/-- At the end of a header whose content reaches behind the version of the
first line, `putrc` reads nothing but the content. -/
theorem Holds.putrc {first : Header} {headers : List Header}
    (hheaders : fsm.headers = first :: headers)
    (hlong : first.hd + 8 < fsm.mLen) (hend : fsm.mP (fsm.mLen - 1) = 0) :
    (fsm.withMemory mP).putrc = fsm.putrc := by
  have hend' : (fsm.withMemory mP).mP ((fsm.withMemory mP).mLen - 1) = 0 :=
    (hholds (fsm.mLen - 1) (by omega)).trans hend
  have htext : (fsm.withMemory mP).versionEnd first = fsm.versionEnd first := by
    rw [versionEnd_of_end hlong hend,
      @versionEnd_of_end (fsm.withMemory mP) first hlong hend',
      hholds.content]
  have hversion : [(fsm.withMemory mP).mP (first.hd + 5),
      (fsm.withMemory mP).mP (first.hd + 6),
      (fsm.withMemory mP).mP (first.hd + 7)] =
      [fsm.mP (first.hd + 5), fsm.mP (first.hd + 6),
        fsm.mP (first.hd + 7)] := by
    have hbyte (index : ℕ) (hindex : index < fsm.mLen) :
        (fsm.withMemory mP).mP index = fsm.mP index := hholds index hindex
    rw [hbyte (first.hd + 5) (by omega), hbyte (first.hd + 6) (by omega),
      hbyte (first.hd + 7) (by omega)]
  rw [HttpFSM.putrc, HttpFSM.putrc, withMemory_headers, hheaders]
  dsimp only
  rw [hversion, htext]
  rfl

/-- The end of such a header. -/
theorem Holds.endHeader {first : Header} {headers : List Header}
    (hheaders : fsm.headers = first :: headers)
    (hlong : first.hd + 8 < fsm.mLen) (hend : fsm.mP (fsm.mLen - 1) = 0) :
    (fsm.withMemory mP).endHeader = fsm.endHeader.withMemory mP ∧
      fsm.endHeader.Holds mP := by
  have hresult : (fsm.withMemory mP).setResult =
      fsm.setResult.withMemory mP := by
    rw [setResult, setResult, hholds.putrc hheaders hlong hend]
    rfl
  have hheld : fsm.setResult.Holds mP := hholds
  constructor
  · rw [HttpFSM.endHeader, HttpFSM.endHeader, hresult, hheld.hdrint]
    cases fsm.setResult.hdrint "Content-Length" with
    | some cl => rfl
    | none =>
        dsimp only
        rw [hheld.hdrstr, hheld.hdrstr, hheld.hdrstr,
          apply_ite (withMemory mP), apply_ite (withMemory mP),
          apply_ite (withMemory mP)]
        rfl
  · obtain ⟨version, res, mBuf, bd, bl, state, heq⟩ := endHeader_eq fsm
    rw [heq]
    exact hholds

/-- The whole step at the end of a header. -/
theorem Holds.recv_end (hat : fsm.AtHeaderEnd) {first : Header}
    {headers : List Header} (hheaders : fsm.headers = first :: headers)
    (hlong : first.hd + 8 < fsm.mLen) : ∃ next,
    (fsm.withMemory mP).recv = fsm.recv.withMemory next ∧
      fsm.recv.Holds next := by
  have hat' : (fsm.withMemory mP).AtHeaderEnd := by
    rw [AtHeaderEnd, hholds.recvLf]
    exact hat
  obtain ⟨next, hnext, hheld⟩ := hholds.terminate fsm.recvLf
  obtain ⟨count, hcount⟩ := Nat.exists_eq_succ_of_ne_zero hat.2.1
  have hend : (fsm.terminate fsm.recvLf).mP
      ((fsm.terminate fsm.recvLf).mLen - 1) = 0 := by
    rw [terminate_mLen, hcount]
    exact mP_terminate_last count
  have hresult := @Holds.endHeader _ next hheld first headers
    ((terminate_headers _ _).trans hheaders)
    (by rwa [terminate_mLen]) hend
  rw [recv_atHeaderEnd hat, recv_atHeaderEnd hat', hholds.recvLf, hnext]
  exact ⟨next, hresult⟩

end Holds

/-! ## What `reset` leaves -/

/-- The same parser with another result and body length. -/
def withRest (res : ℤ) (bl : ℕ) (fsm : HttpFSM) : HttpFSM :=
  { fsm with res, bl }

theorem withRest_mLen (res : ℤ) (bl : ℕ) (fsm : HttpFSM) :
    (fsm.withRest res bl).mLen = fsm.mLen := rfl

section Rest

variable {fsm : HttpFSM} (res : ℤ) (bl : ℕ)

theorem holds_withRest {mP : ℕ → UInt8} :
    (fsm.withRest res bl).Holds mP ↔ fsm.Holds mP := Iff.rfl

theorem terminate_withRest (nlf : ℕ) (fsm : HttpFSM) :
    (fsm.withRest res bl).terminate nlf =
      (fsm.terminate nlf).withRest res bl := by
  induction nlf generalizing fsm with
  | zero => rfl
  | succ nlf ih =>
      exact ih { fsm with
        mP := Function.update fsm.mP (fsm.mLen - (nlf + 1)) 0 }

theorem expand_withRest (fsm : HttpFSM) :
    (fsm.withRest res bl).expand = fsm.expand.withRest res bl := by
  rw [expand, expand]
  by_cases hfull : fsm.mLen ≥ fsm.limit
  · rw [if_pos hfull]
    exact if_pos hfull
  · rw [if_neg hfull]
    exact if_neg hfull

theorem write_withRest (byte : UInt8) (fsm : HttpFSM) :
    (fsm.withRest res bl).write byte = (fsm.write byte).withRest res bl := by
  rw [write, write, withRest_mLen]
  generalize (fsm.mLen + 1) % 2 ^ 32 = mLen
  rfl

theorem store_withRest (byte : UInt8) (fsm : HttpFSM) :
    (fsm.withRest res bl).store byte = (fsm.store byte).withRest res bl := by
  rw [store, expand_withRest, write_withRest, store]

/-- Before its empty line a header does not depend on them. -/
theorem recv_withRest (hstate : fsm.state = .recvHeader)
    (hend : ¬fsm.AtHeaderEnd) :
    (fsm.withRest res bl).recv = fsm.recv.withRest res bl := by
  have hsame : (fsm.withRest res bl).state = fsm.state := rfl
  have hlf : (fsm.withRest res bl).recvLf = fsm.recvLf := rfl
  rw [recv, recv, hsame, hstate]
  dsimp only
  rw [recvHeader, recvHeader, hlf, terminate_withRest]
  by_cases hnone : fsm.recvLf = 0
  · rw [if_pos hnone, if_pos hnone]
  · have hempty : ¬(fsm.terminate fsm.recvLf).mLen - fsm.recvLf =
        (fsm.terminate fsm.recvLf).mBuf := by
      rw [terminate_mLen, terminate_mBuf]
      exact fun hbuf => hend ⟨hstate, hnone, hbuf⟩
    rw [if_neg hnone, if_neg hnone]
    dsimp only
    rw [if_neg hempty, apply_ite (withRest res bl)]
    exact if_neg hempty

/-- The end of a header that announces a body sets both. -/
theorem endHeader_withRest (hannounced : ¬AnnouncesNone fsm) : ∃ bl',
    (fsm.withRest res bl).endHeader =
        fsm.endHeader.withRest fsm.endHeader.res bl' ∧
      (fsm.endHeader.state ≠ .websocketEstablish →
        fsm.endHeader.state ≠ .error →
        bl' = fsm.endHeader.bl ∧ fsm.endHeader.bd ≠ none) := by
  have hresult : (fsm.withRest res bl).setResult =
      fsm.setResult.withRest fsm.setResult.res bl := rfl
  have hstr (key : String) :
      (fsm.setResult.withRest fsm.setResult.res bl).hdrstr key 256 =
        fsm.setResult.hdrstr key 256 := rfl
  have hint :
      (fsm.setResult.withRest fsm.setResult.res bl).hdrint "Content-Length" =
        fsm.setResult.hdrint "Content-Length" := rfl
  rw [endHeader, endHeader, hresult, hint, hstr, hstr, hstr]
  cases hlength : fsm.setResult.hdrint "Content-Length" with
  | some cl => exact ⟨_, rfl, fun _ _ => ⟨rfl, Option.some_ne_none _⟩⟩
  | none =>
      dsimp only
      by_cases hchunked : (fsm.setResult.hdrstr "Transfer-Encoding" 256).map
          (List.take 7) = some (ascii "chunked")
      · rw [if_pos hchunked, if_pos hchunked]
        exact ⟨_, rfl, fun _ _ => ⟨rfl, Option.some_ne_none _⟩⟩
      · rw [if_neg hchunked, if_neg hchunked]
        by_cases hsocket : fsm.setResult.hdrstr "Sec-WebSocket-Key" 256 ≠ none ∨
            fsm.setResult.hdrstr "Sec-WebSocket-Accept" 256 ≠ none
        · rw [if_pos hsocket, if_pos hsocket]
          exact ⟨bl, rfl, fun hestablished => absurd rfl hestablished⟩
        · rw [if_neg hsocket, if_neg hsocket]
          by_cases hres : fsm.setResult.res = 200
          · rw [if_pos hres]
            refine ⟨bl, if_pos hres, fun _ herror => absurd rfl herror⟩
          · rw [not_or, not_not, not_not] at hsocket
            exact absurd ⟨hlength, hchunked, hsocket.1, hsocket.2, hres⟩
              hannounced

end Rest

/-! ## Room for a stream -/

/-- While bytes are received the buffer is not full. -/
def HasRoom (bytes : Bytes) (fsm : HttpFSM) : Prop :=
  ∀ stored ∈ fsm.stores bytes, stored.Receiving → stored.mLen < stored.limit

theorem HasRoom.cons {fsm : HttpFSM} {byte : UInt8} {rest : Bytes}
    (hroom : fsm.HasRoom (byte :: rest)) (hreceiving : fsm.Receiving) :
    fsm.mLen + 1 < 2 ^ 32 ∧ (fsm.store byte).recv.HasRoom rest := by
  rw [HasRoom, stores_cons hreceiving, List.forall_mem_cons] at hroom
  have hbelow := hroom.1 hreceiving
  have hlimit := limit_lt fsm
  exact ⟨by omega, hroom.2⟩

theorem mem_stores_append {fsm stored : HttpFSM} {left right : Bytes}
    (hstored : stored ∈ fsm.stores (left ++ right)) :
    stored ∈ fsm.stores left ∨ stored ∈ (fsm.receive left).stores right := by
  induction left generalizing fsm with
  | nil => exact .inr hstored
  | cons byte left ih =>
      rw [List.cons_append] at hstored
      rcases state_cases fsm with hhalted | hestablished | hreceiving
      · rw [stores_of_halted hhalted] at hstored
        exact absurd hstored List.not_mem_nil
      · rw [stores_cons_of_established hestablished] at hstored ⊢
        exact .inl hstored
      · rw [stores_cons hreceiving, List.mem_cons] at hstored
        rw [stores_cons hreceiving, List.mem_cons, receive_cons hreceiving]
        rcases hstored with hhere | hlater
        · exact .inl (.inl hhere)
        · exact (ih hlater).imp_left .inr

/-- Calls that need no expansion leave room for the stream they carry. -/
theorem hasRoom_of_calls {base fsm : HttpFSM} (hextends : Extends base fsm)
    {calls : List Bytes} (hroom : fsm.NeverExpands calls) :
    base.HasRoom calls.flatten := by
  induction calls generalizing base fsm with
  | nil => exact fun stored hstored => absurd hstored List.not_mem_nil
  | cons bytes calls ih =>
      rw [NeverExpands, storesAll, List.forall_mem_append] at hroom
      intro stored hstored hreceiving
      rw [List.flatten_cons] at hstored
      rcases mem_stores_append hstored with hhere | hlater
      · rcases hextends with rfl | htrails
        · exact hroom.1 stored hhere
        · have hestablished := htrails.established
          cases bytes with
          | nil => exact absurd hhere List.not_mem_nil
          | cons byte rest =>
              rw [stores_cons_of_established hestablished,
                List.mem_singleton] at hhere
              rw [hhere] at hreceiving
              exact absurd hestablished hreceiving.2.2
      · exact ih (hextends.append hroom.1) hroom.2 stored hlater hreceiving

/-! ## Both parsers along a stream -/

/-- The empty line ends the header. -/
theorem endHeader_state_ne (fsm : HttpFSM) :
    fsm.endHeader.state ≠ .recvHeader := by
  rw [endHeader]
  split
  · simp
  · rw [apply_ite HttpFSM.state, apply_ite HttpFSM.state,
      apply_ite HttpFSM.state]
    split
    · simp
    · split
      · simp
      · split <;> simp

/-- The other parser has another memory with the same content.  Its result and
body length may differ as long as they are not reported. -/
def Agrees (fsm other : HttpFSM) : Prop :=
  ∃ mP res bl, other = (fsm.withRest res bl).withMemory mP ∧ fsm.Holds mP ∧
    (fsm.state = .recvFinish →
      res = fsm.res ∧ bl = fsm.bl ∧ fsm.bd ≠ none)

theorem Agrees.sameReport {fsm other : HttpFSM} (hagrees : Agrees fsm other) :
    SameReport fsm other := by
  obtain ⟨mP, res, bl, rfl, hholds, hrest⟩ := hagrees
  refine ⟨rfl, rfl, rfl, fun index => ?_, fun hfinish => ?_, fun hfinish => ?_,
    fun hfinish hbody => ?_⟩
  · have hcstr := @Holds.cstr (fsm.withRest res bl) mP hholds
    rw [hdr, hdr]
    simp only [hcstr]
    rfl
  · exact (hrest hfinish).1.symm
  · exact congrArg (fun bl : ℕ => toInt bl) (hrest hfinish).2.1.symm
  · exact absurd (Option.map_eq_none_iff.mp hbody) (hrest hfinish).2.2

/-- Behind the header the body keeps its place. -/
theorem Moves.bd {fsm next : HttpFSM} {state : State}
    (hmoves : Moves fsm state next) (hstate : state ≠ .recvHeader) :
    next.bd = fsm.bd := by
  cases hmoves with
  | endsHeader => exact absurd rfl hstate
  | filesHeader => exact absurd rfl hstate
  | _ => simp [addHeader]

/-- A parser that failed, or completed a handshake, reports neither. -/
theorem agrees_of_stopped {fsm : HttpFSM} {mP : ℕ → UInt8}
    (hstopped : fsm.state = .websocketEstablish ∨ fsm.state = .error)
    (res : ℤ) (bl : ℕ) (hholds : fsm.Holds mP) (bytes : Bytes) :
    Agrees (fsm.receive bytes)
      (((fsm.withRest res bl).withMemory mP).receive bytes) := by
  have hstop (other : HttpFSM) (hstate : other.state = fsm.state) :
      other.receive bytes = other := by
    rcases hstopped with hestablished | herror
    · exact receive_of_established (hstate.trans hestablished) bytes
    · exact receive_of_halted (.inl (hstate.trans herror)) bytes
  rw [hstop fsm rfl, hstop ((fsm.withRest res bl).withMemory mP) rfl]
  refine ⟨mP, res, bl, rfl, hholds, fun hfinish => ?_⟩
  rw [hfinish] at hstopped
  simp at hstopped

/-- Behind the header the parsers differ in the memory only. -/
theorem agrees_receive_behind {fsm : HttpFSM} {mP : ℕ → UInt8}
    (hholds : fsm.Holds mP) (hstate : fsm.state ≠ .recvHeader)
    (hbody : fsm.bd ≠ none) {bytes : Bytes}
    (hroom : fsm.HasRoom bytes) :
    Agrees (fsm.receive bytes) ((fsm.withMemory mP).receive bytes) := by
  induction bytes generalizing fsm mP with
  | nil => exact ⟨mP, fsm.res, fsm.bl, rfl, hholds, fun _ => ⟨rfl, rfl, hbody⟩⟩
  | cons byte rest ih =>
      rcases state_cases fsm with hhalted | hestablished | hreceiving
      · rw [receive_of_halted hhalted,
          @receive_of_halted (fsm.withMemory mP) hhalted]
        exact ⟨mP, fsm.res, fsm.bl, rfl, hholds, fun _ => ⟨rfl, rfl, hbody⟩⟩
      · rw [receive_of_established hestablished,
          @receive_of_established (fsm.withMemory mP) hestablished]
        exact ⟨mP, fsm.res, fsm.bl, rfl, hholds, fun _ => ⟨rfl, rfl, hbody⟩⟩
      · obtain ⟨hlen, hafter⟩ := hroom.cons hreceiving
        obtain ⟨next, hnext, hheld⟩ := hholds.store hlen byte
        have hbehind : (fsm.store byte).state ≠ .recvHeader := by
          rwa [store_state]
        have hnul := mP_store byte fsm
        have hnul' : next (fsm.store byte).mLen = 0 := by
          have hstored := mP_store byte (fsm.withMemory mP)
          rw [hnext] at hstored
          exact hstored
        obtain ⟨later, hlater, hkept⟩ :=
          hheld.recv_behind hbehind hnul hnul'
        rw [receive_cons hreceiving,
          @receive_cons (fsm.withMemory mP) hreceiving, hnext, hlater]
        refine ih hkept ?_ ?_ hafter
        · exact (behindHeader_recv ⟨hbehind, by
            rw [store_state]
            exact hreceiving.2.2⟩).1
        · rw [(moves_recv _).bd hbehind, store_bd]
          exact hbody

theorem not_atHeaderEnd {fsm : HttpFSM} (hnext : fsm.recv.state = .recvHeader) :
    ¬fsm.AtHeaderEnd := fun hat => by
  rw [recv_atHeaderEnd hat] at hnext
  exact endHeader_state_ne _ hnext

/-- Before the end of the header. -/
theorem agrees_recv_header {stored : HttpFSM} {mP : ℕ → UInt8}
    (hstate : stored.state = .recvHeader) (hend : ¬stored.AtHeaderEnd)
    (res : ℤ) (bl : ℕ) (hholds : stored.Holds mP) : ∃ next,
    ((stored.withRest res bl).withMemory mP).recv =
        (stored.recv.withRest res bl).withMemory next ∧
      stored.recv.Holds next := by
  obtain ⟨next, hnext, hheld⟩ :=
    ((holds_withRest res bl).mpr hholds).recv_header hstate hend
  rw [recv_withRest res bl hstate hend] at hnext hheld
  exact ⟨next, hnext, (holds_withRest res bl).mp hheld⟩

/-- At the end of a header that announces a body. -/
theorem agrees_receive_end {stored : HttpFSM} {mP : ℕ → UInt8}
    {kept : Bytes} {count : ℕ} {lines : List Bytes}
    (hstored : LineStored stored kept [] count lines) (hlines : lines ≠ [])
    (hannounced : ¬Unannounced lines) (res : ℤ) (bl : ℕ)
    (hholds : stored.Holds mP) {bytes : Bytes}
    (hroom : stored.recv.HasRoom bytes) :
    Agrees (stored.recv.receive bytes)
      (((stored.withRest res bl).withMemory mP).recv.receive bytes) := by
  have hat := hstored.atHeaderEnd
  have hkept := hstored.keeps
  obtain ⟨line, hline, hlong⟩ := exists_long_line hannounced
  have hlength := hkept.length_le hline
  obtain ⟨first, hfirst⟩ := Option.ne_none_iff_exists'.mp
    (mt List.head?_eq_none_iff.mp hlines)
  obtain ⟨-, entries, -, hheaders⟩ := hkept.first hfirst
  have hlen := hstored.mLen
  rw [List.length_nil, Nat.add_zero] at hlen
  obtain ⟨next, hnext, hheld⟩ :=
    @Holds.recv_end (stored.withRest res bl) mP hholds hat _ _ hheaders
      (by
        change 0 + 8 < stored.mLen
        omega)
  have hnone : ¬AnnouncesNone (stored.terminate stored.recvLf) := by
    have hcontent := hstored.content
    rw [← hstored.recvLf] at hcontent
    rw [announcesNone_iff (by rwa [terminate_headers]) hcontent hlines]
    exact hannounced
  have hend : (stored.withRest res bl).recv =
      ((stored.terminate stored.recvLf).withRest res bl).endHeader := by
    rw [← terminate_withRest]
    exact recv_atHeaderEnd hat
  obtain ⟨bl', hbl', hreported⟩ := endHeader_withRest res bl hnone
  rw [← recv_atHeaderEnd hat] at hbl' hreported
  rw [hend, hbl'] at hheld hnext
  rw [hnext]
  have hsame : stored.recv.Holds next := hheld
  by_cases hfailed : stored.recv.state = .websocketEstablish ∨
      stored.recv.state = .error
  · exact agrees_of_stopped hfailed _ bl' hsame bytes
  · rw [not_or] at hfailed
    obtain ⟨hbl, hbd⟩ := hreported hfailed.1 hfailed.2
    rw [hbl]
    refine agrees_receive_behind hsame ?_ hbd hroom
    rw [recv_atHeaderEnd hat]
    exact endHeader_state_ne _

/-- Along the whole stream. -/
theorem agrees_receive {fsm : HttpFSM} {mP : ℕ → UInt8} {line : Bytes}
    {lines : List Bytes} (hscanned : Scanned fsm line lines) (res : ℤ)
    (bl : ℕ) (hholds : fsm.Holds mP) {bytes : Bytes}
    (hroom : fsm.HasRoom bytes)
    (hannounced : ∀ all, headerLines fsm.mLen line lines bytes = some all →
      ¬Unannounced all) :
    Agrees (fsm.receive bytes)
      (((fsm.withRest res bl).withMemory mP).receive bytes) := by
  have hheader : fsm.state ≠ .recvFinish := by
    rw [hscanned.state]
    decide
  induction bytes generalizing fsm mP line lines with
  | nil =>
      exact ⟨mP, res, bl, rfl, hholds, fun hfinish => absurd hfinish hheader⟩
  | cons byte rest ih =>
      have hreceiving : fsm.Receiving := by
        simp [Receiving, hscanned.state]
      obtain ⟨hlen, hrest⟩ := hroom.cons hreceiving
      obtain ⟨next, hnext, hstored⟩ :=
        @Holds.store (fsm.withRest res bl) mP hholds hlen byte
      rw [store_withRest] at hnext hstored
      have hheld := (holds_withRest res bl).mp hstored
      rw [receive_cons hreceiving,
        @receive_cons ((fsm.withRest res bl).withMemory mP) hreceiving, hnext]
      rw [headerLines] at hannounced
      by_cases hbyte : byte = lf ∧ 0 < fsm.mLen
      · obtain ⟨rfl, hpos⟩ := hbyte
        obtain ⟨kept, count, hstored⟩ := hscanned.store hlen hpos
        rw [if_pos ⟨rfl, hpos⟩] at hannounced
        by_cases htext : lineText fsm.mLen line = []
        · rw [htext] at hstored
          rw [if_pos htext] at hannounced
          exact agrees_receive_end hstored
            (hscanned.lines_ne_nil hpos htext) (hannounced lines rfl) res bl
            hheld hrest
        · rw [if_neg htext] at hannounced
          obtain ⟨after, hafter, hkept⟩ := agrees_recv_header hstored.state
            (hstored.not_atHeaderEnd htext) res bl hheld
          rw [hafter]
          by_cases hcount : lines.length < maxHeader
          · rw [if_pos hcount] at hannounced
            obtain ⟨hscan, hsame, -⟩ := hstored.next htext hcount
            refine ih hscan hkept hrest ?_ ?_
            · rw [hsame, store_mLen, Nat.mod_eq_of_lt hlen]
              exact hannounced
            · rw [hscan.state]
              decide
          · exact agrees_of_stopped (.inr (hstored.tooMany htext hcount)) res
              bl hkept rest
      · obtain ⟨hrecv, hinside⟩ := hscanned.inside hlen hbyte
        rw [if_neg hbyte] at hannounced
        obtain ⟨after, hafter, hkept⟩ := agrees_recv_header hinside.state
          (not_atHeaderEnd (by rw [hrecv, hinside.state])) res bl hheld
        rw [hafter]
        rw [hrecv] at hrest hkept ⊢
        refine ih hinside hkept hrest ?_ ?_
        · rw [store_mLen, Nat.mod_eq_of_lt hlen]
          exact hannounced
        · rw [store_state]
          exact hheader

/-- A message without a body leaves the body length as it was. -/
theorem receive_bodiless {fsm : HttpFSM} {line : Bytes} {lines : List Bytes}
    (hscanned : Scanned fsm line lines) {bytes : Bytes}
    (hroom : fsm.HasRoom bytes) {all : List Bytes}
    (hall : headerLines fsm.mLen line lines bytes = some all)
    (hnone : Unannounced all) :
    (fsm.receive bytes).state = .recvFinish ∧
      (fsm.receive bytes).bl = fsm.bl := by
  induction bytes generalizing fsm line lines with
  | nil => simp [headerLines] at hall
  | cons byte rest ih =>
      have hreceiving : fsm.Receiving := by
        simp [Receiving, hscanned.state]
      obtain ⟨hlen, hrest⟩ := hroom.cons hreceiving
      rw [receive_cons hreceiving]
      rw [headerLines] at hall
      by_cases hbyte : byte = lf ∧ 0 < fsm.mLen
      · obtain ⟨rfl, hpos⟩ := hbyte
        obtain ⟨kept, count, hstored⟩ := hscanned.store hlen hpos
        rw [if_pos ⟨rfl, hpos⟩] at hall
        by_cases htext : lineText fsm.mLen line = []
        · rw [if_pos htext, Option.some.injEq] at hall
          rw [htext] at hstored
          have hcontent := hstored.content
          rw [← hstored.recvLf] at hcontent
          have hend : AnnouncesNone
              ((fsm.store lf).terminate (fsm.store lf).recvLf) := by
            rw [announcesNone_iff (by
              rw [terminate_headers]
              exact hstored.keeps) hcontent
                (hscanned.lines_ne_nil hpos htext), hall]
            exact hnone
          obtain ⟨hfinish, hbl⟩ := hend.bl_eq
          rw [← recv_atHeaderEnd hstored.atHeaderEnd] at hfinish hbl
          rw [receive_of_halted (.inr hfinish)]
          exact ⟨hfinish, by rw [hbl, terminate_bl, store_bl]⟩
        · rw [if_neg htext] at hall
          by_cases hcount : lines.length < maxHeader
          · rw [if_pos hcount] at hall
            obtain ⟨hscan, hsame, hkept⟩ := hstored.next htext hcount
            obtain ⟨hfinish, hbl⟩ := ih hscan hrest (by
              rw [hsame, store_mLen, Nat.mod_eq_of_lt hlen]
              exact hall)
            exact ⟨hfinish, by rw [hbl, hkept, store_bl]⟩
          · rw [if_neg hcount] at hall
            contradiction
      · obtain ⟨hrecv, hinside⟩ := hscanned.inside hlen hbyte
        rw [if_neg hbyte] at hall
        rw [hrecv] at hrest ⊢
        obtain ⟨hfinish, hbl⟩ := ih hinside hrest (by
          rw [store_mLen, Nat.mod_eq_of_lt hlen]
          exact hall)
        exact ⟨hfinish, hbl.trans (store_bl byte fsm)⟩

/-! ## Reports -/

theorem SameReport.of_messages {fsm other left right : HttpFSM}
    (hreport : SameReport fsm other) (hleft : SameMessage fsm left)
    (hright : SameMessage other right) : SameReport left right where
  state := hleft.state.symm.trans (hreport.state.trans hright.state)
  version := hleft.version.symm.trans (hreport.version.trans hright.version)
  hdrlen := hleft.hdrlen.symm.trans (hreport.hdrlen.trans hright.hdrlen)
  hdr index := (hleft.hdr index).symm.trans
    ((hreport.hdr index).trans (hright.hdr index))
  res hfinish := hleft.res.symm.trans
    ((hreport.res (hleft.state.trans hfinish)).trans hright.res)
  bodylen hfinish := by
    have hbefore := hleft.state.trans hfinish
    rw [← hleft.bodylen hbefore, hreport.bodylen hbefore,
      hright.bodylen (hreport.state.symm.trans hbefore)]
  bodiless hfinish hbody := by
    have hbefore := hleft.state.trans hfinish
    rw [← hleft.bodylen hbefore]
    exact hreport.bodiless hbefore ((hleft.body hbefore).trans hbody)

section Determined

variable {chunkSize : ℕ} {bytes : Bytes} (cut : Cut bytes)
  (hroom : ∀ memory fsm,
    (reset chunkSize memory fsm).NeverExpands cut.pieces)

include hroom

theorem hasRoom_of_cut (memory : ℕ → UInt8) (fsm : HttpFSM) :
    (fsm.reset chunkSize memory).HasRoom bytes := by
  have hcalls := hasRoom_of_calls (.inl rfl) (hroom memory fsm)
  rwa [cut.flatten] at hcalls

theorem determined_of_body (hbody : ¬Bodiless bytes) :
    Determined chunkSize cut.pieces := by
  intro memory memory' fsm other
  have hholds : (fsm.reset chunkSize memory).Holds memory' :=
    fun index hindex => absurd hindex (Nat.not_lt_zero index)
  have hagrees := agrees_receive (scanned_reset chunkSize memory fsm)
    other.res other.bl hholds (hasRoom_of_cut cut hroom memory fsm)
    fun all hall hnone => hbody ⟨all, hall, hnone⟩
  exact hagrees.sameReport.of_messages
    (sameMessage_of_cut cut (hroom memory fsm))
    (sameMessage_of_cut cut (hroom memory' other))

/-- Two parsers that held different body lengths report different ones. -/
theorem not_determined_of_bodiless (hbody : Bodiless bytes) :
    ¬Determined chunkSize cut.pieces := by
  obtain ⟨lines, hlines, hnone⟩ := hbody
  intro hdetermined
  have hbodylen (bl : ℕ) :
      (({ blank with bl }.reset chunkSize fun _ => 0).appendAll
          cut.pieces).state = .recvFinish ∧
        (({ blank with bl }.reset chunkSize fun _ => 0).appendAll
          cut.pieces).bodylen = toInt bl := by
    have hmessage := sameMessage_of_cut cut (hroom (fun _ => 0)
      { blank with bl })
    obtain ⟨hfinish, hbl⟩ := receive_bodiless
      (scanned_reset chunkSize (fun _ => 0) { blank with bl })
      (hasRoom_of_cut cut hroom _ _) hlines hnone
    refine ⟨hmessage.state.symm.trans hfinish, ?_⟩
    rw [← hmessage.bodylen hfinish, bodylen, hbl]
    rfl
  have hreport := hdetermined (fun _ => 0) (fun _ => 0) { blank with bl := 0 }
    { blank with bl := 1 }
  have hsame := hreport.bodylen (hbodylen 0).1
  rw [(hbodylen 0).2, (hbodylen 1).2] at hsame
  exact absurd hsame (by decide)

/-- For every stream that needs no expansion the report depends on the stream
only, if and only if the stream does not begin with a message without a
body. -/
theorem parse_determined :
    Determined chunkSize cut.pieces ↔ ¬Bodiless bytes :=
  ⟨fun hdetermined hbody =>
    not_determined_of_bodiless cut hroom hbody hdetermined,
    determined_of_body cut hroom⟩

end Determined

/-- A request with a body, in two pieces. -/
private def postCut :
    Cut (ascii "POST / HTTP/1.1\r\nContent-Length: 2\r\n\r\nhi") where
  pieces := [ascii "POST / HTTP/1.1\r\nContent-", ascii "Length: 2\r\n\r\nhi"]
  nonempty := by decide
  flatten := by decide

private theorem not_bodiless_post :
    ¬Bodiless (ascii "POST / HTTP/1.1\r\nContent-Length: 2\r\n\r\nhi") := by
  rintro ⟨lines, hlines, hnone⟩
  have hheader : headerLines 0 [] []
      (ascii "POST / HTTP/1.1\r\nContent-Length: 2\r\n\r\nhi") =
        some [ascii "POST / HTTP/1.1", ascii "Content-Length: 2"] := by decide
  obtain rfl := Option.some.inj (hheader.symm.trans hlines)
  exact hnone.length (ascii "2") (by decide) 2 (by decide)

theorem parse_determined_post : Determined 512 postCut.pieces :=
  (parse_determined postCut fun memory fsm =>
    neverExpands_of_short (by decide) memory fsm (by decide)).mpr
      not_bodiless_post

/-- The lines of a request without a body. -/
theorem bodiless_request : Bodiless (ascii "GET / HTTP/1.1\r\n\r\n") := by
  refine ⟨[ascii "GET / HTTP/1.1"], by decide, ?_, by decide, by decide,
    by decide, ?_⟩
  · intro text htext
    have hnone : findKey (ascii "Content-Length") 256
        ([ascii "GET / HTTP/1.1"].map storedLine) = none := by decide
    rw [hnone] at htext
    contradiction
  · intro first hfirst
    rw [List.head?_cons, Option.some.injEq] at hfirst
    rw [← hfirst]
    decide

/-- A request without a body is reported with the body length the memory
happens to hold. -/
theorem parse_determined_fails : ¬Determined 512 requestCut.pieces :=
  not_determined_of_bodiless requestCut
    (fun memory fsm => neverExpands_of_short (by decide) memory fsm (by decide))
    bodiless_request

end HttpFSM

end GrpcMtk.Http
