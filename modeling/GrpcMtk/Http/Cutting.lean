import GrpcMtk.Http.Feeding

/-!
# Cutting a stream into calls

All that the next byte depends on is kept in the parser between two calls, so
it does not matter where a stream is cut.  Only behind a websocket handshake,
where a call stores its first byte and drops the others, the content depends on
the cuts; the message does not.
-/

namespace GrpcMtk.Http

open GrpcMtk.Proto

/-- A stream cut into non-empty pieces. -/
structure Cut (bytes : Bytes) where
  pieces : List Bytes
  nonempty : [] ∉ pieces
  flatten : pieces.flatten = bytes

namespace HttpFSM

/-- The bytes of a stream up to the one that ends the message, fails or
completes a handshake. -/
def receive : Bytes → HttpFSM → HttpFSM
  | [], fsm => fsm
  | byte :: rest, fsm =>
      match fsm.state with
      | .error | .recvFinish | .websocketEstablish => fsm
      | _ => receive rest (fsm.store byte).recv

/-- Both parsers show the same message. -/
structure SameMessage (fsm other : HttpFSM) : Prop where
  state : fsm.state = other.state
  version : fsm.version = other.version
  res : fsm.res = other.res
  hdrlen : fsm.headers.length = other.headers.length
  hdr : ∀ index, fsm.hdr index = other.hdr index
  bodylen : fsm.state = .recvFinish → fsm.bodylen = other.bodylen
  body : fsm.state = .recvFinish → fsm.body = other.body

theorem SameMessage.symm {fsm other : HttpFSM}
    (hsame : SameMessage fsm other) : SameMessage other fsm where
  state := hsame.state.symm
  version := hsame.version.symm
  res := hsame.res.symm
  hdrlen := hsame.hdrlen.symm
  hdr index := (hsame.hdr index).symm
  bodylen hfinish := (hsame.bodylen (hsame.state.trans hfinish)).symm
  body hfinish := (hsame.body (hsame.state.trans hfinish)).symm

theorem SameMessage.trans {fsm middle other : HttpFSM}
    (hleft : SameMessage fsm middle) (hright : SameMessage middle other) :
    SameMessage fsm other where
  state := hleft.state.trans hright.state
  version := hleft.version.trans hright.version
  res := hleft.res.trans hright.res
  hdrlen := hleft.hdrlen.trans hright.hdrlen
  hdr index := (hleft.hdr index).trans (hright.hdr index)
  bodylen hfinish := (hleft.bodylen hfinish).trans
    (hright.bodylen (hleft.state.symm.trans hfinish))
  body hfinish := (hleft.body hfinish).trans
    (hright.body (hleft.state.symm.trans hfinish))

section Receive

variable {fsm : HttpFSM}

theorem receive_of_halted (hhalted : fsm.Halted) (bytes : Bytes) :
    fsm.receive bytes = fsm := by
  cases bytes with
  | nil => rfl
  | cons byte rest => rcases hhalted with h | h <;> simp only [receive, h]

theorem receive_of_established (hstate : fsm.state = .websocketEstablish)
    (bytes : Bytes) : fsm.receive bytes = fsm := by
  cases bytes with
  | nil => rfl
  | cons byte rest => simp only [receive, hstate]

theorem receive_cons (hreceiving : fsm.Receiving) (byte : UInt8)
    (rest : Bytes) :
    fsm.receive (byte :: rest) = (fsm.store byte).recv.receive rest := by
  obtain ⟨herror, hfinish, hestablish⟩ := hreceiving
  rw [receive]
  split
  · contradiction
  · contradiction
  · contradiction
  · rfl

theorem receive_append (left right : Bytes) (fsm : HttpFSM) :
    fsm.receive (left ++ right) = (fsm.receive left).receive right := by
  induction left generalizing fsm with
  | nil => rfl
  | cons byte rest ih =>
      rcases state_cases fsm with hhalted | hestablished | hreceiving
      · rw [receive_of_halted hhalted, receive_of_halted hhalted,
          receive_of_halted hhalted]
      · rw [receive_of_established hestablished,
          receive_of_established hestablished,
          receive_of_established hestablished]
      · rw [List.cons_append, receive_cons hreceiving, ih,
          receive_cons hreceiving]

end Receive

/-! ## Header lines end inside the content -/

/-- The C string of a header ends before `m_len`. -/
def EndsInside (fsm : HttpFSM) (header : Header) : Prop :=
  ∃ nul, header.hd ≤ nul ∧ nul < fsm.mLen ∧ fsm.mP nul = 0

/-- While header lines are received, and behind a handshake, all headers end
before `m_len`. -/
structure Ended (fsm : HttpFSM) : Prop where
  mBuf : fsm.mBuf ≤ fsm.mLen
  headers : fsm.state = .recvHeader ∨ fsm.state = .websocketEstablish →
    ∀ header ∈ fsm.headers, fsm.EndsInside header

theorem ended_reset (chunkSize : ℕ) (memory : ℕ → UInt8) (fsm : HttpFSM) :
    Ended (fsm.reset chunkSize memory) where
  mBuf := le_rfl
  headers _ _ hheader := absurd hheader List.not_mem_nil

section Endings

variable {fsm : HttpFSM}

theorem mP_terminate_of_zero {index : ℕ} (hzero : fsm.mP index = 0)
    (nlf : ℕ) : (fsm.terminate nlf).mP index = 0 := by
  induction nlf generalizing fsm with
  | zero => exact hzero
  | succ nlf ih =>
      rw [terminate]
      apply ih
      change Function.update fsm.mP (fsm.mLen - (nlf + 1)) 0 index = 0
      rw [Function.update_apply, hzero, ite_self]

theorem mP_terminate_last (nlf : ℕ) :
    (fsm.terminate (nlf + 1)).mP (fsm.mLen - 1) = 0 := by
  induction nlf generalizing fsm with
  | zero => exact Function.update_self _ _ _
  | succ nlf ih => exact ih

theorem EndsInside.terminate {header : Header}
    (hends : fsm.EndsInside header) (nlf : ℕ) :
    (fsm.terminate nlf).EndsInside header := by
  obtain ⟨nul, hstart, hlen, hzero⟩ := hends
  exact ⟨nul, hstart, by rwa [terminate_mLen], mP_terminate_of_zero hzero nlf⟩

theorem EndsInside.store {header : Header} (hends : fsm.EndsInside header)
    (hlen : fsm.mLen + 1 < 2 ^ 32) (byte : UInt8) :
    (fsm.store byte).EndsInside header := by
  obtain ⟨nul, hstart, hinside, hzero⟩ := hends
  refine ⟨nul, hstart, ?_, ?_⟩
  · rw [store_mLen, Nat.mod_eq_of_lt hlen]
    omega
  · rw [store_mP, Nat.mod_eq_of_lt hlen, Function.update_of_ne (by omega),
      Function.update_of_ne (by omega), hzero]

theorem Ended.store (hended : Ended fsm) (hlen : fsm.mLen + 1 < 2 ^ 32)
    (byte : UInt8) : Ended (fsm.store byte) where
  mBuf := by
    rw [store_mBuf, store_mLen, Nat.mod_eq_of_lt hlen]
    exact Nat.le_succ_of_le hended.mBuf
  headers hstate header hheader := by
    rw [store_state] at hstate
    rw [store_headers] at hheader
    exact (hended.headers hstate header hheader).store hlen byte

/-- A line that is recorded was terminated right before `m_len`. -/
theorem ended_recvHeader (hended : Ended fsm) (hstate : fsm.state = .recvHeader)
    (hbuf : fsm.mBuf < fsm.mLen) : Ended fsm.recvHeader := by
  have hmoves := moves_recvHeader fsm
  refine ⟨hmoves.received.mBuf hended.mBuf, fun _ => ?_⟩
  have hbefore := hended.headers (.inl hstate)
  have hheaders : ∀ nlf, ∀ header ∈ fsm.headers,
      (fsm.terminate nlf).EndsInside header := fun nlf header hheader =>
    (hbefore header hheader).terminate nlf
  generalize fsm.recvHeader = next at hmoves
  cases hmoves with
  | waits => exact hbefore
  | halts => exact hbefore
  | @haltsBehind _ _ nlf =>
      rw [terminate_headers]
      exact hheaders nlf
  | endsHeader =>
      obtain ⟨version, res, mBuf, bd, bl, state, heq⟩ :=
        endHeader_eq (fsm.terminate fsm.recvLf)
      rw [heq, terminate_headers]
      exact hheaders fsm.recvLf
  | filesHeader hline =>
      obtain ⟨count, hcount⟩ := Nat.exists_eq_succ_of_ne_zero hline
      intro header hheader
      rw [addHeader, terminate_headers, List.mem_append,
        List.mem_singleton] at hheader
      rcases hheader with hbefore | hnew
      · exact hheaders fsm.recvLf header hbefore
      · refine ⟨fsm.mLen - 1, ?_, ?_, ?_⟩
        · rw [hnew, terminate_mBuf]
          exact Nat.le_sub_one_of_lt hbuf
        · change fsm.mLen - 1 < (fsm.terminate fsm.recvLf).mLen
          rw [terminate_mLen]
          omega
        · rw [hcount]
          exact mP_terminate_last count

/-- Behind the header neither header lines nor a handshake follow. -/
def BehindHeader (state : State) : Prop :=
  state ≠ .recvHeader ∧ state ≠ .websocketEstablish

instance (state : State) : Decidable (BehindHeader state) :=
  inferInstanceAs (Decidable (_ ∧ _))

theorem behindHeader_recv (hstate : BehindHeader fsm.state) :
    BehindHeader fsm.recv.state := by
  have hnext := recv_state fsm
  have hbehind : ∀ state, BehindHeader state →
      ∀ next ∈ successors state, BehindHeader next := by
    intro state
    cases state <;> decide
  exact hbehind fsm.state hstate _ hnext

theorem Ended.recv_store (hended : Ended fsm) (hreceiving : fsm.Receiving)
    (hlen : fsm.mLen + 1 < 2 ^ 32) (byte : UInt8) :
    Ended (fsm.store byte).recv := by
  have hstored := hended.store hlen byte
  by_cases hstate : fsm.state = .recvHeader
  · have hheader : (fsm.store byte).state = .recvHeader := by
      rw [store_state, hstate]
    have hbuf : (fsm.store byte).mBuf < (fsm.store byte).mLen := by
      rw [store_mBuf, store_mLen, Nat.mod_eq_of_lt hlen]
      exact Nat.lt_succ_of_le hended.mBuf
    rw [recv, hheader]
    exact ended_recvHeader hstored hheader hbuf
  · have hbehind : BehindHeader (fsm.store byte).state := by
      rw [store_state]
      exact ⟨hstate, hreceiving.2.2⟩
    have hnext := behindHeader_recv hbehind
    exact ⟨(received_recv _).mBuf hstored.mBuf, fun hheader =>
      absurd hheader (not_or.mpr hnext)⟩

theorem Ended.receive (hended : Ended fsm) {bytes : Bytes}
    (hroom : ∀ stored ∈ fsm.stores bytes, stored.mLen < stored.limit) :
    Ended (fsm.receive bytes) := by
  induction bytes generalizing fsm with
  | nil => exact hended
  | cons byte rest ih =>
      rcases state_cases fsm with hhalted | hestablished | hreceiving
      · rwa [receive_of_halted hhalted]
      · rwa [receive_of_established hestablished]
      · rw [stores_cons hreceiving, List.forall_mem_cons] at hroom
        have hlimit := limit_lt fsm
        rw [receive_cons hreceiving]
        exact ih (hended.recv_store hreceiving (by omega) byte) hroom.2

end Endings

/-! ## What the calls leave -/

/-- A parser behind a handshake that has stored some more bytes. -/
structure Trails (base fsm : HttpFSM) : Prop where
  established : base.state = .websocketEstablish
  state : fsm.state = base.state
  version : fsm.version = base.version
  res : fsm.res = base.res
  headers : fsm.headers = base.headers
  mLen : base.mLen ≤ fsm.mLen
  mP : ∀ index < base.mLen, fsm.mP index = base.mP index

/-- Some calls have received the same bytes, one of which may have completed a
handshake. -/
def Extends (base fsm : HttpFSM) : Prop := fsm = base ∨ Trails base fsm

section Extends

variable {base fsm : HttpFSM}

theorem Trails.store (htrails : Trails base fsm)
    (hlen : fsm.mLen + 1 < 2 ^ 32) (byte : UInt8) :
    Trails base (fsm.store byte) := by
  have hbelow := htrails.mLen
  have hstored : (fsm.store byte).mLen = fsm.mLen + 1 := by
    rw [store_mLen, Nat.mod_eq_of_lt hlen]
  have hbytes : ∀ index < base.mLen,
      (fsm.store byte).mP index = base.mP index := by
    intro index hindex
    rw [store_mP, Nat.mod_eq_of_lt hlen, Function.update_of_ne (by omega),
      Function.update_of_ne (by omega), htrails.mP index hindex]
  exact ⟨htrails.established, (store_state byte fsm).trans htrails.state,
    (store_version byte fsm).trans htrails.version,
    (store_res byte fsm).trans htrails.res,
    (store_headers byte fsm).trans htrails.headers, by omega, hbytes⟩

theorem trails_refl (hestablished : base.state = .websocketEstablish) :
    Trails base base :=
  ⟨hestablished, rfl, rfl, rfl, rfl, le_rfl, fun _ _ => rfl⟩

theorem Trails.append (htrails : Trails base fsm) {bytes : Bytes}
    (hroom : ∀ stored ∈ fsm.stores bytes, stored.mLen < stored.limit) :
    Trails base (fsm.append bytes) := by
  cases bytes with
  | nil => exact htrails
  | cons byte rest =>
      have hestablished := htrails.state.trans htrails.established
      rw [stores_cons_of_established hestablished] at hroom
      have hbelow := hroom fsm List.mem_cons_self
      have hlimit := limit_lt fsm
      rw [append_cons_of_established hestablished]
      exact htrails.store (by omega) byte

theorem extends_append {bytes : Bytes}
    (hroom : ∀ stored ∈ fsm.stores bytes, stored.mLen < stored.limit) :
    Extends (fsm.receive bytes) (fsm.append bytes) := by
  induction bytes generalizing fsm with
  | nil => exact .inl rfl
  | cons byte rest ih =>
      rcases state_cases fsm with hhalted | hestablished | hreceiving
      · rw [receive_of_halted hhalted, append_of_halted hhalted]
        exact .inl rfl
      · rw [receive_of_established hestablished]
        exact .inr ((trails_refl hestablished).append hroom)
      · rw [stores_cons hreceiving, List.forall_mem_cons] at hroom
        rw [receive_cons hreceiving, append_cons hreceiving]
        exact ih hroom.2

/-- One more call on both sides. -/
theorem Extends.append (hextends : Extends base fsm) {bytes : Bytes}
    (hroom : ∀ stored ∈ fsm.stores bytes, stored.mLen < stored.limit) :
    Extends (base.receive bytes) (fsm.append bytes) := by
  rcases hextends with rfl | htrails
  · exact extends_append hroom
  · rw [receive_of_established htrails.established]
    exact .inr (htrails.append hroom)

theorem Extends.appendAll (hextends : Extends base fsm) (hended : Ended base)
    {calls : List Bytes} (hroom : fsm.NeverExpands calls) :
    Extends (base.receive calls.flatten) (fsm.appendAll calls) ∧
      Ended (base.receive calls.flatten) := by
  induction calls generalizing base fsm with
  | nil => exact ⟨hextends, hended⟩
  | cons bytes calls ih =>
      have hhere : ∀ stored ∈ fsm.stores bytes, stored.mLen < stored.limit :=
        fun stored hstored =>
          hroom stored (List.mem_append_left _ hstored)
      have hlater : (fsm.append bytes).NeverExpands calls :=
        fun stored hstored => hroom stored (List.mem_append_right _ hstored)
      rw [List.flatten_cons, receive_append]
      refine ih (hextends.append hhere) ?_ hlater
      rcases hextends with rfl | htrails
      · exact hended.receive hhere
      · rwa [receive_of_established htrails.established]

/-- A C string that ends inside a prefix of the content. -/
theorem takeWhile_drop_append {left right : Bytes} {offset nul : ℕ}
    (hstart : offset ≤ nul) (hnul : left[nul]? = some 0) :
    ((left ++ right).drop offset).takeWhile (fun byte => byte ≠ 0) =
      (left.drop offset).takeWhile fun byte => byte ≠ 0 := by
  have hinside := (List.getElem?_eq_some_iff.mp hnul).1
  have hzero : (0 : UInt8) ∈ left.drop offset := by
    have hat : (left.drop offset)[nul - offset]? = some 0 := by
      rw [List.getElem?_drop, Nat.add_sub_cancel' hstart, hnul]
    exact List.mem_of_getElem? hat
  rw [List.drop_append_of_le_length (by omega), List.takeWhile_append,
    if_neg]
  intro hlength
  have hall := List.takeWhile_eq_self_iff.mp
    ((List.takeWhile_prefix _).eq_of_length hlength)
  exact absurd (hall 0 hzero) (by decide)

theorem Trails.content (htrails : Trails base fsm) :
    fsm.content = base.content ++ fsm.content.drop base.mLen := by
  have htake : base.content = fsm.content.take base.mLen := by
    unfold HttpFSM.content
    rw [← List.map_take, List.take_range, Nat.min_eq_left htrails.mLen]
    exact List.map_congr_left fun index hindex =>
      (htrails.mP index (List.mem_range.mp hindex)).symm
  rw [htake, List.take_append_drop]

theorem Trails.cstr (htrails : Trails base fsm) {header : Header}
    (hends : base.EndsInside header) :
    fsm.cstr header.hd = base.cstr header.hd := by
  obtain ⟨nul, hstart, hinside, hzero⟩ := hends
  have hnul : base.content[nul]? = some 0 := by
    unfold HttpFSM.content
    rw [List.getElem?_map, List.getElem?_range hinside, Option.map_some, hzero]
  unfold HttpFSM.cstr
  rw [htrails.content]
  exact takeWhile_drop_append hstart hnul

theorem sameMessage_refl (fsm : HttpFSM) : SameMessage fsm fsm :=
  ⟨rfl, rfl, rfl, rfl, fun _ => rfl, fun _ => rfl, fun _ => rfl⟩

theorem Trails.sameMessage (htrails : Trails base fsm) (hended : Ended base) :
    SameMessage base fsm where
  state := htrails.state.symm
  version := htrails.version.symm
  res := htrails.res.symm
  hdrlen := congrArg List.length htrails.headers.symm
  hdr index := by
    have hends := hended.headers (.inr htrails.established)
    rw [hdr, hdr, htrails.headers]
    cases hheader : base.headers[index]? with
    | none => rfl
    | some header =>
        have hcstr := htrails.cstr
          (hends header (List.mem_of_getElem? hheader))
        rw [Option.map_some, Option.map_some, hcstr]
  bodylen hfinish := absurd (htrails.established.symm.trans hfinish) (by decide)
  body hfinish := absurd (htrails.established.symm.trans hfinish) (by decide)

theorem Extends.sameMessage (hextends : Extends base fsm)
    (hended : Ended base) : SameMessage base fsm := by
  rcases hextends with rfl | htrails
  · exact sameMessage_refl fsm
  · exact htrails.sameMessage hended

/-- No parser that takes no more bytes trails another. -/
theorem Extends.eq_of_halted (hextends : Extends base fsm)
    (hhalted : base.Halted ∨ fsm.Halted) : fsm = base := by
  refine hextends.resolve_right fun htrails => ?_
  have hestablished := htrails.established
  have hstate := htrails.state.trans hestablished
  simp [Halted, hestablished, hstate] at hhalted

end Extends

section Cuts

variable {chunkSize : ℕ} {memory : ℕ → UInt8} {fsm : HttpFSM}

theorem extends_of_cut {bytes : Bytes} (cut : Cut bytes)
    (hroom : (fsm.reset chunkSize memory).NeverExpands cut.pieces) :
    Extends ((fsm.reset chunkSize memory).receive bytes)
        ((fsm.reset chunkSize memory).appendAll cut.pieces) ∧
      Ended ((fsm.reset chunkSize memory).receive bytes) := by
  have hstart : Extends (fsm.reset chunkSize memory)
      (fsm.reset chunkSize memory) := .inl rfl
  have hall := hstart.appendAll (ended_reset chunkSize memory fsm) hroom
  rwa [cut.flatten] at hall

theorem sameMessage_of_cut {bytes : Bytes} (cut : Cut bytes)
    (hroom : (fsm.reset chunkSize memory).NeverExpands cut.pieces) :
    SameMessage ((fsm.reset chunkSize memory).receive bytes)
      ((fsm.reset chunkSize memory).appendAll cut.pieces) := by
  obtain ⟨hextends, hended⟩ := extends_of_cut cut hroom
  exact hextends.sameMessage hended

end Cuts

end HttpFSM

/-- Each byte is a piece of its own. -/
def Cut.singly (bytes : Bytes) : Cut bytes where
  pieces := HttpFSM.singly bytes
  nonempty := by simp [HttpFSM.singly]
  flatten := HttpFSM.flatten_singly bytes

namespace HttpFSM

/-- For every stream and every two ways of cutting it the parser ends with the
same message, in particular with the message that feeding it byte by byte ends
with, and what follows the byte that finishes or fails has no effect. -/
theorem append_cut_independent {bytes : Bytes} (left right : Cut bytes)
    (chunkSize : ℕ) (memory : ℕ → UInt8) (fsm : HttpFSM)
    (hleft : (fsm.reset chunkSize memory).NeverExpands left.pieces)
    (hright : (fsm.reset chunkSize memory).NeverExpands right.pieces) :
    SameMessage ((fsm.reset chunkSize memory).appendAll left.pieces)
        ((fsm.reset chunkSize memory).appendAll right.pieces) ∧
      ((fsm.reset chunkSize memory).NeverExpands (singly bytes) →
        SameMessage ((fsm.reset chunkSize memory).appendAll left.pieces)
          ((fsm.reset chunkSize memory).feed bytes)) ∧
      ∀ (read rest : Bytes) (early : Cut read), bytes = read ++ rest →
        (fsm.reset chunkSize memory).NeverExpands early.pieces →
        ((fsm.reset chunkSize memory).appendAll early.pieces).Halted →
        (fsm.reset chunkSize memory).appendAll left.pieces =
          (fsm.reset chunkSize memory).appendAll early.pieces := by
  have hcut := sameMessage_of_cut left hleft
  refine ⟨hcut.symm.trans (sameMessage_of_cut right hright),
    fun hsingly =>
      hcut.symm.trans (sameMessage_of_cut (Cut.singly bytes) hsingly), ?_⟩
  intro read rest early hsplit hearly hhalted
  have hread := (extends_of_cut early hearly).1.eq_of_halted (.inr hhalted)
  rw [hread] at hhalted
  have hall : (fsm.reset chunkSize memory).receive bytes =
      (fsm.reset chunkSize memory).receive read := by
    rw [hsplit, receive_append, receive_of_halted hhalted]
  have hleftEq := (extends_of_cut left hleft).1.eq_of_halted
    (.inl (hall.symm ▸ hhalted))
  rw [hleftEq, hall, hread]

/-- A request cut inside the line end. -/
def requestCut : Cut (ascii "GET / HTTP/1.1\r\n\r\n") where
  pieces := [ascii "GET / HTTP/1.1\r", ascii "\n\r\n"]
  nonempty := by decide
  flatten := rfl

theorem append_cut_independent_request :
    SameMessage ((blank.reset 512 fun _ => 0).appendAll requestCut.pieces)
        ((blank.reset 512 fun _ => 0).appendAll
          (Cut.singly (ascii "GET / HTTP/1.1\r\n\r\n")).pieces) ∧
      ((blank.reset 512 fun _ => 0).NeverExpands
          (singly (ascii "GET / HTTP/1.1\r\n\r\n")) →
        SameMessage ((blank.reset 512 fun _ => 0).appendAll requestCut.pieces)
          ((blank.reset 512 fun _ => 0).feed
            (ascii "GET / HTTP/1.1\r\n\r\n"))) ∧
      ∀ (read rest : Bytes) (early : Cut read),
        ascii "GET / HTTP/1.1\r\n\r\n" = read ++ rest →
        (blank.reset 512 fun _ => 0).NeverExpands early.pieces →
        ((blank.reset 512 fun _ => 0).appendAll early.pieces).Halted →
        (blank.reset 512 fun _ => 0).appendAll requestCut.pieces =
          (blank.reset 512 fun _ => 0).appendAll early.pieces :=
  append_cut_independent requestCut (Cut.singly _) 512 _ blank
    (neverExpands_of_short (by decide) _ _ (by decide))
    (neverExpands_of_short (by decide) _ _ (by decide))

end HttpFSM

end GrpcMtk.Http
