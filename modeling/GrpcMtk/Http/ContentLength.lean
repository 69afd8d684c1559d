import GrpcMtk.Http.Chunked

/-!
# Counted bodies

A header block with a `Content-Length` line, followed by as many bytes as the
line says.  The end of the body is looked for after each byte behind the empty
line, so a body of no bytes at all is never found to be complete.
-/

namespace GrpcMtk.Http

open GrpcMtk.Proto

/-- A message whose body is as long as its first `Content-Length` line says. -/
structure CountedMessage where
  ending : Bytes
  lineEnd : HttpFSM.LineEnd ending
  before : List Line
  key : Bytes
  key_eq : key.map tolower = contentLength.map tolower
  count : Bytes
  decimal : IsDecimal count
  short : count.length < 256
  announcement : Line
  announcement_eq : announcement.text = key ++ (ascii ": " ++ count)
  after : List Line
  body : Bytes
  value : decimalValue count = body.length
  small : body.length < 2 ^ 31
  first : ∀ line ∈ before, ¬StartsWith contentLength line.text

namespace HttpFSM

section Receiving

variable {fsm : HttpFSM}

/-- A header block that announces a counted body. -/
theorem view_endHeader_of_counted {cl : ℤ}
    (hlength : fsm.setResult.hdrint "Content-Length" = some cl) :
    fsm.endHeader.view =
      { fsm.view with
        state := .recvBodyNochunk
        bd := some fsm.mLen
        bl := toUInt32 cl } := by
  rw [endHeader]
  dsimp only
  rw [hlength]
  rfl

theorem recv_of_counting (hstate : fsm.state = .recvBodyNochunk)
    (hdata : fsm.mLen < fsm.bd.getD 0 + fsm.bl) : fsm.recv = fsm := by
  rw [recv, hstate]
  dsimp only
  rw [recvBodyNochunk]
  exact if_pos (by omega)

theorem recv_of_counted (hstate : fsm.state = .recvBodyNochunk)
    (hdata : fsm.mLen = fsm.bd.getD 0 + fsm.bl) :
    fsm.recv = { fsm with state := .recvFinish } := by
  rw [recv, hstate]
  dsimp only
  rw [recvBodyNochunk, if_neg (by omega), if_neg (by omega)]

/-- Before the last byte of the body the parser waits for more. -/
theorem view_feed_counted {data : Bytes} (hstate : fsm.state = .recvBodyNochunk)
    (hdata : fsm.mLen + data.length < fsm.bd.getD 0 + fsm.bl)
    (hroom : fsm.NeverExpands (singly data)) :
    (fsm.feed data).view =
      { fsm.view with content := fsm.content ++ data } := by
  induction data generalizing fsm with
  | nil => simp [view]
  | cons byte rest ih =>
      have hreceiving : fsm.Receiving := by simp [Receiving, hstate]
      rw [List.length_cons] at hdata
      rw [neverExpands_singly_cons hreceiving] at hroom
      have hlimit := limit_lt fsm
      have hlen : fsm.mLen + 1 < 2 ^ 32 := by omega
      have hstored : (fsm.store byte).mLen = fsm.mLen + 1 := by
        rw [store_mLen, Nat.mod_eq_of_lt hlen]
      have hsame := (store_state byte fsm).trans hstate
      have hrecv : (fsm.store byte).recv = fsm.store byte :=
        recv_of_counting hsame (by rw [hstored, store_bd, store_bl]; omega)
      rw [hrecv] at hroom
      rw [feed_cons, append_singleton hreceiving, hrecv,
        ih hsame (by rw [hstored, store_bd, store_bl]; omega) hroom.2,
        view_store byte hlen, content_store byte hlen, List.append_assoc]
      rfl

/-- The last byte of the body ends the message. -/
theorem view_feed_lastByte {byte : UInt8}
    (hstate : fsm.state = .recvBodyNochunk)
    (hdata : fsm.mLen + 1 = fsm.bd.getD 0 + fsm.bl)
    (hroom : fsm.NeverExpands (singly [byte])) :
    (fsm.feed [byte]).view =
      { fsm.view with
        state := .recvFinish
        content := fsm.content ++ [byte] } := by
  have hreceiving : fsm.Receiving := by simp [Receiving, hstate]
  rw [neverExpands_singly_cons hreceiving] at hroom
  have hlimit := limit_lt fsm
  have hlen : fsm.mLen + 1 < 2 ^ 32 := by omega
  have hstored : (fsm.store byte).mLen = (fsm.store byte).bd.getD 0 +
      (fsm.store byte).bl := by
    rw [store_mLen, Nat.mod_eq_of_lt hlen, store_bd, store_bl, hdata]
  rw [feed_cons, feed_nil, append_singleton hreceiving,
    recv_of_counted ((store_state byte fsm).trans hstate) hstored,
    view_setState, view_store byte hlen]

end Receiving

/-! ## A chunked body -/

/-- The states of a chunked body, and its two ends. -/
def ChunkState (state : State) : Prop :=
  state = .recvBody ∨ state = .recvBodylen ∨ state = .recvFooter ∨
    state = .recvComment ∨ state = .recvFinish ∨ state = .error

/-- While a chunked body is read `bl` changes only where the parser goes back
to the start of a size line. -/
structure Rewinds (fsm next : HttpFSM) : Prop where
  state : ChunkState next.state
  bd : next.bd = fsm.bd
  bl : next.bl = fsm.bl ∨ next.mLen ≤ fsm.mBuf

section Rewinding

variable {fsm : HttpFSM}

theorem chunkState_of_halts {state : State}
    (hhalts : state = .error ∨ state = .recvFinish) : ChunkState state := by
  rcases hhalts with rfl | rfl <;> simp [ChunkState]

theorem rewinds_of_eq {next : HttpFSM} (hstate : ChunkState next.state)
    (hbd : next.bd = fsm.bd) (hbl : next.bl = fsm.bl) : Rewinds fsm next :=
  ⟨hstate, hbd, .inl hbl⟩

theorem Moves.rewinds {next : HttpFSM} {state : State}
    (hmoves : Moves fsm state next) (hfsm : fsm.state = state)
    (hstate : ChunkState state) : Rewinds fsm next := by
  cases hmoves with
  | waits => exact rewinds_of_eq (hfsm ▸ hstate) rfl rfl
  | halts _ hhalts =>
      exact rewinds_of_eq (chunkState_of_halts hhalts) rfl rfl
  | haltsBehind _ hhalts =>
      exact rewinds_of_eq (chunkState_of_halts hhalts) (by simp) (by simp)
  | endsHeader => simp [ChunkState] at hstate
  | filesHeader => simp [ChunkState] at hstate
  | filesTrailer =>
      exact rewinds_of_eq (by simp [ChunkState, addHeader, hfsm])
        (by simp [addHeader]) (by simp [addHeader])
  | endsChunk => exact rewinds_of_eq (by simp [ChunkState]) rfl rfl
  | sizes hends =>
      refine ⟨?_, by simp, .inr ?_⟩
      · cases hends <;> simp [ChunkState]
      · simp only [terminate_mLen, terminate_mBuf]
        omega
  | lastSize =>
      exact rewinds_of_eq (by simp [ChunkState]) (by simp) (by simp)
  | endsComment => exact rewinds_of_eq (by simp [ChunkState]) rfl rfl

end Rewinding

/-- Of the bytes fed since the empty line, all are in the buffer only as long
as no chunk was announced. -/
structure Shrunk (start fed : ℕ) (fsm : HttpFSM) : Prop where
  state : ChunkState fsm.state
  bd : fsm.bd = some start
  mBuf : fsm.mBuf ≤ fsm.mLen
  mLen : fsm.mLen ≤ start + fed
  bl : fsm.bl = 0 ∨ fsm.mLen < start + fed

theorem Shrunk.append {start fed : ℕ} {fsm : HttpFSM}
    (hshrunk : Shrunk start fed fsm) {byte : UInt8}
    (hroom : fsm.NeverExpands (singly [byte])) :
    Shrunk start (fed + 1) (fsm.append [byte]) := by
  have hmLen := hshrunk.mLen
  have hmBuf := hshrunk.mBuf
  rcases state_cases fsm with hhalted | hestablished | hreceiving
  · rw [append_of_halted hhalted]
    exact ⟨hshrunk.state, hshrunk.bd, hmBuf, by omega, .inr (by omega)⟩
  · have hstate := hshrunk.state
    simp [ChunkState, hestablished] at hstate
  · rw [neverExpands_singly_cons hreceiving] at hroom
    have hlimit := limit_lt fsm
    have hstored : (fsm.store byte).mLen = fsm.mLen + 1 := by
      rw [store_mLen, Nat.mod_eq_of_lt (by omega)]
    have hbuf := store_mBuf byte fsm
    have hreceived := received_recv (fsm.store byte)
    have hrewinds : Rewinds (fsm.store byte) (fsm.store byte).recv :=
      (moves_recv _).rewinds rfl
        ((store_state byte fsm).symm ▸ hshrunk.state)
    have hlen := hreceived.mLen
    rw [append_singleton hreceiving]
    refine ⟨hrewinds.state, ?_, hreceived.mBuf (by omega), by omega, ?_⟩
    · rw [hrewinds.bd, store_bd, hshrunk.bd]
    · rcases hrewinds.bl with hsame | hback
      · rw [hsame, store_bl]
        rcases hshrunk.bl with hzero | hless
        · exact .inl hzero
        · exact .inr (by omega)
      · exact .inr (by omega)

theorem Shrunk.feed {start fed : ℕ} {fsm : HttpFSM}
    (hshrunk : Shrunk start fed fsm) {bytes : Bytes}
    (hroom : fsm.NeverExpands (singly bytes)) :
    Shrunk start (fed + bytes.length) (fsm.feed bytes) := by
  induction bytes generalizing fsm fed with
  | nil => exact hshrunk
  | cons byte rest ih =>
      obtain ⟨hhere, hrest⟩ :=
        (@neverExpands_feed_append [byte] rest fsm).mp hroom
      have hnext := ih (hshrunk.append hhere) hrest
      rw [List.length_cons, Nat.add_comm rest.length, ← Nat.add_assoc]
      exact hnext

end HttpFSM

namespace CountedMessage

variable (message : CountedMessage)

def lines : List Line :=
  message.before ++ message.announcement :: message.after

def block : Bytes := wireLines message.ending message.lines ++ message.ending

def wire : Bytes := message.block ++ message.body

/-- The header block in the buffer. -/
def head : Bytes :=
  keptLines message.ending message.lines ++
    List.replicate message.ending.length 0

/-- The lookup of the length is not given up at a line before it. -/
def KeysFit : Prop :=
  ∀ line ∈ message.before, ¬Outruns contentLength line.text

instance : Decidable message.KeysFit :=
  inferInstanceAs (Decidable (∀ line ∈ message.before, _))

variable {message}

theorem lines_ne_nil : message.lines ≠ [] :=
  List.append_ne_nil_of_right_ne_nil _ (List.cons_ne_nil _ _)

theorem announcement_not_outruns :
    ¬Outruns contentLength message.announcement.text := by
  have hshared := shared_le_length contentLength message.announcement.text
  have hname : message.key.length = contentLength.length := by
    rw [← List.length_map tolower, message.key_eq, List.length_map]
  have hlength : message.announcement.text.length =
      14 + (2 + message.count.length) := by
    rw [message.announcement_eq, List.length_append, List.length_append, hname]
    rfl
  have hkey : contentLength.length = 14 := rfl
  have hshort := message.short
  rw [Outruns]
  omega

/-- What the lookup of the length finds. -/
theorem findKey_announcement :
    findKey contentLength 256
        ((message.lines.map fun line => line.text).map withLength) =
      if message.KeysFit then some message.count else none := by
  obtain ⟨first, rest, hcount⟩ := List.exists_cons_of_ne_nil message.decimal.1
  have hfirst : isBlank first = false := by
    have hdigit := message.decimal.2 first (hcount ▸ List.mem_cons_self)
    rw [isBlank, decide_eq_false_iff_not]
    rintro (rfl | rfl) <;> contradiction
  have hvalue : (ascii ": " ++ message.count).dropWhile isBlank =
      message.count := by
    rw [hcount]
    change ((58 : UInt8) :: 32 :: first :: rest).dropWhile isBlank = _
    rw [List.dropWhile_cons_of_pos rfl, List.dropWhile_cons_of_pos rfl,
      List.dropWhile_cons_of_neg (by rw [hfirst]; decide)]
  have hshort := message.short
  rw [lines, findKey_first message.first message.key_eq
    message.announcement_eq announcement_not_outruns, hvalue]
  by_cases hfit : message.KeysFit
  · rw [if_pos hfit, if_neg, if_neg (by omega)]
    rintro ⟨other, hmem, houtruns⟩
    exact hfit other hmem houtruns
  · rw [if_neg hfit, if_pos]
    rw [KeysFit] at hfit
    push Not at hfit
    exact hfit

/-- What is read of a message from a fresh parser, once it is fed. -/
structure Delivered (message : CountedMessage) (fsm : HttpFSM) : Prop where
  finished : (fsm.feed message.wire).state = .recvFinish
  notBefore : ∀ read rest, message.wire = read ++ rest → rest ≠ [] →
    (fsm.feed read).state ≠ .recvFinish
  bodylen : (fsm.feed message.wire).bodylen = message.body.length
  body : (fsm.feed message.wire).body = some message.body
  inBounds : ∀ stored ∈ fsm.storesAll (HttpFSM.singly message.wire),
    stored.InBounds

section Feeding

variable {fsm : HttpFSM}

theorem hdrint_announcement {stored : HttpFSM}
    (hat : HttpFSM.AtEmptyLine message.ending message.lines stored) :
    (stored.terminate message.ending.length).setResult.hdrint
        "Content-Length" =
      if message.KeysFit then some (message.body.length : ℤ) else none := by
  have hfound := hat.hdrstr_eq message.lineEnd "Content-Length" 256
  rw [show ascii "Content-Length" = contentLength from rfl,
    findKey_announcement] at hfound
  have hsmall := message.small
  have hstoi := stoi_of_isDecimal message.decimal
    (by rw [message.value]; exact hsmall)
  rw [message.value] at hstoi
  by_cases hfit : message.KeysFit
  · rw [if_pos hfit] at hfound ⊢
    rw [HttpFSM.hdrint, hfound]
    dsimp only
    rw [hstoi]
  · rw [if_neg hfit] at hfound ⊢
    exact HttpFSM.hdrint_of_hdrstr_none hfound

/-- The header block announces the body. -/
theorem view_feed_block (hfit : message.KeysFit)
    (hcount : message.lines.length ≤ HttpFSM.maxHeader)
    (hview : fsm.view = ⟨.recvHeader, [], 0, [], none, fsm.bl⟩)
    (hroom : fsm.NeverExpands (HttpFSM.singly message.block)) :
    (fsm.feed message.block).view =
      { state := .recvBodyNochunk
        content := message.head
        mBuf := (keptLines message.ending message.lines).length
        headers := lineEntries message.ending 0 message.lines
        bd := some message.head.length
        bl := message.body.length } := by
  obtain ⟨stored, hfeed, hat⟩ := @HttpFSM.feed_block fsm message.ending
    message.lines message.lineEnd hview hcount hroom
  have hlength := hdrint_announcement hat
  rw [if_pos hfit] at hlength
  have hkept : (stored.terminate message.ending.length).view =
      { stored.view with content := message.head } :=
    HttpFSM.view_terminate hat.content
  have hlen : (stored.terminate message.ending.length).mLen =
      message.head.length := by
    rw [← HttpFSM.length_content]
    exact congrArg (fun view => view.content.length) hkept
  have hsmall := message.small
  have hbl : toUInt32 (message.body.length : ℤ) = message.body.length := by
    rw [toUInt32]
    omega
  rw [block, hfeed, hat.recv_eq message.lineEnd lines_ne_nil,
    HttpFSM.view_endHeader_of_counted hlength, hkept, hlen, hbl]
  simp only [HttpFSM.view, hat.headers, hat.mBuf]

/-- A body of at least one byte is delivered with its last byte. -/
theorem view_feed_wire (hbody : message.body ≠ []) (hfit : message.KeysFit)
    (hcount : message.lines.length ≤ HttpFSM.maxHeader)
    (hview : fsm.view = ⟨.recvHeader, [], 0, [], none, fsm.bl⟩)
    (hroom : fsm.NeverExpands (HttpFSM.singly message.wire)) :
    (∃ init byte, message.wire = init ++ [byte] ∧
      (fsm.feed init).state = .recvBodyNochunk) ∧
      (fsm.feed message.wire).view =
        { state := .recvFinish
          content := message.head ++ message.body
          mBuf := (keptLines message.ending message.lines).length
          headers := lineEntries message.ending 0 message.lines
          bd := some message.head.length
          bl := message.body.length } := by
  obtain ⟨data, byte, hsplit⟩ :=
    (List.eq_nil_or_concat message.body).resolve_left hbody
  rw [List.concat_eq_append] at hsplit
  have hlength : message.body.length = data.length + 1 := by
    rw [hsplit, List.length_append, List.length_singleton]
  obtain ⟨hblock, hrest⟩ := HttpFSM.neverExpands_feed_append.mp hroom
  have hread := view_feed_block hfit hcount hview hblock
  have hwire : message.wire = message.block ++ data ++ [byte] := by
    rw [wire, hsplit, List.append_assoc]
  rw [hsplit] at hrest
  obtain ⟨hdata, hlast⟩ := HttpFSM.neverExpands_feed_append.mp hrest
  rw [hwire, HttpFSM.feed_append, HttpFSM.feed_append]
  generalize hnext : fsm.feed message.block = next at hread hdata hlast ⊢
  have hcontent : next.content = message.head :=
    congrArg HttpFSM.View.content hread
  have hlen : next.mLen = message.head.length := by
    rw [← HttpFSM.length_content, hcontent]
  have hbd : next.bd = some message.head.length :=
    congrArg HttpFSM.View.bd hread
  have hbl : next.bl = message.body.length := congrArg HttpFSM.View.bl hread
  have hcounted := HttpFSM.view_feed_counted
    (congrArg HttpFSM.View.state hread)
    (by rw [hlen, hbd, hbl, hlength, Option.getD_some]; omega) hdata
  have hstate : (next.feed data).state = .recvBodyNochunk :=
    (congrArg HttpFSM.View.state hcounted).trans
      (congrArg HttpFSM.View.state hread)
  have hbefore : (next.feed data).content = message.head ++ data :=
    (congrArg HttpFSM.View.content hcounted).trans
      (congrArg (· ++ data) hcontent)
  have hfull : (next.feed data).mLen + 1 =
      (next.feed data).bd.getD 0 + (next.feed data).bl := by
    have hsameBd : (next.feed data).bd = next.bd :=
      congrArg HttpFSM.View.bd hcounted
    have hsameBl : (next.feed data).bl = next.bl :=
      congrArg HttpFSM.View.bl hcounted
    rw [← HttpFSM.length_content, hbefore, hsameBd, hsameBl, hbd, hbl, hlength,
      List.length_append, Option.getD_some, Nat.add_assoc]
  refine ⟨⟨message.block ++ data, byte, rfl, ?_⟩, ?_⟩
  · rw [HttpFSM.feed_append, hnext]
    exact hstate
  · rw [HttpFSM.view_feed_lastByte hstate hfull hlast, hcounted, hbefore,
      hread, hsplit, List.append_assoc]

theorem delivered_of_block (hbody : message.body ≠ [])
    (hfit : message.KeysFit)
    (hcount : message.lines.length ≤ HttpFSM.maxHeader)
    (hview : fsm.view = ⟨.recvHeader, [], 0, [], none, fsm.bl⟩)
    (hroom : fsm.NeverExpands (HttpFSM.singly message.wire))
    (hbounds : ∀ stored ∈ fsm.storesAll (HttpFSM.singly message.wire),
      stored.InBounds) : Delivered message fsm := by
  obtain ⟨⟨init, byte, hlast, hbefore⟩, hfinal⟩ :=
    view_feed_wire hbody hfit hcount hview hroom
  have hbl : (fsm.feed message.wire).bl = message.body.length :=
    congrArg HttpFSM.View.bl hfinal
  have hbd : (fsm.feed message.wire).bd = some message.head.length :=
    congrArg HttpFSM.View.bd hfinal
  have hcontent : (fsm.feed message.wire).content =
      message.head ++ message.body := congrArg HttpFSM.View.content hfinal
  refine ⟨congrArg HttpFSM.View.state hfinal, ?_, ?_, ?_, hbounds⟩
  · intro read rest
    exact HttpFSM.state_ne_recvFinish hlast (by rw [hbefore]; decide)
  · rw [HttpFSM.bodylen, hbl, toInt_of_lt message.small]
  · rw [HttpFSM.body, hbd, hbl, hcontent, Option.map_some, List.drop_left,
      List.take_length]

/-- A message whose length is not found is not delivered. -/
theorem not_delivered_of_outrun (hfit : ¬message.KeysFit)
    (hcount : message.lines.length ≤ HttpFSM.maxHeader)
    (hview : fsm.view = ⟨.recvHeader, [], 0, [], none, fsm.bl⟩)
    (hroom : fsm.NeverExpands (HttpFSM.singly message.wire)) :
    ¬Delivered message fsm := by
  intro hdelivered
  obtain ⟨hblock, hrest⟩ := HttpFSM.neverExpands_feed_append.mp hroom
  obtain ⟨stored, hfeed, hat⟩ := @HttpFSM.feed_block fsm message.ending
    message.lines message.lineEnd hview hcount hblock
  have hlength := hdrint_announcement hat
  rw [if_neg hfit] at hlength
  have hend : fsm.feed message.block =
      (stored.terminate message.ending.length).endHeader :=
    hfeed.trans (hat.recv_eq message.lineEnd lines_ne_nil)
  have hwire : fsm.feed message.wire =
      (fsm.feed message.block).feed message.body := HttpFSM.feed_append _ _ _
  have hfinished := hdelivered.finished
  have hread := hdelivered.body
  rw [hwire] at hfinished hread
  have hbuf : (stored.terminate message.ending.length).mBuf ≤
      (stored.terminate message.ending.length).mLen := by
    rw [HttpFSM.terminate_mBuf, HttpFSM.terminate_mLen, hat.mBuf,
      ← HttpFSM.length_content, hat.content, List.length_append]
    exact Nat.le_add_right _ _
  have hnone : (stored.terminate message.ending.length).bd = none := by
    rw [HttpFSM.terminate_bd, hat.bd]
  generalize stored.terminate message.ending.length = kept
    at hlength hend hbuf hnone
  generalize fsm.feed message.block = next
    at hend hrest hwire hfinished hread
  rcases HttpFSM.view_endHeader_of_uncounted hlength with hchunked | hother
  · rw [← hend] at hchunked
    have hnext : next.mLen = kept.mLen := by
      rw [← HttpFSM.length_content, ← HttpFSM.length_content]
      exact congrArg (fun view => view.content.length) hchunked
    have hstart : HttpFSM.Shrunk kept.mLen 0 next :=
      { state := .inr (.inl (congrArg HttpFSM.View.state hchunked))
        bd := congrArg HttpFSM.View.bd hchunked
        mBuf := by
          rw [hnext]
          exact Nat.le_of_eq (congrArg HttpFSM.View.mBuf hchunked)
        mLen := Nat.le_of_eq hnext
        bl := .inl (congrArg HttpFSM.View.bl hchunked) }
    have hshrunk := hstart.feed hrest
    rw [HttpFSM.body, hshrunk.bd, Option.map_some, Option.some.injEq] at hread
    have htaken := congrArg List.length hread
    rw [List.length_take, List.length_drop, HttpFSM.length_content] at htaken
    have hbl := hshrunk.bl
    have hempty : message.body = [] := by
      apply List.eq_nil_of_length_eq_zero
      omega
    rw [hempty, HttpFSM.feed_nil,
      show next.state = .recvBodylen from
        congrArg HttpFSM.View.state hchunked] at hfinished
    contradiction
  · obtain ⟨state, hstate, hhalted⟩ := hother
    rw [← hend] at hhalted
    have hnext : next.state = state := congrArg HttpFSM.View.state hhalted
    rcases hstate with rfl | rfl | rfl
    · rw [HttpFSM.feed_of_established hnext] at hfinished
      contradiction
    · rw [HttpFSM.feed_of_halted (.inl hnext), hnext] at hfinished
      contradiction
    · rw [HttpFSM.feed_of_halted (.inr hnext), HttpFSM.body,
        show next.bd = kept.bd from congrArg HttpFSM.View.bd hhalted,
        hnone] at hread
      contradiction

theorem Delivered.conditions (hdelivered : Delivered message fsm)
    (hview : fsm.view = ⟨.recvHeader, [], 0, [], none, fsm.bl⟩)
    (hroom : fsm.NeverExpands (HttpFSM.singly message.wire)) :
    message.body ≠ [] ∧ message.lines.length ≤ HttpFSM.maxHeader ∧
      message.KeysFit := by
  have hblock := (HttpFSM.neverExpands_feed_append.mp hroom).1
  have hcount : message.lines.length ≤ HttpFSM.maxHeader := by
    by_contra hmany
    have herror := HttpFSM.feed_block_tooMany message.lineEnd hview
      (Nat.lt_of_not_le hmany) (HttpFSM.neverExpands_feed_append.mp hblock).1
    have hfinished := hdelivered.finished
    rw [wire, block, HttpFSM.feed_append, HttpFSM.feed_append,
      HttpFSM.feed_of_halted (.inl herror),
      HttpFSM.feed_of_halted (.inl herror), herror] at hfinished
    contradiction
  have hfit : message.KeysFit := by
    by_contra houtrun
    exact not_delivered_of_outrun houtrun hcount hview hroom hdelivered
  refine ⟨?_, hcount, hfit⟩
  intro hempty
  have hread := view_feed_block hfit hcount hview hblock
  have hfinished := hdelivered.finished
  rw [wire, hempty, List.append_nil,
    show (fsm.feed message.block).state = .recvBodyNochunk from
      congrArg HttpFSM.View.state hread] at hfinished
  contradiction

end Feeding

/-- A counted message fed byte by byte into a buffer that needs no expansion
is delivered if and only if its body is not empty, its lines all get an entry
and its length is found. -/
theorem content_length (message : CountedMessage) {chunkSize : ℕ}
    (hpos : 0 < chunkSize) (hhigh : chunkSize < 2 ^ 32)
    (memory : ℕ → UInt8) (fsm : HttpFSM)
    (hroom : (fsm.reset chunkSize memory).NeverExpands
      (HttpFSM.singly message.wire)) :
    Delivered message (fsm.reset chunkSize memory) ↔
      message.body ≠ [] ∧ message.lines.length ≤ HttpFSM.maxHeader ∧
        message.KeysFit := by
  have hview := HttpFSM.view_reset chunkSize memory fsm
  constructor
  · intro hdelivered
    exact hdelivered.conditions hview hroom
  · rintro ⟨hbody, hcount, hfit⟩
    exact delivered_of_block hbody hfit hcount hview hroom
      (HttpFSM.inBounds_of_neverExpands hpos hhigh memory fsm hroom)

private def counted (count body : Bytes) (hcount : IsDecimal count)
    (hshort : count.length < 256) (hline : Printable count)
    (hvalue : decimalValue count = body.length)
    (hsmall : body.length < 2 ^ 31) : CountedMessage where
  ending := crlf
  lineEnd := lineEnd_crlf
  before := [⟨ascii "PUT / HTTP/1.1", by decide, by decide⟩]
  key := contentLength
  key_eq := rfl
  count := count
  decimal := hcount
  short := hshort
  announcement :=
    { text := contentLength ++ (ascii ": " ++ count)
      nonempty := List.cons_ne_nil _ _
      printable := by
        intro byte hbyte
        rcases List.mem_append.mp hbyte with hkey | hrest
        · exact (by decide : Printable contentLength) byte hkey
        · rcases List.mem_append.mp hrest with hblank | hdigit
          · exact (by decide : Printable (ascii ": ")) byte hblank
          · exact hline byte hdigit }
  announcement_eq := rfl
  after := []
  body := body
  value := hvalue
  small := hsmall
  first := List.forall_mem_singleton.mpr (by decide)

private def two : CountedMessage :=
  counted (ascii "2") (ascii "ok") (by decide) (by decide) (by decide)
    (by decide) (by decide)

theorem content_length_two :
    Delivered two (HttpFSM.blank.reset 512 fun _ => 0) ↔
      two.body ≠ [] ∧ two.lines.length ≤ HttpFSM.maxHeader ∧ two.KeysFit :=
  content_length two (by decide) (by decide) _ _
    (HttpFSM.neverExpands_of_short (by decide) _ _ (by decide))

private def zero : CountedMessage :=
  counted (ascii "0") [] (by decide) (by decide) (by decide) (by decide)
    (by decide)

/-- A message without a body is not found to be complete. -/
theorem content_length_fails :
    ¬Delivered zero (HttpFSM.blank.reset 512 fun _ => 0) := by
  intro hdelivered
  have hbody := (hdelivered.conditions (HttpFSM.view_reset 512 _ _)
    (HttpFSM.neverExpands_of_short (by decide) _ _ (by decide))).1
  exact hbody rfl

end CountedMessage

end GrpcMtk.Http
