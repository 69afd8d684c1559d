import GrpcMtk.Http.Keys
import GrpcMtk.Http.Numbers

/-!
# Chunked bodies

The parser decodes a chunked body in place: it goes back over each size line
and over the line end behind each chunk, so that the data of the chunks end up
one behind the other.  Between two chunks the content is the header block
followed by the data decoded so far, `m_buf` is its end, and `bl` counts the
data.
-/

namespace GrpcMtk.Http

open GrpcMtk.Proto

theorem lineEnd_crlf : HttpFSM.LineEnd crlf := .crlf

/-- A chunk: its size line and its data. -/
structure Chunk where
  size : Bytes
  data : Bytes
  nonempty : data ≠ []
  hex : IsHex size
  value : hexValue size = data.length
  small : data.length < 2 ^ 31

def Chunk.wire (chunk : Chunk) : Bytes :=
  chunk.size ++ crlf ++ (chunk.data ++ crlf)

namespace HttpFSM

section Receiving

variable {fsm : HttpFSM} {base : Bytes}

/-- Going back drops the end of the content. -/
theorem view_goBack {mLen : ℕ} (hlen : mLen ≤ fsm.mLen) (state : State)
    (mBuf bl : ℕ) :
    ({ fsm with state, mBuf, bl, mLen }).view =
      { fsm.view with
        state, mBuf, bl
        content := fsm.content.take mLen } := by
  have hcontent := @content_take fsm { fsm with state, mBuf, bl, mLen } rfl hlen
  simp only [view, hcontent]

/-- What `recv_bodylen` reads at the end of a size line. -/
theorem recv_sizeLine {size : Bytes} (hsize : IsHex size)
    (hstate : fsm.state = .recvBodylen)
    (hcontent : fsm.content = base ++ size ++ crlf)
    (hbuf : fsm.mBuf = base.length) :
    fsm.recv = fsm.takeSize 2 .recvBody ∧
      htoi ((fsm.terminate 2).cstr (fsm.terminate 2).mBuf)
        ((fsm.terminate 2).mLen - (fsm.terminate 2).mBuf) =
          some (toInt (hexValue size)) := by
  have hlen : fsm.mLen = base.length + size.length + 2 := by
    rw [← length_content, hcontent, List.length_append, List.length_append]
    rfl
  have hlf : fsm.recvLf = 2 := recvLf_of_crlf hcontent
    (List.append_ne_nil_of_right_ne_nil _ hsize.1)
  have hkept := @content_terminate fsm (base ++ size) crlf hcontent
  have hcstr : (fsm.terminate 2).cstr base.length = size :=
    cstr_of_content hkept (hsize.not_mem (by decide))
  constructor
  · rw [recv, hstate]
    dsimp only
    unfold recvBodylen
    dsimp only
    rw [hlf, if_pos (by decide)]
  · rw [terminate_mBuf, terminate_mLen, hbuf, hcstr]
    exact htoi_of_isHex hsize (by omega)

/-- The size line of a chunk. -/
theorem view_recv_size (chunk : Chunk) (hstate : fsm.state = .recvBodylen)
    (hcontent : fsm.content = base ++ chunk.size ++ crlf)
    (hbuf : fsm.mBuf = base.length)
    (htotal : fsm.bl + chunk.data.length < 2 ^ 32) :
    fsm.recv.view =
      { fsm.view with
        state := .recvBody
        content := base
        bl := fsm.bl + chunk.data.length } := by
  obtain ⟨hrecv, hhtoi⟩ := recv_sizeLine chunk.hex hstate hcontent hbuf
  have hpos := List.length_pos_of_ne_nil chunk.nonempty
  have hlen : fsm.mLen = base.length + chunk.size.length + 2 := by
    rw [← length_content, hcontent, List.length_append, List.length_append]
    rfl
  have hkept := @view_terminate fsm (base ++ chunk.size) crlf hcontent
  have hvalue := toInt_of_lt chunk.small
  have hback : (fsm.terminate 2).mLen -
      ((fsm.terminate 2).mLen - (fsm.terminate 2).mBuf) = base.length := by
    rw [terminate_mLen, terminate_mBuf]
    omega
  rw [chunk.value] at hhtoi
  rw [hrecv]
  unfold takeSize
  dsimp only
  rw [hhtoi]
  dsimp only
  rw [if_neg (by omega), hback, terminate_bl, toUInt32_add_toInt,
    Nat.mod_eq_of_lt htotal]
  refine (@view_goBack (fsm.terminate 2) base.length
    (by rw [terminate_mLen]; omega) _ _ _).trans ?_
  have htake : (fsm.terminate 2).content.take base.length = base := by
    rw [show (fsm.terminate 2).content = _ from congrArg View.content hkept,
      List.append_assoc, List.take_left]
  rw [htake]
  exact congrArg (fun view : View => { view with
    state := .recvBody
    content := base
    mBuf := (fsm.terminate 2).mBuf
    bl := fsm.bl + chunk.data.length }) hkept |>.trans
      (by rw [terminate_mBuf])

/-- The size line of the last chunk. -/
theorem view_recv_lastSize (hstate : fsm.state = .recvBodylen)
    (hcontent : fsm.content = base ++ ascii "0" ++ crlf)
    (hbuf : fsm.mBuf = base.length) :
    fsm.recv.view =
      { fsm.view with
        state := .recvFooter
        content := base ++ (ascii "0" ++ [0, 0])
        mBuf := base.length + 3 } := by
  obtain ⟨hrecv, hhtoi⟩ :=
    @recv_sizeLine fsm base (ascii "0") (by decide) hstate hcontent hbuf
  have hlen : fsm.mLen = base.length + 3 := by
    rw [← length_content, hcontent, List.length_append, List.length_append]
    rfl
  have hkept : (fsm.terminate 2).view =
      { fsm.view with content := base ++ ascii "0" ++ [0, 0] } :=
    @view_terminate fsm (base ++ ascii "0") crlf hcontent
  have hzero : toInt (hexValue (ascii "0")) = 0 := by decide
  rw [hzero] at hhtoi
  rw [hrecv]
  unfold takeSize
  dsimp only
  rw [hhtoi]
  dsimp only
  rw [if_pos rfl, ← List.append_assoc]
  calc _
    _ = { (fsm.terminate 2).view with
          state := .recvFooter
          mBuf := (fsm.terminate 2).mLen } := rfl
    _ = _ := by rw [hkept, terminate_mLen, hlen]

/-- A byte of the data of a chunk. -/
theorem recv_of_data (hstate : fsm.state = .recvBody)
    (hdata : fsm.mLen ≤ fsm.bd.getD 0 + fsm.bl) : fsm.recv = fsm := by
  rw [recv, hstate]
  dsimp only
  unfold recvBody
  dsimp only
  split
  · rfl
  · rw [if_pos (by omega)]

theorem view_feed_data {data : Bytes} (hstate : fsm.state = .recvBody)
    (hdata : fsm.mLen + data.length ≤ fsm.bd.getD 0 + fsm.bl)
    (hroom : fsm.NeverExpands (singly data)) :
    (fsm.feed data).view =
      { fsm.view with content := fsm.content ++ data } := by
  induction data generalizing fsm with
  | nil => simp [view]
  | cons byte rest ih =>
      have hreceiving : fsm.Receiving := by simp [Receiving, hstate]
      rw [List.length_cons] at hdata
      rw [neverExpands_singly_cons hreceiving] at hroom
      have hlimit := limit_lt fsm
      have hlen : fsm.mLen + 1 < 2 ^ 32 := by omega
      have hstored : (fsm.store byte).mLen = fsm.mLen + 1 := by
        rw [store_mLen, Nat.mod_eq_of_lt hlen]
      have hrecv : (fsm.store byte).recv = fsm.store byte :=
        recv_of_data ((store_state byte fsm).trans hstate)
          (by rw [hstored, store_bd, store_bl]; omega)
      rw [hrecv] at hroom
      rw [feed_cons, append_singleton hreceiving, hrecv,
        ih ((store_state byte fsm).trans hstate)
          (by rw [hstored, store_bd, store_bl]; omega) hroom.2,
        view_store byte hlen, content_store byte hlen, List.append_assoc]
      rfl

/-- The line end behind the data of a chunk. -/
theorem view_recv_chunkEnd (hstate : fsm.state = .recvBody)
    (hcontent : fsm.content = base ++ crlf) (hbase : base ≠ [])
    (hdata : fsm.bd.getD 0 + fsm.bl = base.length) :
    fsm.recv.view =
      { fsm.view with
        state := .recvBodylen
        content := base
        mBuf := base.length } := by
  have hlen : fsm.mLen = base.length + 2 := by
    rw [← length_content, hcontent, List.length_append]
    rfl
  have hlf : fsm.recvLf = 2 := recvLf_of_crlf hcontent hbase
  have hback : fsm.mLen - 2 = base.length := by omega
  rw [recv, hstate]
  dsimp only
  unfold recvBody
  dsimp only
  rw [hlf, if_neg (by decide), if_neg (by omega), if_neg (by omega), hback]
  refine (@view_goBack fsm base.length (by omega) _ _ _).trans ?_
  rw [hcontent, List.take_left]
  rfl

theorem view_feed_chunkEnd (hstate : fsm.state = .recvBody)
    (hcontent : fsm.content ≠ [])
    (hdata : fsm.bd.getD 0 + fsm.bl = fsm.mLen)
    (hroom : fsm.NeverExpands (singly crlf)) :
    (fsm.feed crlf).view =
      { fsm.view with state := .recvBodylen, mBuf := fsm.mLen } := by
  have hreceiving : fsm.Receiving := by simp [Receiving, hstate]
  rw [crlf, neverExpands_singly_cons hreceiving] at hroom
  have hlimit := limit_lt fsm
  have hlen : fsm.mLen + 1 < 2 ^ 32 := by omega
  have hstored := (store_state cr fsm).trans hstate
  have hcr : (fsm.store cr).recv = fsm.store cr := by
    have hlf := recvLf_of_ne (content_store cr hlen) (by decide)
    rw [recv, hstored]
    simp [recvBody, hlf]
  have hnext : (fsm.store cr).Receiving := by simp [Receiving, hstate]
  rw [hcr, neverExpands_singly_cons hnext] at hroom
  have hlimit' := limit_lt (fsm.store cr)
  have hlen' : (fsm.store cr).mLen + 1 < 2 ^ 32 := by omega
  have hend : ((fsm.store cr).store lf).content = fsm.content ++ crlf := by
    rw [content_store lf hlen', content_store cr hlen, List.append_assoc]
    rfl
  rw [crlf, feed_cons, append_singleton hreceiving, hcr, feed_cons, feed_nil,
    append_singleton hnext,
    view_recv_chunkEnd ((store_state lf _).trans hstored) hend hcontent
      (by simpa using hdata),
    view_store lf hlen', view_store cr hlen, length_content]
  rfl

/-- A whole chunk appends its data. -/
theorem view_feed_chunk (chunk : Chunk) (hstate : fsm.state = .recvBodylen)
    (hbuf : fsm.mBuf = fsm.mLen) (hdata : fsm.bd.getD 0 + fsm.bl = fsm.mLen)
    (htotal : fsm.bl + chunk.data.length < 2 ^ 32)
    (hroom : fsm.NeverExpands (singly chunk.wire)) :
    (fsm.feed chunk.wire).view =
      { fsm.view with
        content := fsm.content ++ chunk.data
        mBuf := fsm.mLen + chunk.data.length
        bl := fsm.bl + chunk.data.length } := by
  have hsize : chunk.size ++ crlf = chunk.size ++ [cr] ++ [lf] := by
    rw [List.append_assoc]
    rfl
  have hquiet : lf ∉ chunk.size ++ [cr] := by
    rw [List.mem_append, not_or]
    exact ⟨chunk.hex.not_mem (by decide), by decide⟩
  obtain ⟨hline, hrest⟩ := neverExpands_feed_append.mp hroom
  obtain ⟨hbytes, hend⟩ := neverExpands_feed_append.mp hrest
  rw [Chunk.wire, feed_append, feed_append]
  rw [hsize] at hline hbytes hend ⊢
  obtain ⟨stored, hfeed, hview, -⟩ :=
    feed_line hquiet (.inr (.inl hstate)) hline
  rw [hfeed] at hbytes hend ⊢
  have hstored : stored.content = fsm.content ++ chunk.size ++ crlf := by
    refine (congrArg View.content hview).trans ?_
    simp [crlf]
  have hbl : stored.bl = fsm.bl := congrArg View.bl hview
  have hopened := view_recv_size chunk
    ((congrArg View.state hview).trans hstate) hstored
    ((congrArg View.mBuf hview).trans (hbuf.trans (length_content fsm).symm))
    (by rw [hbl]; exact htotal)
  rw [hview, hbl] at hopened
  generalize stored.recv = opened at hopened hbytes hend ⊢
  have hopenedLen : opened.mLen = fsm.mLen := by
    rw [← length_content, ← length_content]
    exact congrArg (fun view => view.content.length) hopened
  have hopenedBd : opened.bd = fsm.bd := congrArg View.bd hopened
  have hopenedBl : opened.bl = fsm.bl + chunk.data.length :=
    congrArg View.bl hopened
  have hread := view_feed_data (congrArg View.state hopened)
    (by rw [hopenedLen, hopenedBd, hopenedBl]; omega) hbytes
  rw [hopened] at hread
  generalize opened.feed chunk.data = read at hread hend ⊢
  have hopenedContent : opened.content = fsm.content :=
    congrArg View.content hopened
  have hreadContent : read.content = fsm.content ++ chunk.data :=
    (congrArg View.content hread).trans
      (congrArg (· ++ chunk.data) hopenedContent)
  have hreadLen : read.mLen = fsm.mLen + chunk.data.length := by
    rw [← length_content, hreadContent, List.length_append, length_content]
  have hreadBd : read.bd = fsm.bd := congrArg View.bd hread
  have hreadBl : read.bl = fsm.bl + chunk.data.length :=
    congrArg View.bl hread
  rw [view_feed_chunkEnd (congrArg View.state hread)
    (by rw [hreadContent]; exact List.append_ne_nil_of_right_ne_nil _ chunk.nonempty)
    (by rw [hreadLen, hreadBd, hreadBl]; omega) hend, hread, hreadLen,
    hopenedContent]
  simp only [view, hstate]

/-- The data of a list of chunks end up one behind the other. -/
theorem view_feed_chunks (chunks : List Chunk)
    (hstate : fsm.state = .recvBodylen) (hbuf : fsm.mBuf = fsm.mLen)
    (hdata : fsm.bd.getD 0 + fsm.bl = fsm.mLen)
    (htotal : fsm.bl + (chunks.flatMap Chunk.data).length < 2 ^ 32)
    (hroom : fsm.NeverExpands (singly (chunks.flatMap Chunk.wire))) :
    (fsm.feed (chunks.flatMap Chunk.wire)).view =
      { fsm.view with
        content := fsm.content ++ chunks.flatMap Chunk.data
        mBuf := fsm.mLen + (chunks.flatMap Chunk.data).length
        bl := fsm.bl + (chunks.flatMap Chunk.data).length } := by
  induction chunks generalizing fsm with
  | nil => simp [view, hbuf]
  | cons chunk rest ih =>
      rw [List.flatMap_cons, List.length_append] at htotal
      rw [List.flatMap_cons, neverExpands_feed_append] at hroom
      have hview := view_feed_chunk chunk hstate hbuf hdata (by omega) hroom.1
      rw [List.flatMap_cons, feed_append]
      generalize fsm.feed chunk.wire = next at hview hroom ⊢
      have hcontent : next.content = fsm.content ++ chunk.data :=
        congrArg View.content hview
      have hbl : next.bl = fsm.bl + chunk.data.length :=
        congrArg View.bl hview
      have hbd : next.bd = fsm.bd := congrArg View.bd hview
      have hlen : next.mLen = fsm.mLen + chunk.data.length := by
        rw [← length_content, hcontent, List.length_append, length_content]
      rw [ih ((congrArg View.state hview).trans hstate)
        ((congrArg View.mBuf hview).trans hlen.symm)
        (by rw [hbd, hbl, hlen]; omega) (by rw [hbl]; omega) hroom.2,
        hview, hcontent, hlen, hbl]
      simp [Nat.add_assoc]

/-- The last chunk. -/
theorem view_feed_lastChunk (hstate : fsm.state = .recvBodylen)
    (hbuf : fsm.mBuf = fsm.mLen)
    (hroom : fsm.NeverExpands (singly (ascii "0" ++ crlf))) :
    (fsm.feed (ascii "0" ++ crlf)).view =
      { fsm.view with
        state := .recvFooter
        content := fsm.content ++ (ascii "0" ++ [0, 0])
        mBuf := fsm.mLen + 3 } := by
  have hsplit : ascii "0" ++ crlf = ascii "0" ++ [cr] ++ [lf] := rfl
  rw [hsplit] at hroom
  obtain ⟨stored, hfeed, hview, -⟩ :=
    feed_line (by decide) (.inr (.inl hstate)) hroom
  have hcontent : stored.content = fsm.content ++ ascii "0" ++ crlf := by
    refine (congrArg View.content hview).trans ?_
    simp [crlf]
  rw [hsplit, hfeed, view_recv_lastSize
    ((congrArg View.state hview).trans hstate) hcontent
    ((congrArg View.mBuf hview).trans (hbuf.trans (length_content fsm).symm)),
    hview, length_content]

/-- The empty line behind the trailers. -/
theorem view_feed_end (hstate : fsm.state = .recvFooter)
    (hbuf : fsm.mBuf = fsm.mLen) (hcontent : fsm.content ≠ [])
    (hroom : fsm.NeverExpands (singly crlf)) :
    (fsm.feed [cr]).state = .recvFooter ∧
      (fsm.feed crlf).view =
        { fsm.view with
          state := .recvFinish
          content := fsm.content ++ [0, 0] } := by
  have hsplit : crlf = [cr] ++ [lf] := rfl
  rw [hsplit] at hroom
  have hline : LineState fsm.state := .inr (.inr hstate)
  constructor
  · have hview := view_feed_text (by decide) hline
      (neverExpands_feed_append.mp hroom).1
    exact (congrArg View.state hview).trans hstate
  · obtain ⟨stored, hfeed, hview, -⟩ := feed_line (by decide) hline hroom
    have hstored : stored.content = fsm.content ++ crlf := by
      refine (congrArg View.content hview).trans ?_
      simp [crlf]
    have hstoredBuf : stored.mBuf = fsm.mLen :=
      (congrArg View.mBuf hview).trans hbuf
    have hlen : stored.mLen = fsm.mLen + 2 := by
      rw [← length_content, hstored, List.length_append, length_content]
      rfl
    have hkept : (stored.terminate 2).view =
        { stored.view with content := fsm.content ++ [0, 0] } :=
      @view_terminate stored fsm.content crlf hstored
    have hfooter : stored.state = .recvFooter :=
      (congrArg View.state hview).trans hstate
    rw [hsplit, hfeed, recv, hfooter]
    dsimp only
    unfold recvFooter
    dsimp only
    rw [recvLf_of_crlf hstored hcontent, if_neg (by decide), if_pos (by
      rw [terminate_mLen, terminate_mBuf, hstoredBuf, hlen]
      rfl)]
    calc _
      _ = { (stored.terminate 2).view with state := .recvFinish } := rfl
      _ = _ := by rw [hkept, hview]

end Receiving

end HttpFSM

/-! ## Messages -/

def transferEncoding : Bytes := ascii "Transfer-Encoding"

def contentLength : Bytes := ascii "Content-Length"

/-- A message with a chunked body. -/
structure ChunkedMessage where
  before : List Line
  key : Bytes
  key_eq : key.map tolower = transferEncoding.map tolower
  encoding : Line
  encoding_eq : encoding.text = key ++ ascii ": chunked"
  after : List Line
  chunks : List Chunk
  trailers : List Line
  first : ∀ line ∈ before, ¬StartsWith transferEncoding line.text
  noLength : ∀ line ∈ before ++ encoding :: after,
    ¬StartsWith contentLength line.text
  count : (before ++ encoding :: after).length + trailers.length ≤
    HttpFSM.maxHeader
  total : (chunks.flatMap Chunk.data).length < 2 ^ 32

namespace ChunkedMessage

variable (message : ChunkedMessage)

def lines : List Line := message.before ++ message.encoding :: message.after

def body : Bytes := message.chunks.flatMap Chunk.data

def lastChunk : Bytes := ascii "0" ++ crlf

def wire : Bytes :=
  wireLines crlf message.lines ++ crlf ++
    (message.chunks.flatMap Chunk.wire ++
      (lastChunk ++ (wireLines crlf message.trailers ++ crlf)))

/-- The texts `hdr` reads. -/
def texts : List Bytes :=
  (message.lines ++ message.trailers).map fun line => line.text

/-- The lookup of the encoding is not given up at a line before it. -/
def KeysFit : Prop :=
  ∀ line ∈ message.before, ¬Outruns transferEncoding line.text

instance : Decidable message.KeysFit :=
  inferInstanceAs (Decidable (∀ line ∈ message.before, _))

variable {message}

theorem length_key : message.key.length = transferEncoding.length := by
  have hlength := congrArg List.length message.key_eq
  rwa [List.length_map, List.length_map] at hlength

theorem encoding_not_outruns :
    ¬Outruns transferEncoding message.encoding.text := by
  have hshared := shared_le_length transferEncoding message.encoding.text
  have hlength : message.encoding.text.length = 26 := by
    rw [message.encoding_eq, List.length_append, length_key]
    rfl
  have hkey : transferEncoding.length = 17 := rfl
  unfold Outruns
  omega

theorem findKey_encoding (hfit : message.KeysFit) :
    findKey transferEncoding 256
        ((message.lines.map fun line => line.text).map withLength) =
      some (ascii "chunked") := by
  have hnone : ¬∃ other ∈ message.before,
      Outruns transferEncoding other.text := by
    rintro ⟨other, hmem, houtruns⟩
    exact hfit other hmem houtruns
  have hvalue : (ascii ": chunked").dropWhile isBlank = ascii "chunked" := by
    decide
  rw [lines, findKey_first message.first message.key_eq message.encoding_eq
    encoding_not_outruns, if_neg hnone, hvalue]
  rfl

theorem findKey_contentLength (l : ℕ) :
    findKey contentLength l
        ((message.lines.map fun line => line.text).map withLength) = none := by
  apply findKey_eq_none
  rw [List.forall_mem_map]
  exact message.noLength

/-- The header block in the buffer. -/
def head (message : ChunkedMessage) : Bytes :=
  keptLines crlf message.lines ++ [0, 0]

/-- The buffer up to the trailers. -/
def decoded (message : ChunkedMessage) : Bytes :=
  message.head ++ message.body ++ (ascii "0" ++ [0, 0])

theorem lines_ne_nil : message.lines ≠ [] :=
  List.append_ne_nil_of_right_ne_nil _ (List.cons_ne_nil _ _)

section Feeding

variable {fsm : HttpFSM}

theorem view_feed_head (hfit : message.KeysFit)
    (hview : fsm.view = ⟨.recvHeader, [], 0, [], none, fsm.bl⟩)
    (hroom : fsm.NeverExpands
      (HttpFSM.singly (wireLines crlf message.lines ++ crlf))) :
    (fsm.feed (wireLines crlf message.lines ++ crlf)).view =
      { state := .recvBodylen
        content := message.head
        mBuf := message.head.length
        headers := lineEntries crlf 0 message.lines
        bd := some message.head.length
        bl := 0 } := by
  have hcount := message.count
  obtain ⟨stored, hfeed, hat⟩ := @HttpFSM.feed_block fsm crlf message.lines
    lineEnd_crlf hview (Nat.le_of_add_right_le hcount) hroom
  have hnone := hat.hdrstr_eq lineEnd_crlf "Content-Length" 256
  have hencoding := hat.hdrstr_eq lineEnd_crlf "Transfer-Encoding" 256
  rw [show ascii "Content-Length" = contentLength from rfl,
    findKey_contentLength] at hnone
  rw [show ascii "Transfer-Encoding" = transferEncoding from rfl,
    findKey_encoding hfit] at hencoding
  have hkept : (stored.terminate crlf.length).view =
      { stored.view with content := message.head } :=
    HttpFSM.view_terminate hat.content
  have hlen : (stored.terminate crlf.length).mLen = message.head.length := by
    rw [← HttpFSM.length_content]
    exact congrArg (fun view => view.content.length) hkept
  rw [hfeed, hat.recv_eq lineEnd_crlf lines_ne_nil,
    HttpFSM.view_endHeader_of_chunked (HttpFSM.hdrint_of_hdrstr_none hnone)
      hencoding, hkept, hlen]
  simp only [HttpFSM.view, hat.headers]

theorem view_feed_chunks (message : ChunkedMessage)
    (hview : fsm.view =
      { state := .recvBodylen
        content := message.head
        mBuf := message.head.length
        headers := lineEntries crlf 0 message.lines
        bd := some message.head.length
        bl := 0 })
    (hroom : fsm.NeverExpands
      (HttpFSM.singly (message.chunks.flatMap Chunk.wire ++ lastChunk))) :
    (fsm.feed (message.chunks.flatMap Chunk.wire ++ lastChunk)).view =
      { state := .recvFooter
        content := message.decoded
        mBuf := message.decoded.length
        headers := lineEntries crlf 0 message.lines
        bd := some message.head.length
        bl := message.body.length } := by
  have hcontent : fsm.content = message.head :=
    congrArg HttpFSM.View.content hview
  have hlen : fsm.mLen = message.head.length := by
    rw [← HttpFSM.length_content, hcontent]
  have hbd : fsm.bd = some message.head.length :=
    congrArg HttpFSM.View.bd hview
  have hbl : fsm.bl = 0 := congrArg HttpFSM.View.bl hview
  have hbuf : fsm.mBuf = message.head.length :=
    congrArg HttpFSM.View.mBuf hview
  rw [HttpFSM.neverExpands_feed_append] at hroom
  have hbody := HttpFSM.view_feed_chunks message.chunks
    (congrArg HttpFSM.View.state hview) (hbuf.trans hlen.symm)
    (by rw [hbd, hbl, hlen]; rfl)
    (by rw [hbl, Nat.zero_add]; exact message.total) hroom.1
  rw [HttpFSM.feed_append]
  generalize fsm.feed (message.chunks.flatMap Chunk.wire) = next
    at hbody hroom ⊢
  have hnext : next.content = message.head ++ message.body :=
    (congrArg HttpFSM.View.content hbody).trans
      (congrArg (· ++ message.body) hcontent)
  have hnextLen : next.mLen = message.head.length + message.body.length := by
    rw [← HttpFSM.length_content, hnext, List.length_append]
  have hnextBuf : next.mBuf = next.mLen :=
    (congrArg HttpFSM.View.mBuf hbody).trans (by rw [hnextLen, hlen]; rfl)
  have hlast := HttpFSM.view_feed_lastChunk
    ((congrArg HttpFSM.View.state hbody).trans
      (congrArg HttpFSM.View.state hview)) hnextBuf hroom.2
  have hdecoded : message.decoded.length =
      message.head.length + message.body.length + 3 := by
    rw [decoded, List.length_append, List.length_append]
    rfl
  refine hlast.trans ?_
  rw [hbody, hview, hnext, hnextLen, hbl, hdecoded, Nat.zero_add]
  rfl

theorem view_feed_trailers (message : ChunkedMessage)
    (hview : fsm.view =
      { state := .recvFooter
        content := message.decoded
        mBuf := message.decoded.length
        headers := lineEntries crlf 0 message.lines
        bd := some message.head.length
        bl := message.body.length })
    (hroom : fsm.NeverExpands
      (HttpFSM.singly (wireLines crlf message.trailers ++ crlf))) :
    (fsm.feed (wireLines crlf message.trailers ++ [cr])).state =
        .recvFooter ∧
      (fsm.feed (wireLines crlf message.trailers ++ crlf)).view =
        { state := .recvFinish
          content := message.decoded ++ keptLines crlf message.trailers ++
            [0, 0]
          mBuf := message.decoded.length +
            (keptLines crlf message.trailers).length
          headers := lineEntries crlf 0 message.lines ++
            lineEntries crlf message.decoded.length message.trailers
          bd := some message.head.length
          bl := message.body.length } := by
  have hcontent : fsm.content = message.decoded :=
    congrArg HttpFSM.View.content hview
  have hlen : fsm.mLen = message.decoded.length := by
    rw [← HttpFSM.length_content, hcontent]
  have hheaders : fsm.headers = lineEntries crlf 0 message.lines :=
    congrArg HttpFSM.View.headers hview
  have hbuf : fsm.mBuf = message.decoded.length :=
    congrArg HttpFSM.View.mBuf hview
  have hstate : fsm.state = .recvFooter := congrArg HttpFSM.View.state hview
  rw [HttpFSM.neverExpands_feed_append] at hroom
  have hlines := HttpFSM.view_feed_lines message.trailers lineEnd_crlf
    (.inr hstate) (hbuf.trans hlen.symm)
    (by rw [hheaders, length_lineEntries]; exact message.count) hroom.1
  rw [HttpFSM.feed_append, HttpFSM.feed_append]
  generalize fsm.feed (wireLines crlf message.trailers) = next
    at hlines hroom ⊢
  have hnext : next.content =
      message.decoded ++ keptLines crlf message.trailers :=
    (congrArg HttpFSM.View.content hlines).trans
      (congrArg (· ++ keptLines crlf message.trailers) hcontent)
  have hnextBuf : next.mBuf = next.mLen := by
    rw [← HttpFSM.length_content, hnext, List.length_append, ← hlen]
    exact congrArg HttpFSM.View.mBuf hlines
  have hnonempty : next.content ≠ [] := by
    rw [hnext, decoded]
    simp
  obtain ⟨hbefore, hend⟩ := HttpFSM.view_feed_end
    ((congrArg HttpFSM.View.state hlines).trans hstate) hnextBuf hnonempty
    hroom.2
  refine ⟨hbefore, ?_⟩
  rw [hend, hlines, hnext, hheaders, hlen, hview]

/-- The whole message, and the state before its last byte. -/
theorem view_feed_wire (hfit : message.KeysFit)
    (hview : fsm.view = ⟨.recvHeader, [], 0, [], none, fsm.bl⟩)
    (hroom : fsm.NeverExpands (HttpFSM.singly message.wire)) :
    (∃ init, message.wire = init ++ [lf] ∧
      (fsm.feed init).state = .recvFooter) ∧
      (fsm.feed message.wire).view =
        { state := .recvFinish
          content := message.decoded ++ keptLines crlf message.trailers ++
            [0, 0]
          mBuf := message.decoded.length +
            (keptLines crlf message.trailers).length
          headers := lineEntries crlf 0 message.lines ++
            lineEntries crlf message.decoded.length message.trailers
          bd := some message.head.length
          bl := message.body.length } := by
  have hwire : message.wire =
      wireLines crlf message.lines ++ crlf ++
        (message.chunks.flatMap Chunk.wire ++ lastChunk) ++
        (wireLines crlf message.trailers ++ crlf) := by
    simp only [wire, List.append_assoc]
  have hinit : wireLines crlf message.trailers ++ crlf =
      wireLines crlf message.trailers ++ [cr] ++ [lf] := by
    rw [List.append_assoc]
    rfl
  rw [hwire] at hroom ⊢
  obtain ⟨hstart, hend⟩ := HttpFSM.neverExpands_feed_append.mp hroom
  obtain ⟨hhead, hchunks⟩ := HttpFSM.neverExpands_feed_append.mp hstart
  have hread := view_feed_head hfit hview hhead
  have hdecoded := view_feed_chunks message hread hchunks
  rw [← HttpFSM.feed_append] at hdecoded
  obtain ⟨hbefore, hfinished⟩ := view_feed_trailers message hdecoded hend
  rw [← HttpFSM.feed_append] at hbefore hfinished
  refine ⟨⟨_, ?_, hbefore⟩, hfinished⟩
  rw [hinit]
  simp only [List.append_assoc]

end Feeding

/-! ## Decoding -/

/-- What is read of a message from a fresh parser, once it is fed. -/
structure Decoded (message : ChunkedMessage) (fsm : HttpFSM) : Prop where
  finished : (fsm.feed message.wire).state = .recvFinish
  notBefore : ∀ read rest, message.wire = read ++ rest → rest ≠ [] →
    (fsm.feed read).state ≠ .recvFinish
  bodylen : (fsm.feed message.wire).bodylen = toInt message.body.length
  body : (fsm.feed message.wire).body = some message.body
  hdr : ∀ index, (fsm.feed message.wire).hdr index = message.texts[index]?
  inBounds : ∀ stored ∈ fsm.storesAll (HttpFSM.singly message.wire),
    stored.InBounds

section Reading

variable {message : ChunkedMessage} {fsm : HttpFSM}

theorem bodylen_feed_wire (hfit : message.KeysFit)
    (hview : fsm.view = ⟨.recvHeader, [], 0, [], none, fsm.bl⟩)
    (hroom : fsm.NeverExpands (HttpFSM.singly message.wire)) :
    (fsm.feed message.wire).bodylen = toInt message.body.length := by
  have hbl : (fsm.feed message.wire).bl = message.body.length :=
    congrArg HttpFSM.View.bl (view_feed_wire hfit hview hroom).2
  rw [HttpFSM.bodylen, hbl]

theorem body_of_content (hbd : fsm.bd = some message.head.length)
    (hbl : fsm.bl = message.body.length)
    (hcontent : fsm.content =
      message.decoded ++ keptLines crlf message.trailers ++ [0, 0]) :
    fsm.body = some message.body := by
  unfold HttpFSM.body
  rw [hbd, hbl, hcontent, Option.map_some, decoded]
  simp only [List.append_assoc, List.drop_left, List.take_left]

theorem texts_of_content
    (hheaders : fsm.headers = lineEntries crlf 0 message.lines ++
      lineEntries crlf message.decoded.length message.trailers)
    (hcontent : fsm.content =
      message.decoded ++ keptLines crlf message.trailers ++ [0, 0]) :
    fsm.headers.map (fun header => fsm.cstr header.hd) = message.texts := by
  have hlines := @HttpFSM.texts_of_entries fsm [] crlf
    ([0, 0] ++ message.body ++ (ascii "0" ++ [0, 0]) ++
      keptLines crlf message.trailers ++ [0, 0]) message.lines lineEnd_crlf
    (by rw [hcontent, decoded, head]; simp only [List.append_assoc,
      List.nil_append])
  have htrailers := @HttpFSM.texts_of_entries fsm message.decoded crlf [0, 0]
    message.trailers lineEnd_crlf hcontent
  have hfst := congrArg (List.map Prod.fst) hlines
  have hfst' := congrArg (List.map Prod.fst) htrailers
  rw [List.map_map, List.map_map] at hfst hfst'
  rw [hheaders, List.map_append, texts, List.map_append]
  exact congrArg₂ (· ++ ·) hfst hfst'

end Reading

/-- A chunked message fed byte by byte into a buffer that needs no expansion
is decoded. -/
theorem chunked_decoding (message : ChunkedMessage) (hfit : message.KeysFit)
    {chunkSize : ℕ} (hpos : 0 < chunkSize) (hhigh : chunkSize < 2 ^ 32)
    (memory : ℕ → UInt8) (fsm : HttpFSM)
    (hroom : (fsm.reset chunkSize memory).NeverExpands
      (HttpFSM.singly message.wire)) :
    Decoded message (fsm.reset chunkSize memory) := by
  obtain ⟨⟨init, hlast, hbefore⟩, hview⟩ :=
    view_feed_wire hfit (HttpFSM.view_reset chunkSize memory fsm) hroom
  have hcontent := congrArg HttpFSM.View.content hview
  have hheaders := congrArg HttpFSM.View.headers hview
  refine ⟨congrArg HttpFSM.View.state hview, ?_, ?_, ?_, ?_, ?_⟩
  · intro read rest
    exact HttpFSM.state_ne_recvFinish hlast (by rw [hbefore]; decide)
  · exact bodylen_feed_wire hfit (HttpFSM.view_reset chunkSize memory fsm) hroom
  · exact body_of_content (congrArg HttpFSM.View.bd hview)
      (congrArg HttpFSM.View.bl hview) hcontent
  · exact HttpFSM.hdr_of_texts (texts_of_content hheaders hcontent)
  · exact HttpFSM.inBounds_of_neverExpands hpos hhigh memory fsm hroom

/-- A message with two chunks and a trailer. -/
private def greeting : ChunkedMessage where
  before := [⟨ascii "POST / HTTP/1.1", by decide, by decide⟩]
  key := transferEncoding
  key_eq := rfl
  encoding :=
    ⟨ascii "Transfer-Encoding: chunked", by decide, by decide⟩
  encoding_eq := by decide
  after := []
  chunks := [⟨ascii "5", ascii "hello", by decide, by decide, by decide,
      by decide⟩,
    ⟨ascii "06", ascii " world", by decide, by decide, by decide, by decide⟩]
  trailers := [⟨ascii "Expires: 0", by decide, by decide⟩]
  first := by decide
  noLength := by decide
  count := by decide
  total := by decide

theorem chunked_decoding_greeting :
    Decoded greeting (HttpFSM.blank.reset 512 fun _ => 0) :=
  chunked_decoding greeting (by decide) (by decide) (by decide) _ _
    (HttpFSM.neverExpands_of_short (by decide) _ _ (by decide))

/-- A chunk of 2^30 bytes. -/
private def zeros : Chunk where
  size := ascii "40000000"
  data := List.replicate (2 ^ 30) 0
  nonempty := by
    rw [Ne, List.replicate_eq_nil_iff]
    decide
  hex := by decide
  value := by
    rw [List.length_replicate]
    decide
  small := by
    rw [List.length_replicate]
    decide

private theorem length_zeros : zeros.data.length = 2 ^ 30 :=
  List.length_replicate

/-- A message of 2^31 bytes of data. -/
private def huge : ChunkedMessage where
  before := []
  key := transferEncoding
  key_eq := rfl
  encoding :=
    ⟨ascii "Transfer-Encoding: chunked", by decide, by decide⟩
  encoding_eq := by decide
  after := []
  chunks := [zeros, zeros]
  trailers := []
  first := by decide
  noLength := by decide
  count := by decide
  total := by
    simp only [List.flatMap_cons, List.flatMap_nil, List.length_append,
      length_zeros]
    decide

private theorem length_body_huge : huge.body.length = 2 ^ 31 := by
  simp only [body, huge, List.flatMap_cons, List.flatMap_nil,
    List.length_append, length_zeros]
  rfl

private theorem length_wire_huge : huge.wire.length = 2 ^ 31 + 59 := by
  have hsize : zeros.size.length = 8 := by decide
  have hlines : (wireLines crlf huge.lines).length = 28 := by decide
  have htrailers : (wireLines crlf huge.trailers).length = 0 := by decide
  have hlast : lastChunk.length = 3 := by decide
  have hcrlf : crlf.length = 2 := rfl
  have hchunks : huge.chunks = [zeros, zeros] := rfl
  simp only [wire, hchunks, List.flatMap_cons, List.flatMap_nil, Chunk.wire,
    List.length_append, length_zeros, hsize, hlines, htrailers, hlast, hcrlf]
  rfl

/-- A line whose stored length is 0 and that shares two letters with
`Transfer-Encoding`. -/
private def longLine : Line where
  text := 84 :: 114 :: 120 :: List.replicate 65533 120
  nonempty := List.cons_ne_nil _ _
  printable := by
    intro byte hbyte
    simp only [List.mem_cons, List.mem_replicate] at hbyte
    rcases hbyte with rfl | rfl | rfl | ⟨-, rfl⟩ <;> decide

private theorem length_cons_cons_cons {tail : Bytes} {count : ℕ}
    (htail : tail.length = count) (first second third : UInt8) :
    (first :: second :: third :: tail).length = count + 3 := by
  rw [← htail]
  rfl

private theorem length_longLine : longLine.text.length = 65536 :=
  length_cons_cons_cons List.length_replicate 84 114 120

private theorem shared_longLine :
    shared transferEncoding longLine.text = 2 := rfl

private theorem outruns_longLine :
    Outruns transferEncoding longLine.text := by
  unfold Outruns
  rw [length_longLine, shared_longLine]
  decide

private theorem longLine_not_startsWith {key : Bytes}
    (hkey : shared key longLine.text < key.length) :
    ¬StartsWith key longLine.text := by
  rw [← shared_eq_length]
  omega

/-- A message without data behind the long line. -/
private def outrun : ChunkedMessage where
  before := [longLine]
  key := transferEncoding
  key_eq := rfl
  encoding :=
    ⟨ascii "Transfer-Encoding: chunked", by decide, by decide⟩
  encoding_eq := by decide
  after := []
  chunks := []
  trailers := []
  first := by
    rw [List.forall_mem_singleton]
    exact longLine_not_startsWith (by rw [shared_longLine]; decide)
  noLength := by
    simp only [List.singleton_append, List.forall_mem_cons]
    exact ⟨longLine_not_startsWith (Nat.zero_lt_succ _), by decide⟩
  count := by decide
  total := by decide

private theorem length_wire_outrun : outrun.wire.length < 2 ^ 17 := by
  have hencoding : outrun.encoding.text.length = 26 := by decide
  have hlines : outrun.lines = [longLine, outrun.encoding] := rfl
  have htrailers : outrun.trailers = [] := rfl
  have hchunks : outrun.chunks = [] := rfl
  have hlast : lastChunk.length = 3 := by decide
  have hcrlf : crlf.length = 2 := rfl
  simp only [wire, wireLines, hlines, htrailers, hchunks, List.flatMap_cons,
    List.flatMap_nil, List.length_append, List.length_nil, length_longLine,
    hencoding,
    hlast, hcrlf]
  decide

/-- A block whose keys announce no body ends the message or fails. -/
private theorem halted_of_outrun {fsm : HttpFSM}
    (hview : fsm.view = ⟨.recvHeader, [], 0, [], none, fsm.bl⟩)
    (hroom : fsm.NeverExpands
      (HttpFSM.singly (wireLines crlf outrun.lines ++ crlf))) :
    (fsm.feed (wireLines crlf outrun.lines ++ crlf)).Halted := by
  obtain ⟨stored, hfeed, hat⟩ := @HttpFSM.feed_block fsm crlf outrun.lines
    lineEnd_crlf hview (by decide) hroom
  have htexts : outrun.lines.map (fun line => line.text) =
      [longLine.text] ++ [outrun.encoding.text] := rfl
  have hlength : (stored.terminate crlf.length).setResult.hdrint
      "Content-Length" = none := by
    apply HttpFSM.hdrint_of_hdrstr_none
    rw [hat.hdrstr_eq lineEnd_crlf]
    exact findKey_contentLength 256
  have hencoding : (stored.terminate crlf.length).setResult.hdrstr
      "Transfer-Encoding" 256 = none := by
    rw [hat.hdrstr_eq lineEnd_crlf, htexts, List.map_append,
      findKey_append (List.forall_mem_singleton.mpr
        (longLine_not_startsWith (by
          rw [show ascii "Transfer-Encoding" = transferEncoding from rfl,
            shared_longLine]
          decide))), if_pos ⟨_, List.mem_singleton.mpr rfl, outruns_longLine⟩]
  have hsocket (key : Bytes) (hlong : shared key longLine.text = 0)
      (hkey : 0 < key.length) (hencoded : ¬StartsWith key outrun.encoding.text) :
      findKey key 256 ((outrun.lines.map fun line => line.text).map
        withLength) = none := by
    apply findKey_eq_none
    rw [htexts]
    simp only [List.singleton_append, List.forall_mem_cons]
    exact ⟨longLine_not_startsWith (by omega), hencoded,
      fun _ hmem => absurd hmem List.not_mem_nil⟩
  have hsocketKey := (hat.hdrstr_eq lineEnd_crlf "Sec-WebSocket-Key" 256).trans
    (hsocket _ rfl (by decide) (by decide))
  have hsocketAccept :=
    (hat.hdrstr_eq lineEnd_crlf "Sec-WebSocket-Accept" 256).trans
      (hsocket _ rfl (by decide) (by decide))
  rw [hfeed, hat.recv_eq lineEnd_crlf lines_ne_nil,
    HttpFSM.endHeader_of_bodiless hlength hencoding hsocketKey hsocketAccept]
  by_cases hok :
      (stored.terminate crlf.length).setResult.res = 200
  · exact .inl (if_pos hok)
  · exact .inr (if_neg hok)

/-- `bodylen()` is negative for a body of 2^31 bytes, and behind a line of
65536 bytes that shares two letters with the key the encoding is not found. -/
theorem chunked_decoding_fails :
    (∃ fsm : HttpFSM, fsm = HttpFSM.blank.reset (2 ^ 31 + 60) (fun _ => 0) ∧
      fsm.NeverExpands (HttpFSM.singly huge.wire) ∧
      (fsm.feed huge.wire).bodylen ≠ huge.body.length) ∧
    ∃ fsm : HttpFSM, fsm = HttpFSM.blank.reset (2 ^ 17) (fun _ => 0) ∧
      fsm.NeverExpands (HttpFSM.singly outrun.wire) ∧
      ¬((fsm.feed outrun.wire).state = .recvFinish ∧
        ∀ read rest, outrun.wire = read ++ rest → rest ≠ [] →
          (fsm.feed read).state ≠ .recvFinish) := by
  constructor
  · have hroom := @HttpFSM.neverExpands_of_short (2 ^ 31 + 60) (by decide)
      (fun _ => 0) HttpFSM.blank (HttpFSM.singly huge.wire)
      (by rw [HttpFSM.flatten_singly, length_wire_huge]; decide)
    refine ⟨_, rfl, hroom, ?_⟩
    have hlength := bodylen_feed_wire (by decide)
      (HttpFSM.view_reset _ _ _) hroom
    rw [hlength, length_body_huge]
    decide
  · have hroom := @HttpFSM.neverExpands_of_short (2 ^ 17) (by decide)
      (fun _ => 0) HttpFSM.blank (HttpFSM.singly outrun.wire)
      (by rw [HttpFSM.flatten_singly]; exact length_wire_outrun)
    refine ⟨_, rfl, hroom, ?_⟩
    rintro ⟨hfinish, hbefore⟩
    have hhead := halted_of_outrun (HttpFSM.view_reset _ _ _)
      (HttpFSM.neverExpands_feed_append.mp hroom).1
    have hrest : outrun.chunks.flatMap Chunk.wire ++ (lastChunk ++
        (wireLines crlf outrun.trailers ++ crlf)) ≠ [] := by
      decide
    apply hbefore _ _ rfl hrest
    rw [wire, HttpFSM.feed_append, HttpFSM.feed_of_halted hhead] at hfinish
    exact hfinish

end ChunkedMessage

end GrpcMtk.Http
