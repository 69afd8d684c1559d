import GrpcMtk.Http.Chunked
import GrpcMtk.Http.Expansion
import GrpcMtk.Http.Framing

/-!
# Chunk extensions

`recv_bodylen` looks for the ';' of a chunk extension at `m_p[m_len]`, one place
behind the byte it was called for, where `append` has put a NUL.  It never
finds it there: `recv_comment` is not reached, the ';' stays part of the size
line, and at the end of that line `htoi` fails.
-/

namespace GrpcMtk.Http

open GrpcMtk.Proto

/-- What may stand between a chunk size and the end of its line. -/
structure Extension where
  text : Bytes
  printable : Printable text

def extensionText : Option Extension → Bytes
  | none => []
  | some extension => semicolon :: extension.text

def Chunk.extended (chunk : Chunk) (extension : Option Extension) : Bytes :=
  chunk.size ++ extensionText extension ++ crlf ++ (chunk.data ++ crlf)

namespace ChunkedMessage

/-- What is added to each size line of a message. -/
structure Extensions (message : ChunkedMessage) where
  chunks : List (Option Extension)
  length : chunks.length = message.chunks.length
  last : Option Extension

/-- The bytes of the chunks with what is added to their size lines. -/
def extendedChunks (chunks : List Chunk)
    (extensions : List (Option Extension)) : Bytes :=
  (List.zipWith Chunk.extended chunks extensions).flatten

section Messages

variable (message : ChunkedMessage) (extensions : message.Extensions)

/-- A message with extensions on the wire. -/
def extended : Bytes :=
  wireLines crlf message.lines ++ crlf ++
    (extendedChunks message.chunks extensions.chunks ++
      (ascii "0" ++ extensionText extensions.last ++ crlf ++
        (wireLines crlf message.trailers ++ crlf)))

variable {message}

/-- Nothing is added to any size line. -/
def Extensions.Plain : Prop :=
  (∀ extension ∈ extensions.chunks, extension = none) ∧ extensions.last = none

variable (message)

/-- The extensions make no difference to a parser. -/
structure Unaffected (fsm : HttpFSM) : Prop where
  finished : (fsm.feed (message.extended extensions)).state = .recvFinish
  notBefore : ∀ read rest, message.extended extensions = read ++ rest →
    rest ≠ [] → (fsm.feed read).state ≠ .recvFinish
  bodylen : (fsm.feed (message.extended extensions)).bodylen =
    (fsm.feed message.wire).bodylen
  body : (fsm.feed (message.extended extensions)).body =
    (fsm.feed message.wire).body

end Messages

/-! ## An extended size line -/

section SizeLine

variable {fsm : HttpFSM} {size : Bytes} (hsize : IsHex size)
  (extension : Extension)

include hsize

/-- No control character stands in the line. -/
theorem control_not_mem {byte : UInt8} (hlow : byte < 32) :
    byte ∉ size ++ extensionText (some extension) := by
  have hhex : hexDigit byte = none := by
    have hbelow : byte.toNat < 32 := UInt8.lt_iff_toNat_lt.mp hlow
    rw [hexDigit, if_neg, if_neg, if_neg] <;>
      rw [UInt8.le_iff_toNat_le, UInt8.le_iff_toNat_le] <;>
      exact fun h => absurd (h.1.trans_lt hbelow) (by decide)
  have hother : byte ≠ semicolon := fun heq => by
    rw [heq] at hlow
    exact absurd hlow (by decide)
  rw [List.mem_append, extensionText, List.mem_cons]
  rintro (hmem | hmem | hmem)
  · exact hsize.not_mem hhex hmem
  · exact hother hmem
  · exact extension.printable.not_mem hlow hmem

theorem notHex_extended :
    NotHex (size ++ extensionText (some extension)) := by
  have hwhole : cString (size ++ extensionText (some extension)) =
      size ++ extensionText (some extension) :=
    List.takeWhile_eq_self_iff.mpr fun byte hbyte =>
      decide_eq_true fun hzero =>
        control_not_mem hsize extension (by decide) (hzero ▸ hbyte)
  obtain ⟨first, rest, rfl⟩ := List.exists_cons_of_ne_nil hsize.1
  have hminus : (first :: rest ++ extensionText (some extension)).head? ≠
      some 45 := by
    rintro ⟨⟩
    have hfirst := hsize.2 45 List.mem_cons_self
    contradiction
  rw [NotHex, hwhole, unsigned_of_ne hminus]
  exact ⟨semicolon, List.mem_append_right _ List.mem_cons_self, by decide⟩

/-- A size line with an extension fails. -/
theorem feed_extended (hstate : fsm.state = .recvBodylen)
    (hbuf : fsm.mBuf = fsm.mLen)
    (hroom : fsm.NeverExpands (HttpFSM.singly
      (size ++ extensionText (some extension) ++ crlf))) :
    (fsm.feed (size ++ extensionText (some extension) ++ crlf)).state =
      .error := by
  have hnot := notHex_extended hsize extension
  have hquiet : lf ∉ size ++ extensionText (some extension) ++ [cr] := by
    rw [List.mem_append, not_or]
    exact ⟨control_not_mem hsize extension (by decide), by decide⟩
  generalize size ++ extensionText (some extension) = text at *
  have hsplit : text ++ crlf = text ++ [cr] ++ [lf] := by
    rw [List.append_assoc]
    rfl
  rw [hsplit] at hroom ⊢
  obtain ⟨stored, hfeed, hview, -⟩ :=
    HttpFSM.feed_line hquiet (.inr (.inl hstate)) hroom
  have hcontent : stored.content = fsm.content ++ text ++ crlf := by
    refine (congrArg HttpFSM.View.content hview).trans ?_
    simp [crlf]
  have hnonempty : fsm.content ++ text ≠ [] := by
    refine List.append_ne_nil_of_right_ne_nil _ fun hnil => ?_
    obtain ⟨byte, hbyte, -⟩ := hnot
    rw [hnil] at hbyte
    exact absurd hbyte List.not_mem_nil
  have hlf : stored.recvLf = 2 := HttpFSM.recvLf_of_crlf hcontent hnonempty
  have hstart : stored.mBuf = fsm.content.length := by
    rw [HttpFSM.length_content, ← hbuf]
    exact congrArg HttpFSM.View.mBuf hview
  have hlen : stored.mLen = fsm.content.length + text.length + 2 := by
    rw [← HttpFSM.length_content, hcontent, List.length_append,
      List.length_append]
    rfl
  have htext : stored.sizeText = text := by
    have hcount : stored.mLen - stored.mBuf - stored.recvLf = text.length := by
      omega
    rw [HttpFSM.sizeText, hcount, hcontent, hstart, List.append_assoc,
      List.drop_left, List.take_left]
  have hat : stored.AtSizeEnd :=
    ⟨(congrArg HttpFSM.View.state hview).trans hstate, by omega⟩
  rw [hfeed]
  rcases HttpFSM.recv_atSizeEnd hat with ⟨herror, -⟩ | ⟨cl, hcl, -⟩
  · exact herror
  · rw [← htext, ← htoi_eq_none_iff (HttpFSM.length_sizeText hat.2)] at hnot
    rw [hnot] at hcl
    contradiction

end SizeLine

/-! ## Chunks -/

theorem chunk_extended_none (chunk : Chunk) :
    chunk.extended none = chunk.wire := by
  rw [Chunk.extended, extensionText, List.append_nil, Chunk.wire]

theorem extendedChunks_plain {chunks : List Chunk}
    {extensions : List (Option Extension)}
    (hlength : extensions.length = chunks.length)
    (hplain : ∀ extension ∈ extensions, extension = none) :
    extendedChunks chunks extensions = chunks.flatMap Chunk.wire := by
  induction chunks generalizing extensions with
  | nil => rw [extendedChunks, List.zipWith_nil_left, List.flatMap_nil]; rfl
  | cons chunk chunks ih =>
      obtain ⟨extension, extensions, rfl⟩ :=
        List.exists_cons_of_length_eq_add_one hlength
      rw [List.forall_mem_cons] at hplain
      rw [extendedChunks, List.zipWith_cons_cons, List.flatten_cons,
        hplain.1, chunk_extended_none, List.flatMap_cons]
      exact congrArg (chunk.wire ++ ·)
        (ih (Nat.succ.inj hlength) hplain.2)

/-- The first chunk with an extension ends in an error. -/
theorem feed_extendedChunks {fsm : HttpFSM} {chunks : List Chunk}
    {extensions : List (Option Extension)}
    (hlength : extensions.length = chunks.length)
    (hsome : ∃ extension, some extension ∈ extensions)
    (hstate : fsm.state = .recvBodylen) (hbuf : fsm.mBuf = fsm.mLen)
    (hdata : fsm.bd.getD 0 + fsm.bl = fsm.mLen)
    (htotal : fsm.bl + (chunks.flatMap Chunk.data).length < 2 ^ 32)
    (hroom : fsm.NeverExpands
      (HttpFSM.singly (extendedChunks chunks extensions))) :
    (fsm.feed (extendedChunks chunks extensions)).state = .error := by
  induction chunks generalizing fsm extensions with
  | nil =>
      obtain ⟨extension, hmem⟩ := hsome
      rw [List.length_eq_zero_iff.mp hlength] at hmem
      exact absurd hmem List.not_mem_nil
  | cons chunk chunks ih =>
      obtain ⟨extension, extensions, rfl⟩ :=
        List.exists_cons_of_length_eq_add_one hlength
      rw [extendedChunks, List.zipWith_cons_cons, List.flatten_cons] at hroom ⊢
      rw [HttpFSM.feed_append]
      cases extension with
      | some extension =>
          rw [Chunk.extended, List.append_assoc] at hroom
          have herror := feed_extended chunk.hex extension hstate hbuf
            (HttpFSM.neverExpands_feed_append.mp hroom).1
          rw [Chunk.extended, HttpFSM.feed_append,
            HttpFSM.feed_of_halted (.inl herror),
            HttpFSM.feed_of_halted (.inl herror)]
          exact herror
      | none =>
          rw [List.flatMap_cons, List.length_append] at htotal
          rw [chunk_extended_none, HttpFSM.neverExpands_feed_append] at hroom
          have hview := HttpFSM.view_feed_chunk chunk hstate hbuf hdata
            (by omega) hroom.1
          rw [chunk_extended_none]
          generalize fsm.feed chunk.wire = next at hview hroom ⊢
          have hbl : next.bl = fsm.bl + chunk.data.length :=
            congrArg HttpFSM.View.bl hview
          have hbd : next.bd = fsm.bd := congrArg HttpFSM.View.bd hview
          have hlen : next.mLen = fsm.mLen + chunk.data.length := by
            rw [← HttpFSM.length_content, ← HttpFSM.length_content,
              ← List.length_append]
            exact congrArg (fun view => view.content.length) hview
          obtain ⟨extension, hmem⟩ := hsome
          refine ih (Nat.succ.inj hlength)
            ⟨extension, (List.mem_cons.mp hmem).resolve_left nofun⟩
            ((congrArg HttpFSM.View.state hview).trans hstate)
            ((congrArg HttpFSM.View.mBuf hview).trans hlen.symm)
            (by rw [hbd, hbl, hlen]; omega) (by rw [hbl]; omega) hroom.2

/-! ## Messages -/

section Messages

variable {message : ChunkedMessage} {extensions : message.Extensions}
  {fsm : HttpFSM}

theorem extended_of_plain (hplain : extensions.Plain) :
    message.extended extensions = message.wire := by
  rw [extended, extendedChunks_plain extensions.length hplain.1, hplain.2,
    extensionText, List.append_nil, wire, lastChunk]

theorem not_plain (hplain : ¬extensions.Plain) :
    (∃ extension, some extension ∈ extensions.chunks) ∨
      (∀ extension ∈ extensions.chunks, extension = none) ∧
        ∃ extension, extensions.last = some extension := by
  by_cases hchunks : ∀ extension ∈ extensions.chunks, extension = none
  · refine .inr ⟨hchunks, Option.ne_none_iff_exists'.mp fun hlast => ?_⟩
    exact hplain ⟨hchunks, hlast⟩
  · simp only [not_forall] at hchunks
    obtain ⟨extension, hmem, hsome⟩ := hchunks
    obtain ⟨text, rfl⟩ := Option.ne_none_iff_exists'.mp hsome
    exact .inl ⟨text, hmem⟩

/-- One extension anywhere makes the message fail. -/
theorem feed_extended_error (hfit : message.KeysFit)
    (hview : fsm.view = ⟨.recvHeader, [], 0, [], none, fsm.bl⟩)
    (hroom : fsm.NeverExpands
      (HttpFSM.singly (message.extended extensions)))
    (hplain : ¬extensions.Plain) :
    (fsm.feed (message.extended extensions)).state = .error := by
  rw [extended, HttpFSM.neverExpands_feed_append] at hroom
  have hhead := view_feed_head hfit hview hroom.1
  have hbody := hroom.2
  rw [extended, HttpFSM.feed_append]
  generalize fsm.feed (wireLines crlf message.lines ++ crlf) = opened
    at hhead hbody ⊢
  have hlen : opened.mLen = message.head.length := by
    rw [← HttpFSM.length_content]
    exact congrArg (fun view => view.content.length) hhead
  have hstate : opened.state = .recvBodylen :=
    congrArg HttpFSM.View.state hhead
  have hbuf : opened.mBuf = opened.mLen :=
    (congrArg HttpFSM.View.mBuf hhead).trans hlen.symm
  have hbl : opened.bl = 0 := congrArg HttpFSM.View.bl hhead
  have hbd : opened.bd = some message.head.length :=
    congrArg HttpFSM.View.bd hhead
  have hdata : opened.bd.getD 0 + opened.bl = opened.mLen := by
    rw [hbd, hbl, hlen]
    rfl
  have htotal : opened.bl + message.body.length < 2 ^ 32 := by
    rw [hbl, Nat.zero_add]
    exact message.total
  rw [HttpFSM.neverExpands_feed_append] at hbody
  rw [HttpFSM.feed_append]
  rcases not_plain hplain with hsome | ⟨hnone, extension, hlast⟩
  · have herror := feed_extendedChunks extensions.length hsome hstate hbuf
      hdata htotal hbody.1
    rw [HttpFSM.feed_of_halted (.inl herror)]
    exact herror
  · rw [extendedChunks_plain extensions.length hnone] at hbody ⊢
    have hview := HttpFSM.view_feed_chunks message.chunks hstate hbuf hdata
      htotal hbody.1
    have hrest := hbody.2
    generalize opened.feed (message.chunks.flatMap Chunk.wire) = decoded
      at hview hrest ⊢
    have hend : decoded.mLen = opened.mLen + message.body.length := by
      rw [← HttpFSM.length_content, ← HttpFSM.length_content,
        ← List.length_append]
      exact congrArg (fun view => view.content.length) hview
    rw [hlast, HttpFSM.neverExpands_feed_append] at hrest
    have herror := @feed_extended decoded (ascii "0") (by decide) extension
      ((congrArg HttpFSM.View.state hview).trans hstate)
      ((congrArg HttpFSM.View.mBuf hview).trans hend.symm) hrest.1
    rw [hlast, HttpFSM.feed_append, HttpFSM.feed_of_halted (.inl herror)]
    exact herror

/-- Where the lookup of the encoding is given up no chunks are read. -/
theorem feed_head_of_outruns (hfit : ¬message.KeysFit)
    (hview : fsm.view = ⟨.recvHeader, [], 0, [], none, fsm.bl⟩)
    (hroom : fsm.NeverExpands
      (HttpFSM.singly (wireLines crlf message.lines ++ crlf))) :
    ¬(fsm.feed (wireLines crlf message.lines ++ crlf)).Receiving := by
  have hcount := message.count
  obtain ⟨stored, hfeed, hat⟩ := @HttpFSM.feed_block fsm crlf message.lines
    lineEnd_crlf hview (Nat.le_of_add_right_le hcount) hroom
  have hbefore : ∀ text ∈ message.before.map fun line => line.text,
      ¬StartsWith transferEncoding text := by
    rw [List.forall_mem_map]
    exact message.first
  have houtruns : ∃ text ∈ message.before.map fun line => line.text,
      Outruns transferEncoding text := by
    simp only [KeysFit, not_forall, not_not] at hfit
    obtain ⟨line, hmem, houtruns⟩ := hfit
    exact ⟨line.text, List.mem_map_of_mem hmem, houtruns⟩
  have hlength := hat.hdrstr_eq lineEnd_crlf "Content-Length" 256
  have hencoding := hat.hdrstr_eq lineEnd_crlf "Transfer-Encoding" 256
  rw [show ascii "Content-Length" = contentLength from rfl,
    findKey_contentLength] at hlength
  rw [show ascii "Transfer-Encoding" = transferEncoding from rfl, lines,
    List.map_append, List.map_append, findKey_append hbefore,
    if_pos houtruns] at hencoding
  rw [hfeed, hat.recv_eq lineEnd_crlf lines_ne_nil, HttpFSM.endHeader,
    HttpFSM.hdrint_of_hdrstr_none hlength]
  dsimp only
  rw [hencoding, if_neg (by simp)]
  split
  · exact fun hreceiving => hreceiving.2.2 rfl
  · split
    · exact fun hreceiving => hreceiving.1 rfl
    · exact fun hreceiving => hreceiving.2.1 rfl

/-- A message that ends at its header does not finish on its last byte. -/
theorem not_unaffected_of_outruns (hfit : ¬message.KeysFit)
    (hview : fsm.view = ⟨.recvHeader, [], 0, [], none, fsm.bl⟩)
    (hroom : fsm.NeverExpands
      (HttpFSM.singly (message.extended extensions))) :
    ¬message.Unaffected extensions fsm := by
  intro hunaffected
  rw [extended, HttpFSM.neverExpands_feed_append] at hroom
  have hhead := feed_head_of_outruns hfit hview hroom.1
  have hfinished := hunaffected.finished
  rw [extended, HttpFSM.feed_append] at hfinished
  rcases HttpFSM.state_cases
      (fsm.feed (wireLines crlf message.lines ++ crlf)) with
    hhalted | hestablished | hreceiving
  · rw [HttpFSM.feed_of_halted hhalted] at hfinished
    refine hunaffected.notBefore _ _ rfl ?_ hfinished
    exact List.append_ne_nil_of_right_ne_nil _
      (List.append_ne_nil_of_right_ne_nil _
        (List.append_ne_nil_of_right_ne_nil _ (by decide)))
  · rw [HttpFSM.feed_of_established hestablished] at hfinished
    contradiction
  · exact hhead hreceiving

/-- All that is compared is in the view. -/
theorem unaffected_wide :
    message.Unaffected extensions fsm.wide ↔
      message.Unaffected extensions fsm := by
  have hview (bytes : Bytes) := HttpFSM.view_feed_wide bytes fsm
  have hstate (bytes : Bytes) :
      (fsm.wide.feed bytes).state = (fsm.feed bytes).state :=
    congrArg HttpFSM.View.state (hview bytes)
  have hbodylen (bytes : Bytes) :
      (fsm.wide.feed bytes).bodylen = (fsm.feed bytes).bodylen := by
    have hbl : (fsm.wide.feed bytes).bl = (fsm.feed bytes).bl :=
      congrArg HttpFSM.View.bl (hview bytes)
    rw [HttpFSM.bodylen, HttpFSM.bodylen, hbl]
  have hbody (bytes : Bytes) :
      (fsm.wide.feed bytes).body = (fsm.feed bytes).body :=
    congrArg (fun view : HttpFSM.View =>
      view.bd.map fun bd => (view.content.drop bd).take view.bl) (hview bytes)
  constructor
  · intro hunaffected
    refine ⟨?_, fun read rest hsplit hrest => ?_, ?_, ?_⟩
    · exact (hstate _).symm.trans hunaffected.finished
    · rw [← hstate]
      exact hunaffected.notBefore read rest hsplit hrest
    · rw [← hbodylen, ← hbodylen, hunaffected.bodylen]
    · rw [← hbody, ← hbody, hunaffected.body]
  · intro hunaffected
    refine ⟨?_, fun read rest hsplit hrest => ?_, ?_, ?_⟩
    · exact (hstate _).trans hunaffected.finished
    · rw [hstate]
      exact hunaffected.notBefore read rest hsplit hrest
    · rw [hbodylen, hbodylen, hunaffected.bodylen]
    · rw [hbody, hbody, hunaffected.body]

end Messages

/-- As long as the buffer suffices for the message, its extensions make no
difference if and only if there are none and the message is decoded at all. -/
theorem unaffected_iff (message : ChunkedMessage)
    (extensions : message.Extensions) {chunkSize : ℕ} (hlow : 2 ≤ chunkSize)
    (hhigh : chunkSize < 2 ^ 32) (memory : ℕ → UInt8) (fsm : HttpFSM)
    (hinside : ∀ stored ∈ (fsm.reset chunkSize memory).storesAll
      (HttpFSM.singly (message.extended extensions)), stored.InBounds) :
    message.Unaffected extensions (fsm.reset chunkSize memory) ↔
      message.KeysFit ∧ extensions.Plain := by
  have hroom := HttpFSM.neverExpands_wide_reset hlow hhigh hinside
  have hview : (fsm.reset chunkSize memory).wide.view =
      ⟨.recvHeader, [], 0, [], none, (fsm.reset chunkSize memory).wide.bl⟩ :=
    rfl
  rw [← unaffected_wide]
  generalize (fsm.reset chunkSize memory).wide = wide at hroom hview
  by_cases hfit : message.KeysFit
  · by_cases hplain : extensions.Plain
    · have hsame := extended_of_plain hplain
      rw [hsame] at hroom
      obtain ⟨⟨init, hlast, hbefore⟩, hfinished⟩ :=
        view_feed_wire hfit hview hroom
      refine iff_of_true ⟨?_, ?_, ?_, ?_⟩ ⟨hfit, hplain⟩
      · rw [hsame]
        exact congrArg HttpFSM.View.state hfinished
      · intro read rest
        rw [hsame]
        exact HttpFSM.state_ne_recvFinish hlast (by rw [hbefore]; decide)
      · rw [hsame]
      · rw [hsame]
    · refine iff_of_false (fun hunaffected => ?_) fun h => hplain h.2
      have herror := feed_extended_error hfit hview hroom hplain
      rw [hunaffected.finished] at herror
      contradiction
  · exact iff_of_false (not_unaffected_of_outruns hfit hview hroom)
      fun h => hfit h.1

/-- A message with the one chunk "abc". -/
private def oneChunk : ChunkedMessage where
  before := [⟨ascii "PUT /abc HTTP/1.1", by decide, by decide⟩]
  key := ascii "transfer-encoding"
  key_eq := by decide
  encoding :=
    ⟨ascii "transfer-encoding: chunked", by decide, by decide⟩
  encoding_eq := by decide
  after := []
  chunks := [⟨ascii "3", ascii "abc", by decide, by decide, by decide,
    by decide⟩]
  trailers := []
  first := by decide
  noLength := by decide
  count := by decide
  total := by decide

private def noExtension : oneChunk.Extensions where
  chunks := [none]
  length := rfl
  last := none

private def oneExtension : oneChunk.Extensions where
  chunks := [some ⟨ascii "a=b", by decide⟩]
  length := rfl
  last := none

theorem unaffected_iff_plain :
    oneChunk.Unaffected noExtension
        (HttpFSM.blank.reset 512 fun _ => 0) ↔
      oneChunk.KeysFit ∧ noExtension.Plain :=
  unaffected_iff oneChunk noExtension (by decide) (by decide) _ _
    (HttpFSM.inBounds_of_short (by decide) (by decide) _ _ (by decide))

/-- "3;a=b" is no size. -/
theorem unaffected_iff_fails :
    oneChunk.KeysFit ∧
      ¬oneChunk.Unaffected oneExtension
        (HttpFSM.blank.reset 512 fun _ => 0) := by
  refine ⟨by decide, fun hunaffected => ?_⟩
  have herror := @feed_extended_error oneChunk oneExtension
    (HttpFSM.blank.reset 512 fun _ => 0) (by decide)
    (HttpFSM.view_reset _ _ _)
    (HttpFSM.neverExpands_of_short (by decide) _ _ (by decide))
    fun hplain => absurd (hplain.1 _ List.mem_cons_self) nofun
  rw [hunaffected.finished] at herror
  contradiction

end ChunkedMessage

end GrpcMtk.Http
