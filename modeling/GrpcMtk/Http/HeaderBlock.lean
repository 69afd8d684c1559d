import GrpcMtk.Http.Requests
import GrpcMtk.Http.Framing

/-!
# The header of a stream

How the parser divides any stream into header lines, and what it takes a
message for whose header has these lines.  The scan below works on the stream
alone; the parser keeps the lines it finds, each with its end replaced by NUL.
-/

namespace GrpcMtk.Http

open GrpcMtk.Proto

/-- A line without the CR of its end.  A CR that is the first byte of the
stream belongs to the line. -/
def lineText (read : ℕ) (line : Bytes) : Bytes :=
  if 2 ≤ read ∧ line.getLast? = some cr then line.dropLast else line

/-- The lines of a header once its empty line is there.  `read` bytes of the
stream are behind, the last of them in `line`.  An LF that is the first byte of
the stream ends no line. -/
def headerLines : ℕ → Bytes → List Bytes → Bytes → Option (List Bytes)
  | _, _, _, [] => none
  | read, line, lines, byte :: rest =>
      if byte = lf ∧ 0 < read then
        if lineText read line = [] then some lines
        else if lines.length < HttpFSM.maxHeader then
          headerLines (read + 1) [] (lines ++ [lineText read line]) rest
        else none
      else headerLines (read + 1) (line ++ [byte]) lines rest

/-- A line as `hdrstr` sees it. -/
def storedLine (line : Bytes) : Bytes × ℕ :=
  (cString line, line.length % 2 ^ 16)

/-- What `putrc` makes of a first line, which may have a NUL in it. -/
def firstCode (line : Bytes) : Option ℤ :=
  lineCode (line.length % 2 ^ 16) ((line.drop 5).take 3)
    (cString (line.drop 8))

/-- The status an `int16_t` keeps of it. -/
def firstStatus (line : Bytes) : ℤ := ((firstCode line).getD (-1)).bmod (2 ^ 16)

/-- The lines announce no body, and the message may be without one. -/
structure Unannounced (lines : List Bytes) : Prop where
  length : ∀ text,
    findKey (ascii "Content-Length") 256 (lines.map storedLine) = some text →
    ∀ value, stoi text ≠ some (value, [])
  chunked : (findKey (ascii "Transfer-Encoding") 256
    (lines.map storedLine)).map (List.take 7) ≠ some (ascii "chunked")
  key : findKey (ascii "Sec-WebSocket-Key") 256 (lines.map storedLine) = none
  accept :
    findKey (ascii "Sec-WebSocket-Accept") 256 (lines.map storedLine) = none
  status : ∀ first, lines.head? = some first → firstStatus first ≠ 200

/-- A stream that begins with a message without a body. -/
def Bodiless (stream : Bytes) : Prop :=
  ∃ lines, headerLines 0 [] [] stream = some lines ∧ Unannounced lines

/-! ## Lines in the buffer -/

/-- Header lines in the buffer, each with one or two NULs in place of its
end. -/
inductive Kept : Bytes → List Header → List Bytes → Prop where
  | nil : Kept [] [] []
  | line {kept : Bytes} {headers : List Header} {lines : List Bytes}
      (before : Kept kept headers lines) (text : Bytes) (nonempty : text ≠ [])
      (count : ℕ) :
      Kept (kept ++ (text ++ List.replicate (count + 1) 0))
        (headers ++ [⟨kept.length, text.length % 2 ^ 16⟩]) (lines ++ [text])

section Kept

variable {kept : Bytes} {headers : List Header} {lines : List Bytes}

theorem Kept.length (hkept : Kept kept headers lines) :
    headers.length = lines.length := by
  induction hkept with
  | nil => rfl
  | line before text nonempty count ih => simp [ih]

theorem Kept.eq_nil (hkept : Kept kept headers lines) (hlines : lines = []) :
    kept = [] ∧ headers = [] := by
  cases hkept with
  | nil => exact ⟨rfl, rfl⟩
  | line => simp at hlines

/-- No line ends in a CR that is still there. -/
theorem Kept.getLast? (hkept : Kept kept headers lines) :
    kept.getLast? ≠ some cr := by
  cases hkept with
  | nil => simp
  | line before text nonempty count =>
      rw [List.replicate_succ', ← List.append_assoc, ← List.append_assoc,
        List.getLast?_concat]
      decide

theorem Kept.length_le (hkept : Kept kept headers lines) {line : Bytes}
    (hline : line ∈ lines) : line.length < kept.length := by
  induction hkept with
  | nil => simp at hline
  | line before text nonempty count ih =>
      rw [List.length_append, List.length_append, List.length_replicate]
      rcases List.mem_append.mp hline with hbefore | hnew
      · have hlength := ih hbefore
        omega
      · rw [List.mem_singleton.mp hnew]
        omega

/-- The first line stands at the start of the buffer. -/
theorem Kept.first (hkept : Kept kept headers lines) {first : Bytes}
    (hfirst : lines.head? = some first) :
    ∃ behind entries, kept = first ++ 0 :: behind ∧
      headers = ⟨0, first.length % 2 ^ 16⟩ :: entries := by
  induction hkept with
  | nil => simp at hfirst
  | @line kept headers lines before text nonempty count ih =>
      cases lines with
      | nil =>
          obtain ⟨hempty, hnone⟩ := before.eq_nil rfl
          rw [List.nil_append, List.head?_cons, Option.some.injEq] at hfirst
          rw [hempty, hnone, ← hfirst]
          exact ⟨List.replicate count 0, [], rfl, rfl⟩
      | cons line rest =>
          obtain ⟨behind, entries, hkept, hheaders⟩ := ih hfirst
          exact ⟨behind ++ (text ++ List.replicate (count + 1) 0), _,
            by rw [hkept, List.append_assoc]; rfl,
            by rw [hheaders]; rfl⟩

theorem cString_of_nul (text behind : Bytes) :
    cString (text ++ 0 :: behind) = cString text := by
  rw [cString, cString, List.takeWhile_append]
  split
  case isTrue hlength =>
    rw [List.takeWhile_cons_of_neg (by decide), List.append_nil]
    exact ((List.takeWhile_prefix _).eq_of_length hlength).symm
  case isFalse => rfl

/-- The entries lead to the lines. -/
theorem Kept.storedLines {fsm : HttpFSM} (hkept : Kept kept headers lines)
    {behind : Bytes} (hcontent : fsm.content = kept ++ behind) :
    headers.map (fun header => (fsm.cstr header.hd, header.hl)) =
      lines.map storedLine := by
  induction hkept generalizing behind with
  | nil => rfl
  | @line kept headers lines before text nonempty count ih =>
      rw [List.append_assoc] at hcontent
      have hline : fsm.cstr kept.length = cString text := by
        rw [HttpFSM.cstr, hcontent, List.drop_left, List.replicate_succ,
          List.append_assoc, List.cons_append]
        exact cString_of_nul text _
      rw [List.map_append, List.map_append, ih hcontent, List.map_singleton,
        List.map_singleton, hline]
      rfl

end Kept

/-! ## Receiving header lines -/

/-- A line and its LF are its text and its end. -/
theorem lineText_append (read : ℕ) (line : Bytes) :
    ∃ ending, line ++ [lf] = lineText read line ++ ending ∧
      (2 ≤ read ∧ line.getLast? = some cr ∧ ending = [cr, lf] ∨
        ¬(2 ≤ read ∧ line.getLast? = some cr) ∧ ending = [lf] ∧
          lineText read line = line) := by
  rw [lineText]
  split
  case isTrue hcr =>
    refine ⟨[cr, lf], ?_, .inl ⟨hcr.1, hcr.2, rfl⟩⟩
    calc line ++ [lf] = line.dropLast ++ [cr] ++ [lf] := by
          rw [List.dropLast_append_getLast? cr hcr.2]
      _ = line.dropLast ++ [cr, lf] := List.append_assoc _ _ _
  case isFalse hcr => exact ⟨[lf], rfl, .inr ⟨hcr, rfl, rfl⟩⟩

namespace HttpFSM

/-- The parser has kept these header lines and begun another. -/
structure Scanned (fsm : HttpFSM) (line : Bytes) (lines : List Bytes) :
    Prop where
  state : fsm.state = .recvHeader
  kept : ∃ kept, Kept kept fsm.headers lines ∧ fsm.content = kept ++ line ∧
    fsm.mBuf = kept.length

theorem scanned_reset (chunkSize : ℕ) (memory : ℕ → UInt8) (fsm : HttpFSM) :
    Scanned (fsm.reset chunkSize memory) [] [] where
  state := rfl
  kept := ⟨[], .nil, rfl, rfl⟩

section Scanning

variable {fsm : HttpFSM} {kept line : Bytes} {lines : List Bytes}

/-- The first LF of the stream ends a line unless it is its first byte. -/
theorem recvLf_of_second {byte : UInt8} (hcontent : fsm.content = [byte, lf]) :
    fsm.recvLf = 1 := by
  have hlen : fsm.mLen = 2 := by
    rw [← length_content, hcontent]
    rfl
  have hlf : fsm.mP 1 = lf :=
    @mP_of_content fsm [byte] [] lf hcontent
  rw [recvLf, hlen, if_neg (by omega), if_pos ⟨by omega, hlf⟩]

/-- The end of a line is as long as the text says. -/
theorem recvLf_of_lineText {ending : Bytes}
    (hcontent : fsm.content = kept ++ (line ++ [lf]))
    (hlast : kept.getLast? ≠ some cr) (hread : 0 < (kept ++ line).length)
    (hending : line ++ [lf] = lineText (kept ++ line).length line ++ ending)
    (hkind : 2 ≤ (kept ++ line).length ∧ line.getLast? = some cr ∧
        ending = [cr, lf] ∨
      ¬(2 ≤ (kept ++ line).length ∧ line.getLast? = some cr) ∧
        ending = [lf] ∧ lineText (kept ++ line).length line = line) :
    fsm.recvLf = ending.length := by
  rcases hkind with ⟨htwo, hcr, rfl⟩ | ⟨hcr, rfl, -⟩
  · rw [hending, ← List.append_assoc] at hcontent
    refine recvLf_of_crlf hcontent fun hempty => ?_
    have hlength := congrArg List.length hending
    rw [List.append_eq_nil_iff] at hempty
    rw [hempty.2, List.length_append, List.length_singleton] at hlength
    rw [List.length_append, hempty.1] at htwo
    change line.length + 1 = 2 at hlength
    change 2 ≤ 0 + line.length at htwo
    omega
  · rw [← List.append_assoc] at hcontent
    by_cases hend : (kept ++ line).getLast? = some cr
    · have hline : line.getLast? = some cr := by
        cases line with
        | nil =>
            rw [List.append_nil] at hend
            exact absurd hend hlast
        | cons byte rest =>
            rwa [List.getLast?_append_of_ne_nil _
              (List.cons_ne_nil _ _)] at hend
      have hone : (kept ++ line).length = 1 := by
        by_contra hother
        exact hcr ⟨by omega, hline⟩
      obtain ⟨byte, hbyte⟩ := List.length_eq_one_iff.mp hone
      rw [hbyte] at hcontent
      exact recvLf_of_second hcontent
    · exact recvLf_of_lf hcontent (List.ne_nil_of_length_pos hread) hend

/-- The first line is not empty. -/
theorem Scanned.lines_ne_nil (hscanned : Scanned fsm line lines)
    (hpos : 0 < fsm.mLen) (htext : lineText fsm.mLen line = []) :
    lines ≠ [] := by
  intro hnone
  obtain ⟨kept, hkept, hcontent, -⟩ := hscanned.kept
  have hlen : fsm.mLen = line.length := by
    rw [← length_content, hcontent, (hkept.eq_nil hnone).1, List.nil_append]
  rw [lineText] at htext
  split at htext
  case isTrue hcr =>
    have hdrop := congrArg List.length htext
    rw [List.length_dropLast, List.length_nil] at hdrop
    omega
  case isFalse =>
    rw [htext, List.length_nil] at hlen
    omega

/-- A byte that ends no line. -/
theorem Scanned.inside (hscanned : Scanned fsm line lines) {byte : UInt8}
    (hlen : fsm.mLen + 1 < 2 ^ 32) (hbyte : ¬(byte = lf ∧ 0 < fsm.mLen)) :
    (fsm.store byte).recv = fsm.store byte ∧
      Scanned (fsm.store byte) (line ++ [byte]) lines := by
  have hcontent := content_store byte hlen
  have hnone : (fsm.store byte).recvLf = 0 := by
    by_cases hlf : byte = lf
    · have hfirst : fsm.mLen = 0 := by
        by_contra hother
        exact hbyte ⟨hlf, Nat.pos_of_ne_zero hother⟩
      rw [recvLf, store_mLen, hfirst]
      rfl
    · exact recvLf_of_ne hcontent hlf
  obtain ⟨kept, hkept, hbefore, hbuf⟩ := hscanned.kept
  refine ⟨?_, (store_state byte fsm).trans hscanned.state, kept, ?_, ?_, ?_⟩
  · rw [recv, store_state, hscanned.state]
    dsimp only
    rw [recvHeader, if_pos hnone]
  · rwa [store_headers]
  · rw [hcontent, hbefore, List.append_assoc]
  · rw [store_mBuf, hbuf]

/-- What is there when the LF of a line has been stored. -/
structure LineStored (stored : HttpFSM) (kept text : Bytes) (count : ℕ)
    (lines : List Bytes) : Prop where
  state : stored.state = .recvHeader
  keeps : Kept kept stored.headers lines
  mBuf : stored.mBuf = kept.length
  mLen : stored.mLen = kept.length + text.length + (count + 1)
  recvLf : stored.recvLf = count + 1
  content : (stored.terminate (count + 1)).content =
    kept ++ (text ++ List.replicate (count + 1) 0)

theorem Scanned.store (hscanned : Scanned fsm line lines)
    (hlen : fsm.mLen + 1 < 2 ^ 32) (hpos : 0 < fsm.mLen) :
    ∃ kept count,
      LineStored (fsm.store lf) kept (lineText fsm.mLen line) count lines := by
  obtain ⟨kept, hkept, hbefore, hbuf⟩ := hscanned.kept
  have hread : fsm.mLen = (kept ++ line).length := by
    rw [← hbefore, length_content]
  have hcontent : (fsm.store lf).content = kept ++ (line ++ [lf]) := by
    rw [content_store lf hlen, hbefore, List.append_assoc]
  obtain ⟨ending, hending, hkind⟩ := lineText_append fsm.mLen line
  have hcount : ∃ count, ending.length = count + 1 := by
    rcases hkind with ⟨-, -, rfl⟩ | ⟨-, rfl, -⟩
    · exact ⟨1, rfl⟩
    · exact ⟨0, rfl⟩
  obtain ⟨count, hcount⟩ := hcount
  rw [hread] at hending hkind hpos
  have hlf := recvLf_of_lineText hcontent hkept.getLast? hpos hending hkind
  rw [← hread] at hending
  have hsplit : (fsm.store lf).content =
      kept ++ lineText fsm.mLen line ++ ending := by
    rw [hcontent, hending, List.append_assoc]
  refine ⟨kept, count, ?_, ?_, ?_, ?_, hlf.trans hcount, ?_⟩
  · exact (store_state lf fsm).trans hscanned.state
  · rwa [store_headers]
  · rw [store_mBuf, hbuf]
  · rw [← length_content, hsplit, List.length_append, List.length_append,
      hcount]
  · rw [← hcount, content_terminate hsplit, List.append_assoc]

/-- A line that is not empty is kept. -/
theorem LineStored.next {stored : HttpFSM} {text : Bytes} {count : ℕ}
    (hstored : LineStored stored kept text count lines) (htext : text ≠ [])
    (hroom : lines.length < maxHeader) :
    Scanned stored.recv [] (lines ++ [text]) ∧
      stored.recv.mLen = stored.mLen ∧ stored.recv.bl = stored.bl := by
  have hpos := List.length_pos_of_ne_nil htext
  have hlen := hstored.mLen
  have hbuf := hstored.mBuf
  have hlf := hstored.recvLf
  have hkept := hstored.keeps
  have hview := view_recv_of_lineEnd (.inl hstored.state) (by omega)
    (by omega) (hkept.length ▸ hroom)
  have hsize : stored.mLen - stored.mBuf - (count + 1) = text.length := by
    omega
  rw [hlf, view_addHeader, terminate_mLen, terminate_mBuf, terminate_headers,
    hsize, hbuf] at hview
  have hcontent : stored.recv.content =
      (stored.terminate (count + 1)).content := congrArg View.content hview
  refine ⟨⟨?_, kept ++ (text ++ List.replicate (count + 1) 0), ?_, ?_, ?_⟩,
    ?_, ?_⟩
  · have hstate := congrArg View.state hview
    exact hstate.trans ((terminate_state _ _).trans hstored.state)
  · have hheaders : stored.recv.headers = _ := congrArg View.headers hview
    rw [hheaders]
    exact hkept.line text htext count
  · rw [hcontent, List.append_nil]
    exact hstored.content
  · have hnext : stored.recv.mBuf = stored.mLen := congrArg View.mBuf hview
    rw [hnext, List.length_append, List.length_append, List.length_replicate]
    omega
  · rw [← length_content, hcontent, length_content, terminate_mLen]
  · have hbl : stored.recv.bl = (stored.terminate (count + 1)).bl :=
      congrArg View.bl hview
    rw [hbl, terminate_bl]

theorem LineStored.tooMany {stored : HttpFSM} {text : Bytes} {count : ℕ}
    (hstored : LineStored stored kept text count lines) (htext : text ≠ [])
    (hfull : ¬lines.length < maxHeader) : stored.recv.state = .error := by
  have hpos := List.length_pos_of_ne_nil htext
  have hlen := hstored.mLen
  have hbuf := hstored.mBuf
  have hlf := hstored.recvLf
  exact recv_tooMany hstored.state (by omega) (by omega)
    (hstored.keeps.length ▸ Nat.le_of_not_lt hfull)

theorem LineStored.not_atHeaderEnd {stored : HttpFSM} {text : Bytes}
    {count : ℕ} (hstored : LineStored stored kept text count lines)
    (htext : text ≠ []) : ¬stored.AtHeaderEnd := fun hat => by
  have hpos := List.length_pos_of_ne_nil htext
  have hlen := hstored.mLen
  have hbuf := hstored.mBuf
  have hlf := hstored.recvLf
  have hempty := hat.2.2
  omega

/-- At the empty line the lines are complete. -/
theorem LineStored.atHeaderEnd {stored : HttpFSM} {count : ℕ}
    (hstored : LineStored stored kept [] count lines) : stored.AtHeaderEnd := by
  have hlen := hstored.mLen
  have hbuf := hstored.mBuf
  have hlf := hstored.recvLf
  rw [List.length_nil, Nat.add_zero] at hlen
  exact ⟨hstored.state, by omega, by omega⟩

end Scanning

/-! ## The end of a header -/

section HeaderEnd

variable {fsm : HttpFSM} {kept first behind : Bytes} {lines : List Bytes}

theorem hdrstr_of_kept (hkept : Kept kept fsm.headers lines)
    (hcontent : fsm.content = kept ++ behind) (key : String) (l : ℕ) :
    fsm.hdrstr key l = findKey (ascii key) l (lines.map storedLine) := by
  rw [hdrstr, hkept.storedLines hcontent]

theorem versionEnd_of_first (hcontent : fsm.content = first ++ 0 :: behind)
    (hlong : 8 ≤ first.length) (hl : ℕ) :
    fsm.versionEnd ⟨0, hl⟩ = cString (first.drop 8) := by
  obtain ⟨more, hmemory⟩ :=
    @map_mP_range fsm (max fsm.mLen (0 + hl + 16)) (Nat.le_max_left _ _)
  rw [versionEnd, hmemory, hcontent, List.append_assoc, List.cons_append,
    List.drop_append_of_le_length hlong]
  exact cString_of_nul _ _

/-- A first line with room for a version is read by itself. -/
theorem putrc_of_first (hcontent : fsm.content = first ++ 0 :: behind)
    (hlong : 8 ≤ first.length) {entries : List Header}
    (hheaders : fsm.headers = ⟨0, first.length % 2 ^ 16⟩ :: entries) :
    fsm.putrc.2 = firstCode first := by
  rw [putrc_snd hheaders, mP_version hcontent hlong,
    versionEnd_of_first hcontent hlong, firstCode]

/-- On a shorter line no token fits. -/
theorem lineCode_of_short {hl : ℕ} (hshort : hl < 8) (version text : Bytes) :
    lineCode hl version text = none ∨ lineCode hl version text = some 0 := by
  rw [lineCode]
  split
  case isFalse => exact .inl rfl
  case isTrue =>
    cases text with
    | nil => exact .inr rfl
    | cons byte text =>
        cases text with
        | nil => exact .inr rfl
        | cons next text =>
            rw [skipToToken]
            by_cases htoken : next ≠ space
            · rw [if_pos htoken]
              dsimp only
              rw [takeToken, if_neg htoken, if_pos (by omega)]
              exact .inl rfl
            · rw [if_neg htoken, if_pos (by omega)]
              exact .inl rfl

theorem firstCode_of_short (hshort : first.length < 8) :
    firstCode first = none := by
  have hversion : ((first.drop 5).take 3).length < 3 := by
    rw [List.length_take, List.length_drop]
    omega
  rw [firstCode, lineCode, if_neg]
  rintro (hnew | hold)
  · rw [hnew] at hversion
    exact absurd hversion (by decide)
  · rw [hold] at hversion
    exact absurd hversion (by decide)

/-- The status is 200 if and only if the first line says so. -/
theorem setResult_eq_iff (hkept : Kept kept fsm.headers lines)
    (hcontent : fsm.content = kept ++ behind)
    (hfirst : lines.head? = some first) :
    fsm.setResult.res = 200 ↔ firstStatus first = 200 := by
  obtain ⟨more, entries, hstart, hheaders⟩ := hkept.first hfirst
  rw [hstart, List.append_assoc, List.cons_append] at hcontent
  by_cases hlong : 8 ≤ first.length
  · rw [firstStatus, ← putrc_of_first hcontent hlong hheaders]
    exact Iff.rfl
  · have hshort : first.length % 2 ^ 16 < 8 := by omega
    have hnone : firstStatus first ≠ 200 := by
      rw [firstStatus, firstCode_of_short (by omega)]
      decide
    refine iff_of_false (fun hres => ?_) hnone
    change (fsm.putrc.2.getD (-1)).bmod (2 ^ 16) = 200 at hres
    rw [putrc_snd hheaders] at hres
    rcases lineCode_of_short hshort _ _ with hcode | hcode
    · rw [hcode] at hres
      exact absurd hres (by decide)
    · rw [hcode] at hres
      exact absurd hres (by decide)

/-- The header announces no body, and the message may be without one. -/
structure AnnouncesNone (fsm : HttpFSM) : Prop where
  length : fsm.hdrint "Content-Length" = none
  chunked : (fsm.hdrstr "Transfer-Encoding" 256).map (List.take 7) ≠
    some (ascii "chunked")
  key : fsm.hdrstr "Sec-WebSocket-Key" 256 = none
  accept : fsm.hdrstr "Sec-WebSocket-Accept" 256 = none
  status : fsm.setResult.res ≠ 200

/-- A header without a body ends the message, and leaves the length of the
body as it is. -/
theorem AnnouncesNone.endHeader (hnone : AnnouncesNone fsm) :
    fsm.endHeader = { fsm.setResult with state := .recvFinish } := by
  have hint : fsm.setResult.hdrint "Content-Length" = none := hnone.length
  have hsocket : ¬(fsm.setResult.hdrstr "Sec-WebSocket-Key" 256 ≠ none ∨
      fsm.setResult.hdrstr "Sec-WebSocket-Accept" 256 ≠ none) := by
    rw [not_or, not_not, not_not]
    exact ⟨hnone.key, hnone.accept⟩
  have hchunked : ¬(fsm.setResult.hdrstr "Transfer-Encoding" 256).map
      (List.take 7) = some (ascii "chunked") := hnone.chunked
  rw [HttpFSM.endHeader, hint]
  dsimp only
  rw [if_neg hchunked, if_neg hsocket, if_neg hnone.status]

theorem AnnouncesNone.bl_eq (hnone : AnnouncesNone fsm) :
    fsm.endHeader.state = .recvFinish ∧ fsm.endHeader.bl = fsm.bl := by
  rw [hnone.endHeader]
  exact ⟨rfl, rfl⟩

/-- The parser announces what the lines announce. -/
theorem announcesNone_iff (hkept : Kept kept fsm.headers lines)
    (hcontent : fsm.content = kept ++ behind) (hlines : lines ≠ []) :
    AnnouncesNone fsm ↔ Unannounced lines := by
  obtain ⟨first, hfirst⟩ := Option.ne_none_iff_exists'.mp
    (mt List.head?_eq_none_iff.mp hlines)
  have hstr (key : String) := hdrstr_of_kept hkept hcontent key 256
  have hstatus := setResult_eq_iff hkept hcontent hfirst
  constructor
  · intro hnone
    refine ⟨fun text htext value hstoi => ?_, ?_, ?_, ?_, ?_⟩
    · exact hdrint_eq_none_iff.mp hnone.length text
        ⟨(hstr _).trans htext, value, hstoi⟩
    · exact hstr _ ▸ hnone.chunked
    · exact hstr _ ▸ hnone.key
    · exact hstr _ ▸ hnone.accept
    · intro other hother
      rw [hfirst, Option.some.injEq] at hother
      exact hother ▸ mt hstatus.mpr hnone.status
  · intro hnone
    refine ⟨hdrint_eq_none_iff.mpr ?_, ?_, ?_, ?_, ?_⟩
    · rintro text ⟨htext, value, hstoi⟩
      exact hnone.length text ((hstr _).symm.trans htext) value hstoi
    · exact hstr _ ▸ hnone.chunked
    · exact hstr _ ▸ hnone.key
    · exact hstr _ ▸ hnone.accept
    · exact mt hstatus.mp (hnone.status first hfirst)

/-- Lines that announce a body, or a status that needs one, are not all
short. -/
theorem exists_long_line (hannounced : ¬Unannounced lines) :
    ∃ line ∈ lines, 8 ≤ line.length := by
  by_contra hshort
  have hlength : ∀ line ∈ lines, line.length < 8 := by
    intro line hline
    by_contra hlong
    exact hshort ⟨line, hline, Nat.le_of_not_lt hlong⟩
  have hnone (key : String) (hkey : 8 ≤ (ascii key).length) :
      findKey (ascii key) 256 (lines.map storedLine) = none := by
    by_contra hfound
    obtain ⟨value, hvalue⟩ := Option.ne_none_iff_exists'.mp hfound
    have hannounce := announced_of_findKey hvalue
    obtain ⟨stored, hstored, -⟩ := Option.map_eq_some_iff.mp hannounce
    have hfind := List.find?_some hstored
    have hstarts : StartsWith (ascii key) stored := of_decide_eq_true hfind
    rw [List.map_map] at hstored
    obtain ⟨line, hline, rfl⟩ :=
      List.mem_map.mp (List.mem_of_find?_eq_some hstored)
    have hprefix := hstarts.length_le
    have hcut : (cString line).length ≤ line.length :=
      (List.takeWhile_prefix _).length_le
    have hbound := hlength line hline
    rw [List.length_map, List.length_map] at hprefix
    change (ascii key).length ≤ (cString line).length at hprefix
    omega
  have hlengthKey := hnone "Content-Length" (by decide)
  have hchunkedKey := hnone "Transfer-Encoding" (by decide)
  refine hannounced ⟨?_, ?_, hnone _ (by decide), hnone _ (by decide), ?_⟩
  · intro text htext
    rw [hlengthKey] at htext
    contradiction
  · rw [hchunkedKey]
    decide
  · intro first hfirst
    rw [firstStatus, firstCode_of_short (hlength first
      (List.mem_of_head? hfirst))]
    decide

end HeaderEnd

end HttpFSM

end GrpcMtk.Http
