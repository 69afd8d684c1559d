import GrpcMtk.Http.Chunked

/-!
# Requests without a body

The parser reads the first line of every message as a status line.  For a
request without a body this decides whether it is accepted: a request line
that happens to read as a status line with the code 200 is taken for a reply
whose length is unknown, which is an error.
-/

namespace GrpcMtk.Http

open GrpcMtk.Proto

def isLetter (byte : UInt8) : Bool :=
  65 ≤ byte ∧ byte ≤ 90 ∨ 97 ≤ byte ∧ byte ≤ 122

/-- Only bytes from 0x21 to 0x7e. -/
def Visible (text : Bytes) : Prop := ∀ byte ∈ text, 33 ≤ byte ∧ byte ≤ 126

instance (text : Bytes) : Decidable (Visible text) :=
  List.decidableBAll (fun byte => 33 ≤ byte ∧ byte ≤ 126) text

/-- What `putrc` makes of a version and the text behind it. -/
def lineCode (hl : ℕ) (version text : Bytes) : Option ℤ :=
  if version = ascii "1.1" ∨ version = ascii "1.0" then
    match skipToToken hl 8 text with
    | none => none
    | some (read, text) =>
        match takeToken hl read [] text with
        | none => none
        | some tok => atoi tok 256
  else none

/-- What `putrc` makes of a first line. -/
def statusCode (line : Bytes) : Option ℤ :=
  lineCode (line.length % 2 ^ 16) ((line.drop 5).take 3) (line.drop 8)

/-- `rc()` behind a block with this first line. -/
def statusOf (line : Bytes) : ℤ := ((statusCode line).getD (-1)).bmod (2 ^ 16)

/-- A request line and header lines that announce no body. -/
structure BodylessRequest where
  ending : Bytes
  lineEnd : HttpFSM.LineEnd ending
  method : Bytes
  method_nonempty : method ≠ []
  letters : ∀ byte ∈ method, isLetter byte = true
  target : Bytes
  visible : Visible target
  slash : target.head? = some 47
  version : Bytes
  version_eq : version = ascii "HTTP/1.0" ∨ version = ascii "HTTP/1.1"
  headers : List Line
  count : headers.length ≤ 63
  bodiless : ∀ line ∈ headers,
    ¬StartsWith contentLength line.text ∧
      ¬StartsWith transferEncoding line.text ∧
      ¬StartsWith (ascii "Sec-WebSocket-Key") line.text ∧
      ¬StartsWith (ascii "Sec-WebSocket-Accept") line.text

namespace HttpFSM

section Status

variable {fsm : HttpFSM} {first rest : Bytes}

theorem mP_of_line (hcontent : fsm.content = first ++ rest) {index : ℕ}
    {byte : UInt8} (hbyte : first[index]? = some byte) :
    fsm.mP index = byte := by
  obtain ⟨hindex, hget⟩ := List.getElem?_eq_some_iff.mp hbyte
  have hsplit : fsm.content =
      first.take index ++ byte :: (first.drop (index + 1) ++ rest) := by
    rw [hcontent, ← hget, ← List.cons_append, List.getElem_cons_drop,
      ← List.append_assoc, List.take_append_drop]
  have hat := mP_of_content hsplit
  rwa [List.length_take, Nat.min_eq_left (Nat.le_of_lt hindex)] at hat

/-- The code `putrc` returns, from what it reads. -/
theorem putrc_snd {header : Header} {headers : List Header}
    (hheaders : fsm.headers = header :: headers) :
    fsm.putrc.2 =
      lineCode header.hl
        [fsm.mP (header.hd + 5), fsm.mP (header.hd + 6),
          fsm.mP (header.hd + 7)]
        (fsm.versionEnd header) := by
  rw [putrc, hheaders, lineCode]
  dsimp only
  split
  case isTrue hnew => exact (if_pos (.inl hnew)).symm
  case isFalse hnew =>
    split
    case isTrue hold => exact (if_pos (.inr hold)).symm
    case isFalse hold => exact (if_neg (not_or.mpr ⟨hnew, hold⟩)).symm

/-- The version of a line that is long enough for one. -/
theorem mP_version (hcontent : fsm.content = first ++ rest)
    (hlong : 8 ≤ first.length) :
    [fsm.mP (0 + 5), fsm.mP (0 + 6), fsm.mP (0 + 7)] =
      (first.drop 5).take 3 := by
  have hbyte (index : ℕ) (hindex : index < first.length) :
      fsm.mP index = first[index] :=
    mP_of_line hcontent (List.getElem?_eq_getElem hindex)
  rw [List.drop_eq_getElem_cons (by omega),
    List.drop_eq_getElem_cons (by omega),
    List.drop_eq_getElem_cons (by omega), hbyte (0 + 5) (by omega),
    hbyte (0 + 6) (by omega), hbyte (0 + 7) (by omega)]
  rfl

/-- `putrc` reads the first line only. -/
theorem putrc_of_line (hcontent : fsm.content = first ++ 0 :: rest)
    (hline : 0 ∉ first) (hlong : 8 ≤ first.length) {headers : List Header}
    (hheaders : fsm.headers = ⟨0, first.length % 2 ^ 16⟩ :: headers) :
    fsm.putrc.2 = statusCode first := by
  have htext : fsm.versionEnd ⟨0, first.length % 2 ^ 16⟩ = first.drop 8 := by
    have hend : first.take 8 ++ first.drop 8 ++ 0 :: rest = fsm.content := by
      rw [hcontent, List.take_append_drop]
    exact versionEnd_of_content hend (by simp; omega)
      (fun hmem => hline (List.mem_of_mem_drop hmem)) _
  rw [putrc_snd hheaders, mP_version hcontent hlong, htext]
  rfl

end Status

end HttpFSM

/-! ## Keys and request lines -/

section RequestLines

variable {method : Bytes} {byte : UInt8}

theorem isLetter_iff : isLetter byte = true ↔
    65 ≤ byte.toNat ∧ byte.toNat ≤ 90 ∨ 97 ≤ byte.toNat ∧ byte.toNat ≤ 122 := by
  rw [isLetter, decide_eq_true_eq, UInt8.le_iff_toNat_le, UInt8.le_iff_toNat_le,
    UInt8.le_iff_toNat_le, UInt8.le_iff_toNat_le]
  exact Iff.rfl

theorem printable_of_letters (hletters : ∀ byte ∈ method, isLetter byte = true) :
    Printable method := by
  intro byte hbyte
  have hletter := isLetter_iff.mp (hletters byte hbyte)
  rw [UInt8.le_iff_toNat_le, UInt8.le_iff_toNat_le]
  change 32 ≤ byte.toNat ∧ byte.toNat ≤ 126
  omega

/-- No letter becomes a dash or a space in lower case. -/
theorem not_mem_map_tolower (hletters : ∀ byte ∈ method, isLetter byte = true)
    (hbyte : byte.toNat < 65) : byte ∉ method.map tolower := by
  intro hmem
  obtain ⟨letter, hletter, hlower⟩ := List.mem_map.mp hmem
  have hrange := isLetter_iff.mp (hletters letter hletter)
  rw [tolower] at hlower
  split at hlower
  case isTrue hupper =>
    rw [UInt8.le_iff_toNat_le, UInt8.le_iff_toNat_le] at hupper
    have hnat := congrArg UInt8.toNat hlower
    rw [UInt8.toNat_add] at hnat
    change 65 ≤ letter.toNat ∧ letter.toNat ≤ 90 at hupper
    change (letter.toNat + 32) % 256 = byte.toNat at hnat
    omega
  case isFalse =>
    rw [hlower] at hrange
    omega

/-- A key with a dash and without a space starts no request line. -/
theorem not_startsWith_requestLine {key rest : Bytes}
    (hletters : ∀ byte ∈ method, isLetter byte = true)
    (hdash : 45 ∈ key.map tolower) (hspace : 32 ∉ key.map tolower) :
    ¬StartsWith key (method ++ space :: rest) := by
  intro hstarts
  rw [StartsWith, List.map_append, List.map_cons] at hstarts
  have hname : method.map tolower ++ [32] <+:
      method.map tolower ++ tolower space :: rest.map tolower := by
    rw [List.prefix_append_right_inj]
    exact ⟨rest.map tolower, rfl⟩
  rcases List.prefix_or_prefix_of_prefix hstarts hname with hshort | hlong
  · rcases List.mem_append.mp (hshort.subset hdash) with hmem | hmem
    · exact not_mem_map_tolower hletters (by decide) hmem
    · exact absurd (List.mem_singleton.mp hmem) (by decide)
  · exact hspace (hlong.subset
      (List.mem_append_right _ (List.mem_singleton.mpr rfl)))

end RequestLines

namespace BodylessRequest

variable (request : BodylessRequest)

def requestLine : Bytes :=
  request.method ++ space :: (request.target ++ space :: request.version)

theorem requestLine_ne_nil : request.requestLine ≠ [] :=
  List.append_ne_nil_of_left_ne_nil request.method_nonempty _

theorem printable_requestLine : Printable request.requestLine := by
  have hblank : 32 ≤ space ∧ space ≤ 126 := by decide
  have hversion : Printable request.version := by
    rcases request.version_eq with h | h <;> rw [h] <;> decide
  intro byte hbyte
  rcases List.mem_append.mp hbyte with hmethod | hrest
  · exact printable_of_letters request.letters byte hmethod
  rcases List.mem_cons.mp hrest with rfl | htail
  · exact hblank
  rcases List.mem_append.mp htail with htarget | hend
  · have hvisible := request.visible byte htarget
    exact ⟨UInt8.le_trans (by decide) hvisible.1, hvisible.2⟩
  rcases List.mem_cons.mp hend with rfl | hlast
  · exact hblank
  · exact hversion byte hlast

theorem le_length_requestLine : 8 ≤ request.requestLine.length := by
  have hversion : request.version.length = 8 := by
    rcases request.version_eq with h | h <;> rw [h] <;> rfl
  rw [requestLine, List.length_append, List.length_cons, List.length_append,
    List.length_cons, hversion]
  omega

def lines : List Line :=
  ⟨request.requestLine, request.requestLine_ne_nil,
    request.printable_requestLine⟩ :: request.headers

def wire : Bytes := wireLines request.ending request.lines ++ request.ending

/-- What is read of a request from a fresh parser, once it is fed. -/
structure Accepted (request : BodylessRequest) (fsm : HttpFSM) : Prop where
  finished : (fsm.feed request.wire).state = .recvFinish
  notBefore : ∀ read rest, request.wire = read ++ rest → rest ≠ [] →
    (fsm.feed read).state ≠ .recvFinish
  hdrlen : (fsm.feed request.wire).headers.length = request.lines.length
  hdr : ∀ index, (fsm.feed request.wire).hdr index =
    (request.lines.map fun line => line.text)[index]?
  inBounds : ∀ stored ∈ fsm.storesAll (HttpFSM.singly request.wire),
    stored.InBounds

variable {request}

theorem lines_ne_nil : request.lines ≠ [] := List.cons_ne_nil _ _

theorem lines_count : request.lines.length ≤ HttpFSM.maxHeader :=
  Nat.succ_le_succ request.count

/-- A line that announces a body is not found. -/
theorem findKey_eq_none {key : Bytes} (hdash : 45 ∈ key.map tolower)
    (hspace : 32 ∉ key.map tolower)
    (hheaders : ∀ line ∈ request.headers, ¬StartsWith key line.text) :
    findKey key 256
        ((request.lines.map fun line => line.text).map withLength) = none := by
  apply Http.findKey_eq_none
  rw [List.forall_mem_map, lines, List.forall_mem_cons]
  exact ⟨not_startsWith_requestLine request.letters hdash hspace, hheaders⟩

section Feeding

variable {stored : HttpFSM}

theorem res_of_requestLine
    (hat : HttpFSM.AtEmptyLine request.ending request.lines stored) :
    (stored.terminate request.ending.length).setResult.res =
      statusOf request.requestLine := by
  obtain ⟨count, hcount⟩ := HttpFSM.length_lineEnd request.lineEnd
  have hnuls : List.replicate request.ending.length (0 : UInt8) =
      0 :: List.replicate count 0 := by
    rw [hcount, List.replicate_succ]
  have hcontent : (stored.terminate request.ending.length).content =
      request.requestLine ++ 0 :: (List.replicate count 0 ++
        keptLines request.ending request.headers ++
          List.replicate request.ending.length 0) := by
    rw [HttpFSM.content_terminate hat.content]
    simp only [lines, keptLines, List.flatMap_cons, hnuls, List.append_assoc,
      List.cons_append]
  have hheaders : (stored.terminate request.ending.length).headers =
      ⟨0, request.requestLine.length % 2 ^ 16⟩ ::
        lineEntries request.ending
          (0 + request.requestLine.length + request.ending.length)
          request.headers := by
    rw [HttpFSM.terminate_headers, hat.headers]
    rfl
  rw [statusOf, ← HttpFSM.putrc_of_line hcontent
    request.printable_requestLine.nul_not_mem request.le_length_requestLine
    hheaders]
  rfl

/-- At the empty line the request is accepted or fails. -/
theorem recv_emptyLine
    (hat : HttpFSM.AtEmptyLine request.ending request.lines stored) :
    stored.recv =
      { (stored.terminate request.ending.length).setResult with
        state := if statusOf request.requestLine = 200 then .error
          else .recvFinish } := by
  have hnone (key : String) (hdash : 45 ∈ (ascii key).map tolower)
      (hspace : 32 ∉ (ascii key).map tolower)
      (hheaders : ∀ line ∈ request.headers,
        ¬StartsWith (ascii key) line.text) :
      (stored.terminate request.ending.length).setResult.hdrstr key 256 =
        none := by
    rw [hat.hdrstr_eq request.lineEnd, findKey_eq_none hdash hspace hheaders]
  rw [hat.recv_eq request.lineEnd lines_ne_nil, HttpFSM.endHeader_of_bodiless,
    res_of_requestLine hat]
  · exact HttpFSM.hdrint_of_hdrstr_none (hnone _ (by decide) (by decide)
      fun line hline => (request.bodiless line hline).1)
  · exact hnone _ (by decide) (by decide)
      fun line hline => (request.bodiless line hline).2.1
  · exact hnone _ (by decide) (by decide)
      fun line hline => (request.bodiless line hline).2.2.1
  · exact hnone _ (by decide) (by decide)
      fun line hline => (request.bodiless line hline).2.2.2

end Feeding

/-- A fed request is accepted unless its first line reads as a 200. -/
theorem accepted_iff {fsm : HttpFSM}
    (hview : fsm.view = ⟨.recvHeader, [], 0, [], none, fsm.bl⟩)
    (hroom : fsm.NeverExpands (HttpFSM.singly request.wire))
    (hbounds : ∀ stored ∈ fsm.storesAll (HttpFSM.singly request.wire),
      stored.InBounds) :
    Accepted request fsm ↔ statusOf request.requestLine ≠ 200 := by
  obtain ⟨stored, hfeed, hat⟩ := HttpFSM.feed_block request.lineEnd hview
    lines_count hroom
  obtain ⟨init, hlast, hbefore⟩ := HttpFSM.state_before_emptyLine
    request.lineEnd hview lines_count hroom
  have hend : fsm.feed request.wire =
      { (stored.terminate request.ending.length).setResult with
        state := if statusOf request.requestLine = 200 then .error
          else .recvFinish } := hfeed.trans (recv_emptyLine hat)
  have hheaders : (fsm.feed request.wire).headers =
      lineEntries request.ending 0 request.lines := by
    rw [hend]
    exact (HttpFSM.terminate_headers _ stored).trans hat.headers
  have hcontent : (fsm.feed request.wire).content =
      [] ++ keptLines request.ending request.lines ++
        List.replicate request.ending.length 0 := by
    rw [hend]
    exact HttpFSM.content_terminate hat.content
  have htexts := HttpFSM.texts_of_entries request.lines request.lineEnd
    hcontent
  constructor
  · intro haccepted hok
    have hfinished := haccepted.finished
    rw [hend, if_pos hok] at hfinished
    contradiction
  · intro hother
    refine ⟨?_, ?_, ?_, ?_, hbounds⟩
    · rw [hend, if_neg hother]
    · intro read rest
      exact HttpFSM.state_ne_recvFinish hlast (by rw [hbefore]; decide)
    · rw [hheaders, length_lineEntries]
    · apply HttpFSM.hdr_of_texts
      have hfst := congrArg (List.map Prod.fst) htexts
      rw [List.map_map, List.map_map] at hfst
      rw [hheaders]
      exact hfst

/-- A request without a body fed byte by byte into a buffer that needs no
expansion is accepted if and only if its request line does not read as a
status line with the code 200. -/
theorem bodyless_accepted (request : BodylessRequest) {chunkSize : ℕ}
    (hpos : 0 < chunkSize) (hhigh : chunkSize < 2 ^ 32)
    (memory : ℕ → UInt8) (fsm : HttpFSM)
    (hroom : (fsm.reset chunkSize memory).NeverExpands
      (HttpFSM.singly request.wire)) :
    Accepted request (fsm.reset chunkSize memory) ↔
      statusOf request.requestLine ≠ 200 :=
  accepted_iff (HttpFSM.view_reset chunkSize memory fsm) hroom
    (HttpFSM.inBounds_of_neverExpands hpos hhigh memory fsm hroom)

private def get (target : Bytes) (hvisible : Visible target)
    (hslash : target.head? = some 47) : BodylessRequest where
  ending := crlf
  lineEnd := lineEnd_crlf
  method := ascii "GET"
  method_nonempty := by decide
  letters := List.all_eq_true.mp rfl
  target := target
  visible := hvisible
  slash := hslash
  version := ascii "HTTP/1.1"
  version_eq := .inr rfl
  headers := [⟨ascii "Host: localhost", by decide, by decide⟩]
  count := by decide
  bodiless := by decide

private def root : BodylessRequest :=
  get (ascii "/") (by decide) (by decide)

theorem bodyless_accepted_root :
    Accepted root (HttpFSM.blank.reset 512 fun _ => 0) ↔
      statusOf root.requestLine ≠ 200 :=
  bodyless_accepted root (by decide) (by decide) _ _
    (HttpFSM.neverExpands_of_short (by decide) _ _ (by decide))

private def release : BodylessRequest :=
  get (ascii "/1.1/200") (by decide) (by decide)

/-- `GET /1.1/200 HTTP/1.1` is taken for a status line. -/
theorem bodyless_accepted_fails :
    ¬Accepted release (HttpFSM.blank.reset 512 fun _ => 0) := by
  have hroom : (HttpFSM.blank.reset 512 fun _ => 0).NeverExpands
      (HttpFSM.singly release.wire) :=
    HttpFSM.neverExpands_of_short (by decide) _ _ (by decide)
  rw [accepted_iff (HttpFSM.view_reset 512 _ _) hroom
    (HttpFSM.inBounds_of_neverExpands (by decide) (by decide) _ _ hroom)]
  decide

end BodylessRequest

end GrpcMtk.Http
