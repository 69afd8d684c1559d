import GrpcMtk.Http.Lines

/-!
# Looking up header lines

`hdrstr` takes the first line that starts with a key, in any letter case.  The
length it compares with has 16 bits only: a line of 65536 bytes and more can
share more letters with the key than its stored length, and the lookup then
gives up.
-/

namespace GrpcMtk.Http

open GrpcMtk.Proto

/-- How many leading bytes two texts share, ignoring letter case. -/
def shared : Bytes → Bytes → ℕ
  | k :: key, p :: text => if tolower k = tolower p then shared key text + 1 else 0
  | _, _ => 0

/-- A text starts with a key in any letter case. -/
def StartsWith (key text : Bytes) : Prop :=
  key.map tolower <+: text.map tolower

instance (key text : Bytes) : Decidable (StartsWith key text) :=
  inferInstanceAs (Decidable (_ <+: _))

/-- A text shares more bytes with a key than the length stored for it. -/
def Outruns (key text : Bytes) : Prop :=
  text.length % 2 ^ 16 + 1 < shared key text

instance (key text : Bytes) : Decidable (Outruns key text) :=
  inferInstanceAs (Decidable (_ < _))

theorem shared_eq_length {key text : Bytes} :
    shared key text = key.length ↔ StartsWith key text := by
  unfold StartsWith
  induction key generalizing text with
  | nil => simp [shared]
  | cons k key ih =>
      cases text with
      | nil => simp [shared]
      | cons p text =>
          rw [shared, List.map_cons, List.map_cons, List.cons_prefix_cons,
            List.length_cons]
          split
          case isTrue hsame => simp [ih, hsame]
          case isFalse hother => simp [hother]

theorem shared_le_length (key text : Bytes) : shared key text ≤ key.length := by
  induction key generalizing text with
  | nil => simp [shared]
  | cons k key ih =>
      cases text with
      | nil => simp [shared]
      | cons p text =>
          rw [shared, List.length_cons]
          split
          · exact Nat.succ_le_succ (ih text)
          · exact Nat.zero_le _

theorem matchKey_eq (hl matched : ℕ) (key text : Bytes) :
    matchKey hl matched key text =
      if 0 < shared key text ∧ hl + 1 < matched + shared key text then .tooLong
      else if shared key text = key.length then .found (text.drop key.length)
      else .mismatch := by
  induction key generalizing matched text with
  | nil => simp [matchKey, shared]
  | cons k key ih =>
      cases text with
      | nil => simp [matchKey, shared]
      | cons p text =>
          rw [matchKey, shared]
          split
          case isFalse hother => simp
          case isTrue hsame =>
            split
            case isTrue hlong =>
              rw [if_pos ⟨Nat.succ_pos _, by omega⟩]
            case isFalse hshort =>
              rw [ih, List.length_cons, List.drop_succ_cons]
              have hlong : (0 < shared key text ∧
                    hl + 1 < matched + 1 + shared key text) ↔
                  0 < shared key text + 1 ∧
                    hl + 1 < matched + (shared key text + 1) := by
                omega
              simp only [hlong, Nat.add_right_cancel_iff]

/-- A text as `hdrstr` sees it: with the length stored for it. -/
def withLength (text : Bytes) : Bytes × ℕ := (text, text.length % 2 ^ 16)

section FindKey

variable {key : Bytes} {l : ℕ}

theorem findKey_cons_of_not_startsWith {text : Bytes}
    (htext : ¬StartsWith key text) (rest : List (Bytes × ℕ)) :
    findKey key l (withLength text :: rest) =
      if Outruns key text then none else findKey key l rest := by
  rw [← shared_eq_length] at htext
  rw [withLength, findKey, matchKey_eq, Nat.zero_add, if_neg htext]
  by_cases houtruns : Outruns key text
  · have hpos : 0 < shared key text := Nat.zero_lt_of_lt houtruns
    rw [if_pos ⟨hpos, houtruns⟩, if_pos houtruns]
  · rw [if_neg (fun h => houtruns h.2), if_neg houtruns]

theorem findKey_cons_of_startsWith {text : Bytes}
    (htext : StartsWith key text) (hfits : ¬Outruns key text)
    (rest : List (Bytes × ℕ)) :
    findKey key l (withLength text :: rest) =
      if ((text.drop key.length).dropWhile isBlank).length ≥ l then none
      else some ((text.drop key.length).dropWhile isBlank) := by
  rw [← shared_eq_length] at htext
  rw [withLength, findKey, matchKey_eq, Nat.zero_add,
    if_neg (fun h => hfits h.2), if_pos htext]

/-- No line starts with the key. -/
theorem findKey_eq_none {texts : List Bytes}
    (htexts : ∀ text ∈ texts, ¬StartsWith key text) :
    findKey key l (texts.map withLength) = none := by
  induction texts with
  | nil => rfl
  | cons text rest ih =>
      rw [List.forall_mem_cons] at htexts
      rw [List.map_cons, findKey_cons_of_not_startsWith htexts.1, ih htexts.2,
        ite_self]

/-- The lines before the first one that starts with the key. -/
theorem findKey_append {before : List Bytes}
    (hbefore : ∀ text ∈ before, ¬StartsWith key text)
    (rest : List (Bytes × ℕ)) :
    findKey key l (before.map withLength ++ rest) =
      if ∃ text ∈ before, Outruns key text then none
      else findKey key l rest := by
  induction before with
  | nil => simp
  | cons text before ih =>
      rw [List.forall_mem_cons] at hbefore
      rw [List.map_cons, List.cons_append,
        findKey_cons_of_not_startsWith hbefore.1, ih hbefore.2]
      by_cases houtruns : Outruns key text <;> simp [houtruns]

/-- The first line that starts with the key, among lines. -/
theorem findKey_first {before after : List Line} {line : Line}
    {name rest : Bytes}
    (hfirst : ∀ other ∈ before, ¬StartsWith key other.text)
    (hname : name.map tolower = key.map tolower)
    (hline : line.text = name ++ rest) (hlong : ¬Outruns key line.text) :
    findKey key l
        (((before ++ line :: after).map fun line => line.text).map
          withLength) =
      if ∃ other ∈ before, Outruns key other.text then none
      else if (rest.dropWhile isBlank).length ≥ l then none
      else some (rest.dropWhile isBlank) := by
  have hbefore : ∀ text ∈ before.map fun line => line.text,
      ¬StartsWith key text := by
    rw [List.forall_mem_map]
    exact hfirst
  have hlength : name.length = key.length := by
    rw [← List.length_map tolower, hname, List.length_map]
  have hstarts : StartsWith key line.text := by
    rw [StartsWith, hline, List.map_append, hname]
    exact List.prefix_append _ _
  have houtruns : (∃ text ∈ before.map fun line => line.text,
      Outruns key text) ↔ ∃ other ∈ before, Outruns key other.text := by
    simp only [List.mem_map, exists_exists_and_eq_and]
  rw [List.map_append, List.map_append, List.map_cons, List.map_cons,
    findKey_append hbefore, findKey_cons_of_startsWith hstarts hlong, hline,
    ← hlength, List.drop_left]
  simp only [houtruns]

end FindKey

/-! ## The end of a header block -/

namespace HttpFSM

/-- The lines that `hdrstr` looks through. -/
def table (fsm : HttpFSM) : List (Bytes × ℕ) :=
  fsm.headers.map fun header => (fsm.cstr header.hd, header.hl)

section Block

variable {fsm : HttpFSM} {ending : Bytes} {lines : List Line}

/-- The header block is read up to its empty line, whose end is in the
buffer. -/
structure AtEmptyLine (ending : Bytes) (lines : List Line)
    (fsm : HttpFSM) : Prop where
  state : fsm.state = .recvHeader
  content : fsm.content = keptLines ending lines ++ ending
  mBuf : fsm.mBuf = (keptLines ending lines).length
  headers : fsm.headers = lineEntries ending 0 lines
  bd : fsm.bd = none

/-- The parser's lines are the texts that were sent, with their lengths. -/
theorem table_of_lines {rest : Bytes} (hending : LineEnd ending)
    (hcontent : fsm.content = keptLines ending lines ++ rest)
    (hheaders : fsm.headers = lineEntries ending 0 lines) :
    fsm.table = (lines.map fun line => line.text).map withLength := by
  have htexts := @texts_of_entries fsm [] ending rest lines hending
    (by rw [hcontent, List.nil_append])
  rw [table, hheaders, List.map_map]
  exact htexts

/-- `hdrstr` looks through the texts of the lines. -/
theorem hdrstr_of_lines {rest : Bytes} (hending : LineEnd ending)
    (hcontent : fsm.content = keptLines ending lines ++ rest)
    (hheaders : fsm.headers = lineEntries ending 0 lines)
    (key : String) (l : ℕ) :
    fsm.hdrstr key l =
      findKey (ascii key) l
        ((lines.map fun line => line.text).map withLength) :=
  congrArg (findKey (ascii key) l) (table_of_lines hending hcontent hheaders)

theorem keptLines_ne_nil (hlines : lines ≠ []) :
    keptLines ending lines ≠ [] := by
  obtain ⟨line, rest, rfl⟩ := List.exists_cons_of_ne_nil hlines
  intro hnil
  rw [keptLines, List.flatMap_cons, List.append_eq_nil_iff,
    List.append_eq_nil_iff] at hnil
  exact line.nonempty hnil.1.1

theorem cr_not_mem_keptLines : cr ∉ keptLines ending lines := by
  intro hmem
  obtain ⟨line, -, hline⟩ := List.mem_flatMap.mp hmem
  rcases List.mem_append.mp hline with htext | hnul
  · exact line.printable.not_mem (by decide) htext
  · exact absurd (List.eq_of_mem_replicate hnul) (by decide)

theorem AtEmptyLine.recv_eq (hat : AtEmptyLine ending lines fsm)
    (hending : LineEnd ending) (hlines : lines ≠ []) :
    fsm.recv = (fsm.terminate ending.length).endHeader := by
  have hlen : fsm.mLen = (keptLines ending lines).length + ending.length := by
    rw [← length_content, hat.content, List.length_append]
  have hlf := recvLf_of_lineEnd hending hat.content (keptLines_ne_nil hlines)
    (fun hlast => cr_not_mem_keptLines (List.mem_of_getLast? hlast))
  have hends : ending.length ≠ 0 := by
    cases hending <;> decide
  have hbuf := hat.mBuf
  rw [recv, hat.state]
  dsimp only
  unfold recvHeader
  dsimp only
  rw [hlf, if_neg hends, if_pos (by simp only [terminate_mLen, terminate_mBuf]; omega)]

/-- What `recv_header` looks up at the empty line. -/
theorem AtEmptyLine.hdrstr_eq (hat : AtEmptyLine ending lines fsm)
    (hending : LineEnd ending) (key : String) (l : ℕ) :
    (fsm.terminate ending.length).setResult.hdrstr key l =
      findKey (ascii key) l
        ((lines.map fun line => line.text).map withLength) :=
  @hdrstr_of_lines (fsm.terminate ending.length).setResult ending lines _
    hending (content_terminate hat.content)
    ((terminate_headers ending.length fsm).trans hat.headers) key l

theorem view_reset (chunkSize : ℕ) (memory : ℕ → UInt8) (fsm : HttpFSM) :
    (fsm.reset chunkSize memory).view =
      ⟨.recvHeader, [], 0, [], none, fsm.bl⟩ := rfl

/-- Feeding the lines of a block leads to its empty line. -/
theorem feed_block (hending : LineEnd ending)
    (hview : fsm.view = ⟨.recvHeader, [], 0, [], none, fsm.bl⟩)
    (hcount : lines.length ≤ maxHeader)
    (hroom : fsm.NeverExpands (singly (wireLines ending lines ++ ending))) :
    ∃ stored : HttpFSM,
      fsm.feed (wireLines ending lines ++ ending) = stored.recv ∧
        AtEmptyLine ending lines stored := by
  have hstate : fsm.state = .recvHeader := congrArg View.state hview
  have hcontent : fsm.content = [] := congrArg View.content hview
  have hbuf : fsm.mBuf = 0 := congrArg View.mBuf hview
  have hheaders : fsm.headers = [] := congrArg View.headers hview
  have hlen : fsm.mLen = 0 := by rw [← length_content, hcontent]; rfl
  rw [neverExpands_feed_append] at hroom
  have hlines := view_feed_lines lines hending (.inl hstate)
    (hbuf.trans hlen.symm) (by rw [hheaders]; simpa using hcount) hroom.1
  rw [feed_append]
  generalize fsm.feed (wireLines ending lines) = next at hlines hroom ⊢
  obtain ⟨init, rfl, hinit⟩ := lineEnd_eq_append hending
  have hnext : next.state = fsm.state := congrArg View.state hlines
  obtain ⟨stored, hfeed, hstored, -⟩ := feed_line hinit
    (.inl (hnext.trans hstate)) hroom.2
  refine ⟨stored, hfeed, ?_, ?_, ?_, ?_, ?_⟩
  · exact (congrArg View.state hstored).trans (hnext.trans hstate)
  · have hkept : next.content = keptLines (init ++ [lf]) lines :=
      (congrArg View.content hlines).trans (by rw [hcontent, List.nil_append])
    refine (congrArg View.content hstored).trans ?_
    rw [hkept, List.append_assoc]
  · have hbase : next.mBuf = (keptLines (init ++ [lf]) lines).length :=
      (congrArg View.mBuf hlines).trans (by rw [hlen, Nat.zero_add])
    exact (congrArg View.mBuf hstored).trans hbase
  · have hentries : next.headers = lineEntries (init ++ [lf]) 0 lines :=
      (congrArg View.headers hlines).trans
        (by rw [hheaders, hlen, List.nil_append])
    exact (congrArg View.headers hstored).trans hentries
  · have hbd : next.bd = fsm.bd := congrArg View.bd hlines
    exact (congrArg View.bd hstored).trans
      (hbd.trans (congrArg View.bd hview))

/-- Right before the LF of the empty line the block is still read. -/
theorem state_before_emptyLine (hending : LineEnd ending)
    (hview : fsm.view = ⟨.recvHeader, [], 0, [], none, fsm.bl⟩)
    (hcount : lines.length ≤ maxHeader)
    (hroom : fsm.NeverExpands (singly (wireLines ending lines ++ ending))) :
    ∃ init, wireLines ending lines ++ ending = init ++ [lf] ∧
      (fsm.feed init).state = .recvHeader := by
  have hstate : fsm.state = .recvHeader := congrArg View.state hview
  have hcontent : fsm.content = [] := congrArg View.content hview
  have hheaders : fsm.headers = [] := congrArg View.headers hview
  have hbuf : fsm.mBuf = fsm.mLen := by
    rw [← length_content, hcontent]
    exact congrArg View.mBuf hview
  rw [neverExpands_feed_append] at hroom
  have hlines := view_feed_lines lines hending (.inl hstate) hbuf
    (by rw [hheaders]; simpa using hcount) hroom.1
  obtain ⟨init, rfl, hinit⟩ := lineEnd_eq_append hending
  have hnext : (fsm.feed (wireLines (init ++ [lf]) lines)).state =
      .recvHeader := (congrArg View.state hlines).trans hstate
  have htext := view_feed_text hinit (.inl hnext)
    (neverExpands_feed_append.mp hroom.2).1
  refine ⟨_, (List.append_assoc _ _ _).symm, ?_⟩
  rw [feed_append]
  exact (congrArg View.state htext).trans hnext

/-- A block of more lines than there are entries fails. -/
theorem feed_block_tooMany (hending : LineEnd ending)
    (hview : fsm.view = ⟨.recvHeader, [], 0, [], none, fsm.bl⟩)
    (hcount : maxHeader < lines.length)
    (hroom : fsm.NeverExpands (singly (wireLines ending lines))) :
    (fsm.feed (wireLines ending lines)).state = .error := by
  have hstate : fsm.state = .recvHeader := congrArg View.state hview
  have hcontent : fsm.content = [] := congrArg View.content hview
  have hheaders : fsm.headers = [] := congrArg View.headers hview
  have hbuf : fsm.mBuf = fsm.mLen := by
    rw [← length_content, hcontent]
    exact congrArg View.mBuf hview
  obtain ⟨line, rest, hdrop⟩ : ∃ line rest,
      lines.drop maxHeader = line :: rest := by
    apply List.exists_cons_of_ne_nil
    rw [Ne, List.drop_eq_nil_iff]
    omega
  have hwire : wireLines ending lines =
      wireLines ending (lines.take maxHeader) ++
        (line.text ++ ending ++ wireLines ending rest) := by
    have hsplit := List.take_append_drop maxHeader lines
    rw [hdrop] at hsplit
    calc wireLines ending lines
      _ = wireLines ending (lines.take maxHeader ++ line :: rest) := by
          rw [hsplit]
      _ = _ := by simp only [wireLines, List.flatMap_append, List.flatMap_cons]
  have htake : (lines.take maxHeader).length = maxHeader := by
    rw [List.length_take, Nat.min_eq_left (Nat.le_of_lt hcount)]
  rw [hwire, neverExpands_feed_append] at hroom
  have hread := view_feed_lines (lines.take maxHeader) hending (.inl hstate)
    hbuf (by rw [hheaders, htake]; exact Nat.le_refl _) hroom.1
  rw [hwire, feed_append]
  generalize fsm.feed (wireLines ending (lines.take maxHeader)) = next
    at hread hroom ⊢
  have hentries : next.headers =
      lineEntries ending fsm.mLen (lines.take maxHeader) :=
    (congrArg View.headers hread).trans (by rw [hheaders, List.nil_append])
  have hnext : next.content =
      fsm.content ++ keptLines ending (lines.take maxHeader) :=
    congrArg View.content hread
  have hstart : next.mBuf = next.mLen := by
    rw [← length_content, hnext, List.length_append, length_content]
    exact congrArg View.mBuf hread
  have herror := feed_tooMany line hending
    ((congrArg View.state hread).trans hstate) hstart
    (by rw [hentries, length_lineEntries, htake])
    (neverExpands_feed_append.mp hroom.2).1
  rw [feed_append, feed_of_halted (.inl herror)]
  exact herror

theorem hdrint_of_hdrstr_none {key : String} (hnone : fsm.hdrstr key 256 = none) :
    fsm.hdrint key = none := by
  unfold hdrint
  rw [hnone]

/-- A header block that announces a chunked body. -/
theorem view_endHeader_of_chunked
    (hlength : fsm.setResult.hdrint "Content-Length" = none)
    (hencoding : fsm.setResult.hdrstr "Transfer-Encoding" 256 =
      some (ascii "chunked")) :
    fsm.endHeader.view =
      { fsm.view with
        state := .recvBodylen
        mBuf := fsm.mLen
        bd := some fsm.mLen
        bl := 0 } := by
  unfold endHeader
  dsimp only
  rw [hlength]
  dsimp only
  rw [hencoding, if_pos (by decide)]
  rfl

/-- A header block that announces no body at all. -/
theorem endHeader_of_bodiless
    (hlength : fsm.setResult.hdrint "Content-Length" = none)
    (hencoding : fsm.setResult.hdrstr "Transfer-Encoding" 256 = none)
    (hkey : fsm.setResult.hdrstr "Sec-WebSocket-Key" 256 = none)
    (haccept : fsm.setResult.hdrstr "Sec-WebSocket-Accept" 256 = none) :
    fsm.endHeader =
      { fsm.setResult with
        state := if fsm.setResult.res = 200 then .error else .recvFinish } := by
  unfold endHeader
  dsimp only
  rw [hlength]
  dsimp only
  rw [hencoding, hkey, haccept, if_neg (by simp), if_neg (by simp)]
  split <;> rfl

/-- A header block without a `Content-Length` that is understood. -/
theorem view_endHeader_of_uncounted
    (hlength : fsm.setResult.hdrint "Content-Length" = none) :
    fsm.endHeader.view =
        { fsm.view with
          state := .recvBodylen
          mBuf := fsm.mLen
          bd := some fsm.mLen
          bl := 0 } ∨
      ∃ state, (state = .websocketEstablish ∨ state = .error ∨
        state = .recvFinish) ∧ fsm.endHeader.view = { fsm.view with state } := by
  rw [endHeader]
  dsimp only
  rw [hlength]
  dsimp only
  split
  · exact .inl rfl
  · split
    · exact .inr ⟨_, .inl rfl, rfl⟩
    · split
      · exact .inr ⟨_, .inr (.inl rfl), rfl⟩
      · exact .inr ⟨_, .inr (.inr rfl), rfl⟩

end Block

end HttpFSM

end GrpcMtk.Http
