import GrpcMtk.Http.Feeding

/-!
# Header lines

Feeding non-empty printable lines to the parser, each ended by CRLF or by LF:
what it keeps of them in the buffer, which entries of `hd` and `hl` it makes,
and what `hdr` and `hdrstr` read back.
-/

namespace GrpcMtk.Http

open GrpcMtk.Proto

/-- Only bytes from 0x20 to 0x7e. -/
def Printable (text : Bytes) : Prop := ∀ byte ∈ text, 32 ≤ byte ∧ byte ≤ 126

instance (text : Bytes) : Decidable (Printable text) :=
  List.decidableBAll (fun byte => 32 ≤ byte ∧ byte ≤ 126) text

section Printable

variable {text : Bytes}

theorem Printable.not_mem (hprintable : Printable text) {byte : UInt8}
    (hlow : byte < 32) : byte ∉ text := fun hmem =>
  absurd (hprintable byte hmem).1 (by
    rw [UInt8.not_le]
    exact hlow)

theorem Printable.lf_not_mem (hprintable : Printable text) : lf ∉ text :=
  hprintable.not_mem (by decide)

theorem Printable.nul_not_mem (hprintable : Printable text) : 0 ∉ text :=
  hprintable.not_mem (by decide)

theorem Printable.getLast?_ne (hprintable : Printable text) :
    text.getLast? ≠ some cr := fun hlast =>
  hprintable.not_mem (by decide) (List.mem_of_getLast? hlast)

end Printable

/-- A line of a header block or of a trailer. -/
structure Line where
  text : Bytes
  nonempty : text ≠ []
  printable : Printable text

/-- Lines on the wire. -/
def wireLines (ending : Bytes) (lines : List Line) : Bytes :=
  lines.flatMap fun line => line.text ++ ending

/-- Lines in the buffer. -/
def keptLines (ending : Bytes) (lines : List Line) : Bytes :=
  lines.flatMap fun line => line.text ++ List.replicate ending.length 0

/-- The entries of lines that start at an offset. -/
def lineEntries (ending : Bytes) : ℕ → List Line → List Header
  | _, [] => []
  | offset, line :: rest =>
      ⟨offset, line.text.length % 2 ^ 16⟩ ::
        lineEntries ending (offset + line.text.length + ending.length) rest

@[simp]
theorem length_lineEntries (ending : Bytes) (offset : ℕ) (lines : List Line) :
    (lineEntries ending offset lines).length = lines.length := by
  induction lines generalizing offset with
  | nil => rfl
  | cons line rest ih => rw [lineEntries, List.length_cons, ih, List.length_cons]

namespace HttpFSM

section Receiving

variable {fsm : HttpFSM} {base ending : Bytes}

theorem view_addHeader (nlf : ℕ) (fsm : HttpFSM) :
    (fsm.addHeader nlf).view =
      { fsm.view with
        mBuf := fsm.mLen
        headers := fsm.headers ++
          [⟨fsm.mBuf, (fsm.mLen - fsm.mBuf - nlf) % 2 ^ 16⟩] } := rfl

theorem view_addHeader_congr {other : HttpFSM} (hview : other.view = fsm.view)
    (nlf : ℕ) : (other.addHeader nlf).view = (fsm.addHeader nlf).view := by
  have hbuf : other.mBuf = fsm.mBuf := congrArg View.mBuf hview
  have hheaders : other.headers = fsm.headers := congrArg View.headers hview
  rw [view_addHeader, view_addHeader, hview, hbuf, hheaders,
    mLen_of_view hview]

/-- At the end of a line that is not empty its entry is made. -/
theorem view_recv_of_lineEnd
    (hstate : fsm.state = .recvHeader ∨ fsm.state = .recvFooter)
    (hlf : fsm.recvLf ≠ 0) (hline : fsm.mLen - fsm.recvLf ≠ fsm.mBuf)
    (hroom : fsm.headers.length < maxHeader) :
    fsm.recv.view = ((fsm.terminate fsm.recvLf).addHeader fsm.recvLf).view := by
  rcases hstate with hstate | hstate
  · simp [recv, hstate, recvHeader, hlf, hline, hroom]
  · simp only [recv, hstate]
    unfold recvFooter
    dsimp only
    rw [if_neg hlf, if_neg (by simpa using hline), if_pos (by simpa using hroom)]
    exact view_addHeader_congr (view_update_end _ 0) _

/-- A line is kept, with its end replaced by NUL, and gets an entry. -/
theorem view_recv_line (line : Line) (hending : LineEnd ending)
    (hstate : fsm.state = .recvHeader ∨ fsm.state = .recvFooter)
    (hcontent : fsm.content = base ++ line.text ++ ending)
    (hbuf : fsm.mBuf = base.length) (hroom : fsm.headers.length < maxHeader) :
    fsm.recv.view =
      { fsm.view with
        content := base ++ (line.text ++ List.replicate ending.length 0)
        mBuf := base.length + line.text.length + ending.length
        headers := fsm.headers ++
          [⟨base.length, line.text.length % 2 ^ 16⟩] } := by
  have hpos := List.length_pos_of_ne_nil line.nonempty
  have hlen : fsm.mLen = base.length + line.text.length + ending.length := by
    rw [← length_content, hcontent, List.length_append, List.length_append]
  have hlast : (base ++ line.text).getLast? ≠ some cr := by
    rw [List.getLast?_append_of_ne_nil _ line.nonempty]
    exact line.printable.getLast?_ne
  have hlf := recvLf_of_lineEnd hending hcontent
    (List.append_ne_nil_of_right_ne_nil _ line.nonempty) hlast
  have hends : ending.length ≠ 0 := by
    cases hending <;> decide
  have hsize : fsm.mLen - base.length - ending.length = line.text.length := by
    omega
  rw [view_recv_of_lineEnd hstate (by omega) (by omega) hroom, hlf,
    view_addHeader, view_terminate hcontent, List.append_assoc]
  simp only [terminate_headers, terminate_mLen, terminate_mBuf]
  rw [hbuf, hsize, hlen]

/-- The last byte of a line is handed on with the whole line in the content. -/
theorem feed_line_end (line : Line) (hending : LineEnd ending)
    (hstate : fsm.state = .recvHeader ∨ fsm.state = .recvFooter)
    (hroom : fsm.NeverExpands (singly (line.text ++ ending))) :
    ∃ stored : HttpFSM, fsm.feed (line.text ++ ending) = stored.recv ∧
      stored.view =
        { fsm.view with content := fsm.content ++ line.text ++ ending } ∧
      stored.content = fsm.content ++ line.text ++ ending := by
  obtain ⟨init, hinit, hquiet⟩ := lineEnd_eq_append hending
  have htext : lf ∉ line.text ++ init := by
    rw [List.mem_append, not_or]
    exact ⟨line.printable.lf_not_mem, hquiet⟩
  have hline : LineState fsm.state := by
    rcases hstate with h | h
    · exact .inl h
    · exact .inr (.inr h)
  have hsplit : line.text ++ ending = line.text ++ init ++ [lf] := by
    rw [hinit, List.append_assoc]
  rw [hsplit] at hroom
  obtain ⟨stored, hfeed, hview, -⟩ := feed_line htext hline hroom
  have hkept : fsm.content ++ (line.text ++ init) ++ [lf] =
      fsm.content ++ line.text ++ ending := by
    simp only [hinit, List.append_assoc]
  rw [hkept] at hview
  exact ⟨stored, hsplit ▸ hfeed, hview, congrArg View.content hview⟩

theorem view_feed_line (line : Line) (hending : LineEnd ending)
    (hstate : fsm.state = .recvHeader ∨ fsm.state = .recvFooter)
    (hbuf : fsm.mBuf = fsm.mLen) (hheaders : fsm.headers.length < maxHeader)
    (hroom : fsm.NeverExpands (singly (line.text ++ ending))) :
    (fsm.feed (line.text ++ ending)).view =
      { fsm.view with
        content := fsm.content ++
          (line.text ++ List.replicate ending.length 0)
        mBuf := fsm.mLen + line.text.length + ending.length
        headers := fsm.headers ++
          [⟨fsm.mLen, line.text.length % 2 ^ 16⟩] } := by
  obtain ⟨stored, hfeed, hview, hcontent⟩ :=
    feed_line_end line hending hstate hroom
  have hsame : stored.state = fsm.state := congrArg View.state hview
  have hentries : stored.headers = fsm.headers :=
    congrArg View.headers hview
  rw [hfeed, view_recv_line line hending (hsame ▸ hstate) hcontent
    ((congrArg View.mBuf hview).trans (hbuf.trans (length_content fsm).symm))
    (hentries ▸ hheaders), hview, hentries, length_content]

/-- A line for which no entry is left. -/
theorem recv_tooMany (hstate : fsm.state = .recvHeader)
    (hlf : fsm.recvLf ≠ 0) (hline : fsm.mLen - fsm.recvLf ≠ fsm.mBuf)
    (hfull : maxHeader ≤ fsm.headers.length) : fsm.recv.state = .error := by
  simp [recv, hstate, recvHeader, hlf, hline, Nat.not_lt.mpr hfull]

theorem feed_tooMany (line : Line) (hending : LineEnd ending)
    (hstate : fsm.state = .recvHeader)
    (hbuf : fsm.mBuf = fsm.mLen) (hheaders : maxHeader ≤ fsm.headers.length)
    (hroom : fsm.NeverExpands (singly (line.text ++ ending))) :
    (fsm.feed (line.text ++ ending)).state = .error := by
  obtain ⟨stored, hfeed, hview, hcontent⟩ :=
    feed_line_end line hending (.inl hstate) hroom
  have hends : ending.length ≠ 0 := by
    cases hending <;> decide
  have hpos := List.length_pos_of_ne_nil line.nonempty
  have hlf := recvLf_of_lineEnd hending hcontent
    (List.append_ne_nil_of_right_ne_nil _ line.nonempty) (by
      rw [List.getLast?_append_of_ne_nil _ line.nonempty]
      exact line.printable.getLast?_ne)
  have hlen : stored.mLen = fsm.mLen + line.text.length + ending.length := by
    rw [← length_content, hcontent, List.length_append, List.length_append,
      length_content]
  have hstart : stored.mBuf = fsm.mLen :=
    (congrArg View.mBuf hview).trans hbuf
  have hentries : stored.headers = fsm.headers :=
    congrArg View.headers hview
  rw [hfeed]
  exact recv_tooMany ((congrArg View.state hview).trans hstate) (by omega)
    (by omega) (hentries ▸ hheaders)

/-- A list of lines is kept line after line. -/
theorem view_feed_lines (lines : List Line) (hending : LineEnd ending)
    (hstate : fsm.state = .recvHeader ∨ fsm.state = .recvFooter)
    (hbuf : fsm.mBuf = fsm.mLen)
    (hheaders : fsm.headers.length + lines.length ≤ maxHeader)
    (hroom : fsm.NeverExpands (singly (wireLines ending lines))) :
    (fsm.feed (wireLines ending lines)).view =
      { fsm.view with
        content := fsm.content ++ keptLines ending lines
        mBuf := fsm.mLen + (keptLines ending lines).length
        headers := fsm.headers ++ lineEntries ending fsm.mLen lines } := by
  induction lines generalizing fsm with
  | nil => simp [wireLines, keptLines, lineEntries, view, hbuf]
  | cons line rest ih =>
      rw [List.length_cons] at hheaders
      have hwire : wireLines ending (line :: rest) =
          line.text ++ ending ++ wireLines ending rest := by
        simp [wireLines]
      rw [hwire, neverExpands_feed_append] at hroom
      have hview := view_feed_line line hending hstate hbuf (by omega) hroom.1
      rw [hwire, feed_append]
      generalize fsm.feed (line.text ++ ending) = next at hview hroom ⊢
      have hcontent : next.content = fsm.content ++
          (line.text ++ List.replicate ending.length 0) :=
        congrArg View.content hview
      have hentries : next.headers = fsm.headers ++
          [⟨fsm.mLen, line.text.length % 2 ^ 16⟩] :=
        congrArg View.headers hview
      have hlen : next.mLen =
          fsm.mLen + line.text.length + ending.length := by
        rw [← length_content, hcontent]
        simp [Nat.add_assoc]
      have hstart : next.mBuf = next.mLen :=
        (congrArg View.mBuf hview).trans hlen.symm
      have hsame : next.state = fsm.state := congrArg View.state hview
      rw [ih (hsame ▸ hstate) hstart (by simp [hentries]; omega) hroom.2, hview,
        hcontent, hentries, hlen]
      simp [keptLines, lineEntries, Nat.add_assoc]

end Receiving

/-! ## Reading lines back -/

section Reading

variable {fsm : HttpFSM} {base ending rest : Bytes}

/-- The entries of lines in the buffer lead to their texts. -/
theorem texts_of_entries (lines : List Line) (hending : LineEnd ending)
    (hcontent : fsm.content = base ++ keptLines ending lines ++ rest) :
    (lineEntries ending base.length lines).map
        (fun header => (fsm.cstr header.hd, header.hl)) =
      lines.map fun line => (line.text, line.text.length % 2 ^ 16) := by
  induction lines generalizing base with
  | nil => rfl
  | cons line lines ih =>
      obtain ⟨count, hcount⟩ := length_lineEnd hending
      have hkept : keptLines ending (line :: lines) =
          line.text ++ List.replicate ending.length 0 ++
            keptLines ending lines := by
        simp [keptLines]
      have hline : fsm.cstr base.length = line.text := by
        apply cstr_of_content _ line.printable.nul_not_mem
        · exact List.replicate count 0 ++ keptLines ending lines ++ rest
        · rw [hcontent, hkept, hcount, List.replicate_succ]
          simp only [List.append_assoc, List.cons_append]
      have hnext := @ih (base ++ (line.text ++ List.replicate ending.length 0))
        (by rw [hcontent, hkept]; simp only [List.append_assoc])
      rw [lineEntries, List.map_cons, List.map_cons, hline, ← hnext]
      simp [Nat.add_assoc]

theorem hdr_of_texts {texts : List Bytes}
    (htexts : fsm.headers.map (fun header => fsm.cstr header.hd) = texts)
    (index : ℕ) : fsm.hdr index = texts[index]? := by
  rw [← htexts, List.getElem?_map]
  rfl

end Reading

end HttpFSM

end GrpcMtk.Http
