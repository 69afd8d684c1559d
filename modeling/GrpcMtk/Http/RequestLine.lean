import GrpcMtk.Http.Memory
import GrpcMtk.Http.Expansion
import GrpcMtk.Http.HeaderTable

/-!
# The first line in the buffer

A finished message has its first line at the start of the buffer, with a NUL
behind it.  What comes next depends on how the line was ended: behind a CRLF,
and behind a line that is the only one, there is another NUL; behind an LF the
next line begins.  Nothing that is received later is written there.
-/

namespace GrpcMtk.Http

open GrpcMtk.Proto

/-- A text stands in the memory from a place on. -/
def Stands (mP : ℕ → UInt8) : ℕ → Bytes → Prop
  | _, [] => True
  | place, byte :: rest => mP place = byte ∧ Stands mP (place + 1) rest

section Stands

variable {mP : ℕ → UInt8} {place : ℕ} {left right text : Bytes}

theorem stands_append :
    Stands mP place (left ++ right) ↔
      Stands mP place left ∧ Stands mP (place + left.length) right := by
  induction left generalizing place with
  | nil => simp [Stands]
  | cons byte rest ih =>
      have hplace : place + (byte :: rest).length =
          place + 1 + rest.length := by
        rw [List.length_cons]
        omega
      rw [List.cons_append, Stands, Stands, ih, hplace, and_assoc]

theorem Stands.congr {next : ℕ → UInt8} (hstands : Stands mP place text)
    (hbytes : ∀ other < place + text.length, next other = mP other) :
    Stands next place text := by
  induction text generalizing place with
  | nil => trivial
  | cons byte rest ih =>
      rw [List.length_cons] at hbytes
      refine ⟨?_, ih hstands.2 fun other hother => ?_⟩
      · rw [hbytes place (by omega)]
        exact hstands.1
      · exact hbytes other (by omega)

theorem stands_of_content {fsm : HttpFSM}
    (hcontent : fsm.content = left ++ (text ++ right)) :
    Stands fsm.mP left.length text := by
  induction text generalizing left with
  | nil => trivial
  | cons byte rest ih =>
      refine ⟨HttpFSM.mP_of_content hcontent, ?_⟩
      have hnext := @ih (left ++ [byte]) (by rw [hcontent]; simp)
      rwa [List.length_append] at hnext

end Stands

/-! ## Kept lines -/

/-- What stands behind the first of the kept lines. -/
theorem Kept.behind {kept first : Bytes} {headers : List Header}
    {lines : List Bytes} (hkept : Kept kept headers (first :: lines)) :
    ∃ count more entries,
      kept = first ++ List.replicate (count + 1) 0 ++ more ∧
        headers = ⟨0, first.length % 2 ^ 16⟩ :: entries ∧
        (∀ entry ∈ entries, first.length + (count + 1) ≤ entry.hd) ∧
        (more = [] ∨ ∃ entry ∈ entries,
          entry.hd = first.length + (count + 1)) := by
  generalize hall : first :: lines = all at hkept
  induction hkept generalizing lines with
  | nil => contradiction
  | @line kept headers texts before text nonempty count ih =>
      cases texts with
      | nil =>
          obtain ⟨hempty, hnone⟩ := before.eq_nil rfl
          rw [List.nil_append, List.cons.injEq] at hall
          rw [hempty, hnone, ← hall.1]
          exact ⟨count, [], [], by simp, rfl,
            fun _ hentry => absurd hentry List.not_mem_nil, .inl rfl⟩
      | cons other texts =>
          rw [List.cons_append, List.cons.injEq] at hall
          obtain ⟨inner, more, entries, hmore, hheaders, hlater, hnext⟩ :=
            @ih texts (by rw [hall.1])
          have hlength : kept.length =
              first.length + (inner + 1) + more.length := by
            rw [hmore, List.length_append, List.length_append,
              List.length_replicate]
          refine ⟨inner, more ++ (text ++ List.replicate (count + 1) 0),
            entries ++ [⟨kept.length, text.length % 2 ^ 16⟩], ?_, ?_, ?_,
            .inr ?_⟩
          · rw [hmore, List.append_assoc _ more]
          · rw [hheaders, List.cons_append]
          · rw [List.forall_mem_append, List.forall_mem_singleton]
            exact ⟨hlater, by dsimp only; omega⟩
          · rcases hnext with rfl | ⟨entry, hentry, hplace⟩
            · exact ⟨_, List.mem_append_right _ (List.mem_singleton_self _),
                hlength⟩
            · exact ⟨entry, List.mem_append_left _ hentry, hplace⟩

namespace HttpFSM

/-- The first line in the buffer, and what stands behind it. -/
structure FirstLine (line : Bytes) (fsm : HttpFSM) : Prop where
  entry : fsm.headers.head? = some ⟨0, line.length % 2 ^ 16⟩
  stands : Stands fsm.mP 0 (line ++ [0])
  later : ∀ header ∈ fsm.headers.tail, line.length + 1 ≤ header.hd
  ended : (∀ header ∈ fsm.headers.tail, header.hd ≠ line.length + 1) →
    fsm.mP (line.length + 1) = 0

theorem firstLine_of_kept {fsm : HttpFSM} {kept first : Bytes}
    {lines : List Bytes} {count : ℕ}
    (hkept : Kept kept fsm.headers (first :: lines))
    (hcontent : fsm.content = kept ++ List.replicate (count + 1) 0) :
    FirstLine first fsm := by
  obtain ⟨inner, more, entries, hmore, hheaders, hlater, hnext⟩ :=
    hkept.behind
  rw [hmore, List.replicate_succ] at hcontent
  refine ⟨by rw [hheaders]; rfl, ?_, ?_, ?_⟩
  · exact @stands_of_content [] (List.replicate inner 0 ++ more ++
      List.replicate (count + 1) 0) (first ++ [0]) fsm
      (by rw [hcontent]; simp)
  · rw [hheaders, List.tail_cons]
    intro header hheader
    have hplace := hlater header hheader
    omega
  · rw [hheaders, List.tail_cons]
    intro hnone
    have hplace : first.length + 1 = (first ++ [0]).length := by
      rw [List.length_append, List.length_singleton]
    rw [hplace]
    cases inner with
    | succ inner =>
        exact @mP_of_content fsm (first ++ [0])
          (List.replicate inner 0 ++ more ++ List.replicate (count + 1) 0) 0
          (by rw [hcontent]; simp [List.replicate_succ])
    | zero =>
        rcases hnext with rfl | ⟨entry, hentry, hnext⟩
        · exact @mP_of_content fsm (first ++ [0]) (List.replicate count 0) 0
            (by rw [hcontent]; simp [List.replicate_succ])
        · exact absurd hnext (hnone entry hentry)

/-! ## Behind the header -/

/-- Below a place the memory is kept, and so are the entries, to which only
entries above it are added. -/
structure Grown (base : ℕ) (fsm next : HttpFSM) : Prop where
  headers : ∃ more, next.headers = fsm.headers ++ more ∧
    ∀ header ∈ more, base ≤ header.hd
  below : ∀ place < base, next.mP place = fsm.mP place

/-- The header has ended before a place, and the parser does not go back
behind it. -/
structure Founded (base : ℕ) (fsm : HttpFSM) : Prop where
  header : fsm.state ≠ .recvHeader
  comment : fsm.state ≠ .recvComment
  last : 0 < base → fsm.mP (base - 1) = 0
  mLen : base ≤ fsm.mLen
  mBuf : fsm.mBuf ≤ fsm.mLen
  body : fsm.state = .recvBodylen ∨ fsm.state = .recvBody →
    ∃ bd, fsm.bd = some bd ∧ base ≤ bd
  line : fsm.state = .recvBodylen ∨ fsm.state = .recvBody ∨
    fsm.state = .recvFooter → base ≤ fsm.mBuf

section Grown

variable {base : ℕ} {fsm middle next : HttpFSM}

theorem Grown.of_below (hheaders : next.headers = fsm.headers)
    (hbelow : ∀ place < base, next.mP place = fsm.mP place) :
    Grown base fsm next :=
  ⟨⟨[], by rw [hheaders, List.append_nil],
    fun _ hmem => absurd hmem List.not_mem_nil⟩, hbelow⟩

theorem Grown.of_eq (hheaders : next.headers = fsm.headers)
    (hbytes : next.mP = fsm.mP) : Grown base fsm next :=
  .of_below hheaders fun place _ => congrFun hbytes place

theorem Grown.trans (hleft : Grown base fsm middle)
    (hright : Grown base middle next) : Grown base fsm next := by
  obtain ⟨more, hmore, habove⟩ := hleft.headers
  obtain ⟨last, hlast, hlater⟩ := hright.headers
  refine ⟨⟨more ++ last, ?_, ?_⟩, fun place hplace => ?_⟩
  · rw [hlast, hmore, List.append_assoc]
  · rw [List.forall_mem_append]
    exact ⟨habove, hlater⟩
  · rw [hright.below place hplace, hleft.below place hplace]

theorem FirstLine.grown {line : Bytes} (hline : FirstLine line fsm)
    (hbase : line.length + 2 ≤ base) (hgrown : Grown base fsm next) :
    FirstLine line next := by
  obtain ⟨more, hmore, habove⟩ := hgrown.headers
  obtain ⟨entries, hentries⟩ : ∃ entries, fsm.headers =
      ⟨0, line.length % 2 ^ 16⟩ :: entries :=
    List.head?_eq_some_iff.mp hline.entry
  have htail : next.headers.tail = fsm.headers.tail ++ more := by
    rw [hmore, hentries]
    rfl
  refine ⟨?_, ?_, ?_, ?_⟩
  · rw [hmore, hentries]
    rfl
  · refine hline.stands.congr fun other hother => ?_
    rw [List.length_append, List.length_singleton] at hother
    exact hgrown.below other (by omega)
  · rw [htail, List.forall_mem_append]
    refine ⟨hline.later, fun header hheader => ?_⟩
    have hplace := habove header hheader
    omega
  · rw [htail, List.forall_mem_append, hgrown.below _ (by omega)]
    exact fun hnone => hline.ended hnone.1

end Grown

section Founded

variable {base : ℕ} {fsm : HttpFSM}

theorem Founded.store (hfounded : Founded base fsm)
    (hlen : fsm.mLen + 1 < 2 ^ 32) (byte : UInt8) :
    Founded base (fsm.store byte) ∧ Grown base fsm (fsm.store byte) := by
  have hbelow : ∀ place < base,
      (fsm.store byte).mP place = fsm.mP place := fun place hplace =>
    mP_store_below byte hlen (hplace.trans_le hfounded.mLen)
  have hstored : (fsm.store byte).mLen = fsm.mLen + 1 := by
    rw [store_mLen, Nat.mod_eq_of_lt hlen]
  refine ⟨⟨?_, ?_, ?_, ?_, ?_, ?_, ?_⟩,
    .of_below (store_headers byte fsm) hbelow⟩
  · rw [store_state]
    exact hfounded.header
  · rw [store_state]
    exact hfounded.comment
  · intro hpos
    rw [hbelow _ (by omega)]
    exact hfounded.last hpos
  · exact hstored ▸ Nat.le_succ_of_le hfounded.mLen
  · rw [store_mBuf, hstored]
    exact Nat.le_succ_of_le hfounded.mBuf
  · rw [store_state, store_bd]
    exact hfounded.body
  · rw [store_state, store_mBuf]
    exact hfounded.line

/-- The parser takes no more lines. -/
theorem Founded.setState (hfounded : Founded base fsm) {state : State}
    (hstate : state = .error ∨ state = .recvFinish) :
    Founded base { fsm with state } := by
  refine ⟨?_, ?_, hfounded.last, hfounded.mLen, hfounded.mBuf, ?_, ?_⟩ <;>
    rcases hstate with rfl | rfl <;> simp

theorem Founded.terminate (hfounded : Founded base fsm) {nlf : ℕ}
    (hline : base ≤ fsm.mLen - nlf) :
    Founded base (fsm.terminate nlf) ∧
      Grown base fsm (fsm.terminate nlf) := by
  have hbelow : ∀ place < base,
      (fsm.terminate nlf).mP place = fsm.mP place :=
    fun place hplace => mP_terminate_below (hplace.trans_le hline)
  refine ⟨⟨?_, ?_, ?_, ?_, ?_, ?_, ?_⟩,
    .of_below (terminate_headers _ _) hbelow⟩
  · rw [terminate_state]
    exact hfounded.header
  · rw [terminate_state]
    exact hfounded.comment
  · intro hpos
    rw [hbelow _ (by omega)]
    exact hfounded.last hpos
  · rw [terminate_mLen]
    exact hfounded.mLen
  · rw [terminate_mBuf, terminate_mLen]
    exact hfounded.mBuf
  · rw [terminate_state, terminate_bd]
    exact hfounded.body
  · rw [terminate_state, terminate_mBuf]
    exact hfounded.line

/-- Behind the header no line ends below the place. -/
theorem Founded.lineEnd (hfounded : Founded base fsm)
    (hbuf : fsm.mBuf < fsm.mLen) {nlf : ℕ}
    (hstate : fsm.state = .recvHeader ∨ fsm.state = .recvBodylen ∨
      fsm.state = .recvFooter) (hnlf : nlf = fsm.recvLf ∨ nlf = 1) :
    base ≤ fsm.mLen - nlf := by
  have hstart : base ≤ fsm.mBuf := by
    rcases hstate with hstate | hstate | hstate
    · exact absurd hstate hfounded.header
    · exact hfounded.line (.inl hstate)
    · exact hfounded.line (.inr (.inr hstate))
  have hline := floor_le_of_nul hfounded.last (by omega)
  omega

/-- Behind a chunk `m_len` goes back to the end of the data. -/
theorem Founded.endsChunk (hfounded : Founded base fsm)
    (hstate : fsm.state = .recvBody)
    (hend : fsm.bd.getD 0 + fsm.bl + fsm.recvLf = fsm.mLen) :
    Founded base { fsm with
      mLen := fsm.mLen - fsm.recvLf
      mBuf := fsm.mLen - fsm.recvLf
      state := .recvBodylen } := by
  obtain ⟨bd, hbd, hbase⟩ := hfounded.body (.inr hstate)
  rw [hbd, Option.getD_some] at hend
  have hback : base ≤ fsm.mLen - fsm.recvLf := by omega
  exact ⟨by simp, by simp, hfounded.last, hback, Nat.le_refl _,
    fun _ => ⟨bd, hbd, hbase⟩, fun _ => hback⟩

/-- Behind a size line it goes back to the start of the line. -/
theorem Founded.sizes (hfounded : Founded base fsm)
    (hstate : fsm.state = .recvBodylen) (bl : ℕ) {next : State}
    (hnext : next ≠ .recvHeader ∧ next ≠ .recvComment) :
    Founded base { fsm with
      bl
      mLen := fsm.mLen - (fsm.mLen - fsm.mBuf)
      state := next } := by
  have hback : fsm.mLen - (fsm.mLen - fsm.mBuf) = fsm.mBuf := by
    have hbuf := hfounded.mBuf
    omega
  have hbase := hfounded.line (.inl hstate)
  rw [hback]
  exact ⟨hnext.1, hnext.2, hfounded.last, hbase, Nat.le_refl _,
    fun _ => hfounded.body (.inl hstate), fun _ => hbase⟩

theorem Founded.lastSize (hfounded : Founded base fsm) :
    Founded base { fsm with mBuf := fsm.mLen, state := .recvFooter } :=
  ⟨by simp, by simp, hfounded.last, hfounded.mLen, Nat.le_refl _, by simp,
    fun _ => hfounded.mLen⟩

theorem Founded.filesTrailer (hfounded : Founded base fsm)
    (hstart : base ≤ fsm.mBuf) (nlf : ℕ) :
    Founded base ({ fsm with
        mP := Function.update fsm.mP fsm.mLen 0 }.addHeader nlf) ∧
      Grown base fsm ({ fsm with
        mP := Function.update fsm.mP fsm.mLen 0 }.addHeader nlf) := by
  have hbelow : ∀ place < base,
      Function.update fsm.mP fsm.mLen 0 place = fsm.mP place :=
    fun place hplace => Function.update_of_ne
      (Nat.ne_of_lt (hplace.trans_le hfounded.mLen)) _ _
  constructor
  · exact ⟨hfounded.header, hfounded.comment,
      fun hpos => (hbelow _ (by omega)).trans (hfounded.last hpos),
      hfounded.mLen, Nat.le_refl _, hfounded.body, fun _ => hfounded.mLen⟩
  · refine ⟨⟨_, rfl, ?_⟩, hbelow⟩
    rw [List.forall_mem_singleton]
    exact hstart

theorem Founded.moves (hfounded : Founded base fsm) {state : State}
    {next : HttpFSM} (hmoves : Moves fsm state next)
    (hstate : fsm.state = state) (hbuf : fsm.mBuf < fsm.mLen)
    (hnul : fsm.mP fsm.mLen = 0) :
    Founded base next ∧ Grown base fsm next := by
  cases hmoves with
  | waits => exact ⟨hfounded, .of_eq rfl rfl⟩
  | halts _ hhalts => exact ⟨hfounded.setState hhalts, .of_eq rfl rfl⟩
  | haltsBehind _ hhalts hline hnlf =>
      obtain ⟨hnext, hgrown⟩ :=
        hfounded.terminate (hfounded.lineEnd hbuf (hstate ▸ hline) hnlf)
      exact ⟨hnext.setState hhalts, hgrown.trans (.of_eq rfl rfl)⟩
  | endsHeader => exact absurd hstate hfounded.header
  | filesHeader => exact absurd hstate hfounded.header
  | filesTrailer =>
      obtain ⟨hnext, hgrown⟩ := hfounded.terminate
        (hfounded.lineEnd hbuf (.inr (.inr hstate)) (.inl rfl))
      obtain ⟨hadded, hkept⟩ := hnext.filesTrailer
        (hnext.line (.inr (.inr ((terminate_state _ _).trans hstate))))
        fsm.recvLf
      exact ⟨hadded, hgrown.trans hkept⟩
  | endsChunk _ hend =>
      exact ⟨hfounded.endsChunk hstate hend, .of_eq rfl rfl⟩
  | sizes hends =>
      obtain ⟨hnext, hgrown⟩ := hfounded.terminate
        (hfounded.lineEnd hbuf (.inr (.inl hstate)) hends.cases)
      refine ⟨hnext.sizes ((terminate_state _ _).trans hstate) _ ?_,
        hgrown.trans (.of_eq rfl rfl)⟩
      cases hends with
      | line => decide
      | extension _ hsemicolon =>
          rw [hnul] at hsemicolon
          exact absurd hsemicolon (by decide)
  | lastSize hends =>
      obtain ⟨hnext, hgrown⟩ := hfounded.terminate
        (hfounded.lineEnd hbuf (.inr (.inl hstate)) hends.cases)
      exact ⟨hnext.lastSize, hgrown.trans (.of_eq rfl rfl)⟩
  | endsComment => exact absurd hstate hfounded.comment

/-- Whatever is received behind the header. -/
theorem Founded.receive (hfounded : Founded base fsm) {bytes : Bytes}
    (hroom : fsm.HasRoom bytes) : Grown base fsm (fsm.receive bytes) := by
  induction bytes generalizing fsm with
  | nil => exact .of_eq rfl rfl
  | cons byte rest ih =>
      rcases state_cases fsm with hhalted | hestablished | hreceiving
      · rw [receive_of_halted hhalted]
        exact .of_eq rfl rfl
      · rw [receive_of_established hestablished]
        exact .of_eq rfl rfl
      · obtain ⟨hlen, hrest⟩ := hroom.cons hreceiving
        obtain ⟨hstored, hkept⟩ := hfounded.store hlen byte
        have hbuf := hfounded.mBuf
        obtain ⟨hnext, hgrown⟩ := hstored.moves (moves_recv _) rfl
          (by rw [store_mBuf, store_mLen, Nat.mod_eq_of_lt hlen]; omega)
          (mP_store byte fsm)
        rw [receive_cons hreceiving]
        exact (hkept.trans hgrown).trans (ih hnext hrest)

/-- The header ends at `m_len`. -/
theorem founded_endHeader (hbuf : fsm.mBuf ≤ fsm.mLen)
    (hlast : fsm.mP (fsm.mLen - 1) = 0) :
    Founded fsm.mLen fsm.endHeader := by
  have hmLen : fsm.endHeader.mLen = fsm.mLen ∧ fsm.endHeader.mP = fsm.mP := by
    obtain ⟨version, res, mBuf, bd, bl, state, heq⟩ := endHeader_eq fsm
    rw [heq]
    exact ⟨rfl, rfl⟩
  obtain ⟨hlen, hbytes⟩ := hmLen
  have hwithin := (received_endHeader fsm).mBuf hbuf
  refine ⟨endHeader_state_ne fsm, ?_, fun _ => by rw [hbytes, hlast],
    Nat.le_of_eq hlen.symm, hwithin, ?_, ?_⟩
  · rcases endHeader_cases fsm with ⟨hstate, -⟩ | ⟨hstate, -⟩
    · simp [hstate]
    · rcases hstate with hstate | hstate | hstate | hstate <;> simp [hstate]
  · intro hlines
    rcases endHeader_cases fsm with ⟨-, hbd, -, -⟩ | ⟨hstate, -⟩
    · exact ⟨fsm.mLen, hbd, Nat.le_refl _⟩
    · rcases hstate with hstate | hstate | hstate | hstate <;>
        simp [hstate] at hlines
  · intro hlines
    rcases endHeader_cases fsm with ⟨-, -, -, hstart⟩ | ⟨hstate, -⟩
    · exact Nat.le_of_eq hstart.symm
    · rcases hstate with hstate | hstate | hstate | hstate <;>
        simp [hstate] at hlines

end Founded

/-! ## Finished messages -/

section Finished

variable {fsm : HttpFSM}

/-- At the empty line the first line is complete. -/
theorem LineStored.firstLine {stored : HttpFSM} {kept first : Bytes}
    {count : ℕ} {lines : List Bytes}
    (hstored : LineStored stored kept [] count (first :: lines))
    (hbuf : stored.mBuf ≤ stored.mLen) :
    FirstLine first stored.recv ∧
      Founded stored.mLen stored.recv ∧ first.length + 2 ≤ stored.mLen := by
  have hcontent := hstored.content
  have hlf := hstored.recvLf
  have hlen := hstored.mLen
  rw [List.nil_append] at hcontent
  have hlength := hstored.keeps.length_le List.mem_cons_self
  have hline : FirstLine first (stored.terminate stored.recvLf) := by
    rw [hlf]
    exact firstLine_of_kept (by
      rw [terminate_headers]
      exact hstored.keeps) hcontent
  have hlast : (stored.terminate stored.recvLf).mP
      ((stored.terminate stored.recvLf).mLen - 1) = 0 := by
    rw [terminate_mLen]
    exact mP_terminate_line (by omega) (by omega)
  have hfounded := founded_endHeader (by
    rw [terminate_mBuf, terminate_mLen]
    exact hbuf) hlast
  rw [List.length_nil, Nat.add_zero] at hlen
  rw [terminate_mLen] at hfounded
  rw [recv_atHeaderEnd hstored.atHeaderEnd]
  refine ⟨hline.grown (Nat.le_refl _) ?_, hfounded, by omega⟩
  obtain ⟨version, res, mBuf, bd, bl, state, heq⟩ :=
    endHeader_eq (stored.terminate stored.recvLf)
  rw [heq]
  exact .of_eq rfl rfl

/-- A message that finishes has a complete header, and its first line stands in
the buffer in the end. -/
theorem firstLine_receive {line : Bytes} {lines : List Bytes}
    (hscanned : Scanned fsm line lines) (hbuf : fsm.mBuf ≤ fsm.mLen)
    {bytes : Bytes} (hroom : fsm.HasRoom bytes)
    (hfinish : (fsm.receive bytes).state = .recvFinish) :
    ∃ first rest,
      headerLines fsm.mLen line lines bytes = some (first :: rest) ∧
        FirstLine first (fsm.receive bytes) := by
  induction bytes generalizing fsm line lines with
  | nil =>
      rw [receive, hscanned.state] at hfinish
      contradiction
  | cons byte rest ih =>
      have hreceiving : fsm.Receiving := by
        simp [Receiving, hscanned.state]
      obtain ⟨hlen, hrest⟩ := hroom.cons hreceiving
      have hwithin (byte : UInt8) :
          (fsm.store byte).mBuf ≤ (fsm.store byte).mLen := by
        rw [store_mBuf, store_mLen, Nat.mod_eq_of_lt hlen]
        omega
      rw [receive_cons hreceiving] at hfinish ⊢
      rw [headerLines]
      by_cases hbyte : byte = lf ∧ 0 < fsm.mLen
      · obtain ⟨rfl, hpos⟩ := hbyte
        obtain ⟨kept, count, hstored⟩ := hscanned.store hlen hpos
        rw [if_pos ⟨rfl, hpos⟩]
        by_cases htext : lineText fsm.mLen line = []
        · obtain ⟨first, more, rfl⟩ := List.exists_cons_of_ne_nil
            (hscanned.lines_ne_nil hpos htext)
          rw [htext] at hstored
          obtain ⟨hline, hfounded, hlength⟩ := hstored.firstLine (hwithin lf)
          rw [if_pos htext]
          exact ⟨first, more, rfl,
            hline.grown hlength (hfounded.receive hrest)⟩
        · rw [if_neg htext]
          by_cases hcount : lines.length < maxHeader
          · obtain ⟨hscan, hsame, -⟩ := hstored.next htext hcount
            rw [if_pos hcount]
            obtain ⟨first, more, hlines, hline⟩ := ih hscan
              ((received_recv _).mBuf (hwithin lf)) hrest hfinish
            rw [hsame, store_mLen, Nat.mod_eq_of_lt hlen] at hlines
            exact ⟨first, more, hlines, hline⟩
          · have herror := hstored.tooMany htext hcount
            rw [receive_of_halted (.inl herror), herror] at hfinish
            contradiction
      · obtain ⟨hrecv, hinside⟩ := hscanned.inside hlen hbyte
        rw [if_neg hbyte]
        rw [hrecv] at hrest hfinish ⊢
        obtain ⟨first, more, hlines, hline⟩ :=
          ih hinside (hwithin byte) hrest hfinish
        rw [store_mLen, Nat.mod_eq_of_lt hlen] at hlines
        exact ⟨first, more, hlines, hline⟩

/-- For every stream, however it is cut into calls, as long as it is written
inside the buffer. -/
theorem firstLine_of_finish {chunkSize : ℕ} (hlow : 2 ≤ chunkSize)
    (hhigh : chunkSize < 2 ^ 32) {memory : ℕ → UInt8} {calls : List Bytes}
    (hinside : ∀ stored ∈ (fsm.reset chunkSize memory).storesAll calls,
      stored.InBounds)
    (hfinish : ((fsm.reset chunkSize memory).appendAll calls).state =
      .recvFinish) :
    ∃ first rest,
      headerLines 0 [] [] calls.flatten = some (first :: rest) ∧
        FirstLine first ((fsm.reset chunkSize memory).appendAll calls) := by
  -- the largest buffer is that of another `reset`
  have hroom : (fsm.reset 0 memory).NeverExpands calls :=
    neverExpands_wide_reset hlow hhigh hinside
  obtain ⟨next, hnext⟩ :=
    appendAll_withBuffer 0 0 (fsm.reset chunkSize memory) calls
  have hwide : (fsm.reset 0 memory).appendAll calls =
      ((fsm.reset chunkSize memory).appendAll calls).withBuffer 0 next := hnext
  have hstate : ((fsm.reset 0 memory).appendAll calls).state =
      .recvFinish := by
    rw [hwide]
    exact hfinish
  have hextends : Extends (fsm.reset 0 memory) (fsm.reset 0 memory) := .inl rfl
  have hread := (hextends.appendAll (ended_reset 0 memory fsm)
    hroom).1.eq_of_halted (.inr (.inr hstate))
  rw [hread] at hstate
  obtain ⟨first, rest, hlines, hline⟩ := firstLine_receive
    (scanned_reset 0 memory fsm) (Nat.le_refl 0)
    (hasRoom_of_calls (.inl rfl) hroom) hstate
  rw [← hread, hwide] at hline
  exact ⟨first, rest, hlines,
    ⟨hline.entry, hline.stands, hline.later, hline.ended⟩⟩

end Finished

end HttpFSM

end GrpcMtk.Http
