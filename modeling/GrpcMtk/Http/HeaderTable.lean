import GrpcMtk.Http.Cutting
import GrpcMtk.Http.Framing

/-!
# The header table

The entries of `hd` and `hl` point into the buffer that the bodies are decoded
in and the trailers are appended to.  They stay good because each state has a
floor below which nothing is written any more: the start of the line in a
header or a trailer, and the start of the body in between.  The byte before the
floor is NUL, so that no line end that is replaced begins below it.
-/

namespace GrpcMtk.Http

open GrpcMtk.Proto

/-- The place of the NUL behind a header line. -/
def Header.ends (header : Header) : ℕ := header.hd + header.hl

namespace HttpFSM

/-- The entries are ranges of the received data in increasing order, each with
a NUL behind it, and outside the body. -/
structure Tabled (fsm : HttpFSM) : Prop where
  count : fsm.headers.length ≤ maxHeader
  inside : ∀ header ∈ fsm.headers, header.ends < fsm.mLen
  ended : ∀ header ∈ fsm.headers, fsm.mP header.ends = 0
  ordered : fsm.headers.Pairwise fun left right => left.ends < right.hd
  body : ∀ bd ∈ fsm.bd, ∀ header ∈ fsm.headers,
    header.ends < bd ∨ bd + fsm.bl ≤ header.hd
  mBuf : fsm.mBuf ≤ fsm.mLen

/-- The entries are kept, and so are the bytes of their lines. -/
structure Preserved (fsm next : HttpFSM) : Prop where
  headers : fsm.headers <+: next.headers
  bytes : ∀ header ∈ fsm.headers, ∀ place, header.hd ≤ place →
    place ≤ header.ends → next.mP place = fsm.mP place

/-- All lines end below a place, and a NUL is right before it. -/
structure Settled (floor : ℕ) (fsm : HttpFSM) : Prop where
  below : ∀ header ∈ fsm.headers, header.ends < floor
  last : 0 < floor → fsm.mP (floor - 1) = 0

/-- The floor of each state in which a line may end. -/
structure Table (fsm : HttpFSM) : Prop extends Tabled fsm where
  header : fsm.state = .recvHeader →
    fsm.Settled fsm.mBuf ∧ fsm.bd = none ∧ (fsm.headers = [] → fsm.mBuf = 0)
  bodylen : fsm.state = .recvBodylen →
    ∃ bd, fsm.bd = some bd ∧ fsm.Settled bd ∧ fsm.mBuf = bd + fsm.bl
  chunk : fsm.state = .recvBody →
    ∃ bd, fsm.bd = some bd ∧ fsm.Settled bd ∧ bd ≤ fsm.mBuf
  footer : fsm.state = .recvFooter →
    fsm.Settled fsm.mBuf ∧ ∀ bd ∈ fsm.bd, bd + fsm.bl ≤ fsm.mBuf
  comment : fsm.state ≠ .recvComment

/-! ## What is to be shown in each state -/

section State

variable {fsm : HttpFSM} {bd : ℕ}

theorem Tabled.table_header (htabled : Tabled fsm)
    (hstate : fsm.state = .recvHeader) (hsettled : fsm.Settled fsm.mBuf)
    (hbd : fsm.bd = none) (hnone : fsm.headers = [] → fsm.mBuf = 0) :
    Table fsm := by
  refine ⟨htabled, fun _ => ⟨hsettled, hbd, hnone⟩, ?_, ?_, ?_, ?_⟩ <;>
    simp [hstate]

theorem Tabled.table_bodylen (htabled : Tabled fsm)
    (hstate : fsm.state = .recvBodylen) (hbd : fsm.bd = some bd)
    (hsettled : fsm.Settled bd) (hstart : fsm.mBuf = bd + fsm.bl) :
    Table fsm := by
  refine ⟨htabled, ?_, fun _ => ⟨bd, hbd, hsettled, hstart⟩, ?_, ?_, ?_⟩ <;>
    simp [hstate]

theorem Tabled.table_chunk (htabled : Tabled fsm)
    (hstate : fsm.state = .recvBody) (hbd : fsm.bd = some bd)
    (hsettled : fsm.Settled bd) (hstart : bd ≤ fsm.mBuf) : Table fsm := by
  refine ⟨htabled, ?_, ?_, fun _ => ⟨bd, hbd, hsettled, hstart⟩, ?_, ?_⟩ <;>
    simp [hstate]

theorem Tabled.table_footer (htabled : Tabled fsm)
    (hstate : fsm.state = .recvFooter) (hsettled : fsm.Settled fsm.mBuf)
    (hbody : ∀ bd ∈ fsm.bd, bd + fsm.bl ≤ fsm.mBuf) : Table fsm := by
  refine ⟨htabled, ?_, ?_, ?_, fun _ => ⟨hsettled, hbody⟩, ?_⟩ <;>
    simp [hstate]

/-- In the other states nothing is written below `m_len`. -/
theorem Tabled.table (htabled : Tabled fsm)
    (hstate : fsm.state = .recvBodyNochunk ∨ fsm.state = .websocketEstablish ∨
      fsm.state = .error ∨ fsm.state = .recvFinish) : Table fsm := by
  refine ⟨htabled, ?_, ?_, ?_, ?_, ?_⟩ <;>
    rcases hstate with hstate | hstate | hstate | hstate <;> simp [hstate]

theorem table_reset (chunkSize : ℕ) (memory : ℕ → UInt8) (fsm : HttpFSM) :
    Table (fsm.reset chunkSize memory) := by
  have hnone {P : Header → Prop} : ∀ header ∈ ([] : List Header), P header :=
    fun _ hheader => absurd hheader List.not_mem_nil
  have htabled : Tabled (fsm.reset chunkSize memory) :=
    ⟨Nat.zero_le _, hnone, hnone, .nil, fun _ _ => hnone, Nat.le_refl 0⟩
  exact htabled.table_header rfl
    ⟨hnone, fun hpos => absurd hpos (Nat.lt_irrefl 0)⟩ rfl fun _ => rfl

end State

/-! ## What is kept -/

section Preserved

variable {fsm middle next : HttpFSM}

theorem preserved_refl (fsm : HttpFSM) : Preserved fsm fsm :=
  ⟨List.prefix_rfl, fun _ _ _ _ _ => rfl⟩

theorem Preserved.trans (hleft : Preserved fsm middle)
    (hright : Preserved middle next) : Preserved fsm next where
  headers := hleft.headers.trans hright.headers
  bytes header hheader place hstart hend :=
    (hright.bytes header (hleft.headers.subset hheader) place hstart hend).trans
      (hleft.bytes header hheader place hstart hend)

/-- Nothing is written below a floor that is above all lines. -/
theorem Preserved.of_floor {floor : ℕ} (hheaders : next.headers = fsm.headers)
    (hbelow : ∀ header ∈ fsm.headers, header.ends < floor)
    (hbytes : ∀ place < floor, next.mP place = fsm.mP place) :
    Preserved fsm next where
  headers := ⟨[], (List.append_nil _).trans hheaders.symm⟩
  bytes header hheader place _ hend :=
    hbytes place (hend.trans_lt (hbelow header hheader))

theorem Preserved.of_eq (hheaders : next.headers = fsm.headers)
    (hbytes : next.mP = fsm.mP) : Preserved fsm next where
  headers := ⟨[], (List.append_nil _).trans hheaders.symm⟩
  bytes _ _ place _ _ := congrFun hbytes place

theorem Settled.congr {floor : ℕ} (hsettled : fsm.Settled floor)
    (hheaders : next.headers = fsm.headers)
    (hbytes : ∀ place < floor, next.mP place = fsm.mP place) :
    next.Settled floor where
  below := by
    rw [hheaders]
    exact hsettled.below
  last hpos := (hbytes _ (Nat.sub_one_lt_of_lt hpos)).trans (hsettled.last hpos)

end Preserved

/-! ## Storing -/

section Store

variable {fsm : HttpFSM}

theorem mP_store_below (byte : UInt8) (hlen : fsm.mLen + 1 < 2 ^ 32)
    {place : ℕ} (hplace : place < fsm.mLen) :
    (fsm.store byte).mP place = fsm.mP place := by
  rw [store_mP, Nat.mod_eq_of_lt hlen, Function.update_of_ne (by omega),
    Function.update_of_ne (by omega)]

theorem Tabled.store (htabled : Tabled fsm) (hlen : fsm.mLen + 1 < 2 ^ 32)
    (byte : UInt8) : Tabled (fsm.store byte) where
  count := by
    rw [store_headers]
    exact htabled.count
  inside header hheader := by
    rw [store_headers] at hheader
    rw [store_mLen, Nat.mod_eq_of_lt hlen]
    exact Nat.lt_succ_of_lt (htabled.inside header hheader)
  ended header hheader := by
    rw [store_headers] at hheader
    rw [mP_store_below byte hlen (htabled.inside header hheader)]
    exact htabled.ended header hheader
  ordered := by
    rw [store_headers]
    exact htabled.ordered
  body := by
    rw [store_headers, store_bd, store_bl]
    exact htabled.body
  mBuf := by
    rw [store_mBuf, store_mLen, Nat.mod_eq_of_lt hlen]
    exact Nat.le_succ_of_le htabled.mBuf

theorem Tabled.preserved_store (htabled : Tabled fsm)
    (hlen : fsm.mLen + 1 < 2 ^ 32) (byte : UInt8) :
    Preserved fsm (fsm.store byte) :=
  .of_floor (store_headers byte fsm) htabled.inside
    fun _ hplace => mP_store_below byte hlen hplace

theorem Settled.store {floor : ℕ} (hsettled : fsm.Settled floor)
    (hfloor : floor ≤ fsm.mLen) (hlen : fsm.mLen + 1 < 2 ^ 32) (byte : UInt8) :
    (fsm.store byte).Settled floor :=
  hsettled.congr (store_headers byte fsm) fun _ hplace =>
    mP_store_below byte hlen (hplace.trans_le hfloor)

theorem Table.store (htable : Table fsm) (hlen : fsm.mLen + 1 < 2 ^ 32)
    (byte : UInt8) : Table (fsm.store byte) where
  toTabled := htable.toTabled.store hlen byte
  header hstate := by
    rw [store_state] at hstate
    rw [store_mBuf, store_bd, store_headers]
    obtain ⟨hsettled, hrest⟩ := htable.header hstate
    exact ⟨hsettled.store htable.mBuf hlen byte, hrest⟩
  bodylen hstate := by
    rw [store_state] at hstate
    rw [store_mBuf, store_bd, store_bl]
    obtain ⟨bd, hbd, hsettled, hstart⟩ := htable.bodylen hstate
    have hbuf := htable.mBuf
    exact ⟨bd, hbd, hsettled.store (by omega) hlen byte, hstart⟩
  chunk hstate := by
    rw [store_state] at hstate
    rw [store_mBuf, store_bd]
    obtain ⟨bd, hbd, hsettled, hstart⟩ := htable.chunk hstate
    exact ⟨bd, hbd, hsettled.store (hstart.trans htable.mBuf) hlen byte, hstart⟩
  footer hstate := by
    rw [store_state] at hstate
    rw [store_mBuf, store_bd, store_bl]
    obtain ⟨hsettled, hrest⟩ := htable.footer hstate
    exact ⟨hsettled.store htable.mBuf hlen byte, hrest⟩
  comment := by
    rw [store_state]
    exact htable.comment

end Store

/-! ## Line ends -/

section LineEnds

variable {fsm : HttpFSM} {nlf place floor : ℕ}

theorem mP_terminate_below (hplace : place < fsm.mLen - nlf) :
    (fsm.terminate nlf).mP place = fsm.mP place := by
  induction nlf generalizing fsm with
  | zero => rfl
  | succ nlf ih =>
      refine (@ih { fsm with
        mP := Function.update fsm.mP (fsm.mLen - (nlf + 1)) 0 } ?_).trans ?_
      · change place < fsm.mLen - nlf
        omega
      · exact Function.update_of_ne (Nat.ne_of_lt hplace) _ _

theorem mP_terminate_line (hstart : fsm.mLen - nlf ≤ place)
    (hend : place < fsm.mLen) : (fsm.terminate nlf).mP place = 0 := by
  induction nlf generalizing fsm with
  | zero => exact absurd hend (Nat.not_lt.mpr hstart)
  | succ nlf ih =>
      rw [terminate]
      by_cases hfirst : place = fsm.mLen - (nlf + 1)
      · apply mP_terminate_of_zero
        rw [hfirst]
        exact Function.update_self _ _ _
      · refine ih ?_ hend
        change fsm.mLen - nlf ≤ place
        omega

/-- A CR before the floor would be the NUL there. -/
theorem floor_le_of_nul (hlast : 0 < floor → fsm.mP (floor - 1) = 0)
    (hfloor : floor < fsm.mLen) : floor ≤ fsm.mLen - fsm.recvLf := by
  rw [recvLf]
  split
  case isTrue hcrlf =>
    by_contra hbefore
    have hnul := hlast (by omega)
    have hplace : floor - 1 = fsm.mLen - 2 := by omega
    rw [hplace, hcrlf.2.1] at hnul
    exact absurd hnul (by decide)
  case isFalse =>
    split <;> omega

theorem Settled.floor_le (hsettled : fsm.Settled floor)
    (hfloor : floor < fsm.mLen) : floor ≤ fsm.mLen - fsm.recvLf :=
  floor_le_of_nul hsettled.last hfloor

theorem Settled.terminate (hsettled : fsm.Settled floor)
    (hfloor : floor ≤ fsm.mLen - nlf) : (fsm.terminate nlf).Settled floor :=
  hsettled.congr (terminate_headers nlf fsm) fun _ hplace =>
    mP_terminate_below (hplace.trans_le hfloor)

theorem Settled.preserved_terminate (hsettled : fsm.Settled floor)
    (hfloor : floor ≤ fsm.mLen - nlf) :
    Preserved fsm (fsm.terminate nlf) :=
  .of_floor (terminate_headers nlf fsm) hsettled.below fun _ hplace =>
    mP_terminate_below (hplace.trans_le hfloor)

theorem Tabled.terminate (htabled : Tabled fsm) (nlf : ℕ) :
    Tabled (fsm.terminate nlf) where
  count := by
    rw [terminate_headers]
    exact htabled.count
  inside := by
    rw [terminate_headers, terminate_mLen]
    exact htabled.inside
  ended header hheader := by
    rw [terminate_headers] at hheader
    exact mP_terminate_of_zero (htabled.ended header hheader) nlf
  ordered := by
    rw [terminate_headers]
    exact htabled.ordered
  body := by
    rw [terminate_headers, terminate_bd, terminate_bl]
    exact htabled.body
  mBuf := by
    rw [terminate_mBuf, terminate_mLen]
    exact htabled.mBuf

theorem Tabled.setState (htabled : Tabled fsm) (state : State) :
    Tabled { fsm with state } :=
  ⟨htabled.count, htabled.inside, htabled.ended, htabled.ordered,
    htabled.body, htabled.mBuf⟩

/-- A line that has begun at the floor gets its entry. -/
theorem Tabled.addHeader (htabled : Tabled fsm)
    (hsettled : fsm.Settled fsm.mBuf) (hpos : 0 < nlf)
    (hline : fsm.mBuf + nlf ≤ fsm.mLen) (hshort : fsm.mLen < 2 ^ 16)
    (hend : fsm.mP (fsm.mLen - nlf) = 0)
    (hcount : fsm.headers.length < maxHeader)
    (hbody : ∀ bd ∈ fsm.bd, bd + fsm.bl ≤ fsm.mBuf) :
    Tabled (fsm.addHeader nlf) := by
  have hends : (Header.mk fsm.mBuf
      ((fsm.mLen - fsm.mBuf - nlf) % 2 ^ 16)).ends = fsm.mLen - nlf := by
    rw [Header.ends, Nat.mod_eq_of_lt (by omega)]
    change fsm.mBuf + (fsm.mLen - fsm.mBuf - nlf) = fsm.mLen - nlf
    omega
  refine ⟨?_, ?_, ?_, ?_, ?_, Nat.le_refl _⟩
  · rw [HttpFSM.addHeader, List.length_append, List.length_singleton]
    exact hcount
  · rw [HttpFSM.addHeader, List.forall_mem_append, List.forall_mem_singleton,
      hends]
    exact ⟨htabled.inside, by dsimp only; omega⟩
  · rw [HttpFSM.addHeader, List.forall_mem_append, List.forall_mem_singleton,
      hends]
    exact ⟨htabled.ended, hend⟩
  · rw [HttpFSM.addHeader, List.pairwise_append]
    refine ⟨htabled.ordered, List.pairwise_singleton _ _, ?_⟩
    intro header hheader
    rw [List.forall_mem_singleton]
    exact hsettled.below header hheader
  · intro bd hbd
    rw [HttpFSM.addHeader, List.forall_mem_append, List.forall_mem_singleton]
    exact ⟨htabled.body bd hbd, .inr (hbody bd hbd)⟩

theorem preserved_addHeader (nlf : ℕ) (fsm : HttpFSM) :
    Preserved fsm (fsm.addHeader nlf) where
  headers := List.prefix_append _ _
  bytes _ _ _ _ _ := rfl

theorem Tabled.settled_addHeader (htabled : Tabled (fsm.addHeader nlf))
    (hlast : fsm.mP (fsm.mLen - 1) = 0) :
    (fsm.addHeader nlf).Settled (fsm.addHeader nlf).mBuf where
  below := htabled.inside
  last _ := hlast

end LineEnds

/-! ## The end of the header -/

theorem endHeader_cases (fsm : HttpFSM) :
    fsm.endHeader.state = .recvBodylen ∧ fsm.endHeader.bd = some fsm.mLen ∧
        fsm.endHeader.bl = 0 ∧ fsm.endHeader.mBuf = fsm.mLen ∨
      (fsm.endHeader.state = .recvBodyNochunk ∨
        fsm.endHeader.state = .websocketEstablish ∨
        fsm.endHeader.state = .error ∨ fsm.endHeader.state = .recvFinish) ∧
        (fsm.endHeader.bd = fsm.bd ∨ fsm.endHeader.bd = some fsm.mLen) := by
  rw [endHeader]
  split
  · exact .inr ⟨.inl rfl, .inr rfl⟩
  · split
    · exact .inl ⟨rfl, rfl, rfl, rfl⟩
    · split
      · exact .inr ⟨.inr (.inl rfl), .inl rfl⟩
      · split
        · exact .inr ⟨.inr (.inr (.inl rfl)), .inl rfl⟩
        · exact .inr ⟨.inr (.inr (.inr rfl)), .inl rfl⟩

section EndHeader

variable {fsm : HttpFSM}

theorem preserved_endHeader (fsm : HttpFSM) :
    Preserved fsm fsm.endHeader := by
  obtain ⟨version, res, mBuf, bd, bl, state, heq⟩ := endHeader_eq fsm
  rw [heq]
  exact .of_eq rfl rfl

/-- The body begins behind all lines. -/
theorem Tabled.endHeader (htabled : Tabled fsm) (hbd : fsm.bd = none) :
    Tabled fsm.endHeader := by
  have hbuf := (received_endHeader fsm).mBuf htabled.mBuf
  have hbody : ∀ bd ∈ fsm.endHeader.bd, ∀ header ∈ fsm.headers,
      header.ends < bd := by
    intro bd hmem header hheader
    have hsome : fsm.endHeader.bd = some fsm.mLen := by
      rcases endHeader_cases fsm with ⟨-, hnew, -⟩ | ⟨-, hold | hnew⟩
      · exact hnew
      · rw [hold, hbd] at hmem
        contradiction
      · exact hnew
    rw [hsome, Option.mem_some_iff] at hmem
    rw [← hmem]
    exact htabled.inside header hheader
  obtain ⟨version, res, mBuf, bd, bl, state, heq⟩ := endHeader_eq fsm
  rw [heq] at hbody hbuf ⊢
  exact ⟨htabled.count, htabled.inside, htabled.ended, htabled.ordered,
    fun bd hmem header hheader => .inl (hbody bd hmem header hheader), hbuf⟩

theorem Tabled.table_endHeader (htabled : Tabled fsm) (hbd : fsm.bd = none)
    (hlast : fsm.mP (fsm.mLen - 1) = 0) : Table fsm.endHeader := by
  have hnext := htabled.endHeader hbd
  rcases endHeader_cases fsm with ⟨hstate, hbody, hbl, hbuf⟩ | ⟨hstate, -⟩
  · have hsettled : fsm.endHeader.Settled fsm.mLen := by
      obtain ⟨version, res, mBuf, bd, bl, state, heq⟩ := endHeader_eq fsm
      rw [heq]
      exact ⟨htabled.inside, fun _ => hlast⟩
    exact hnext.table_bodylen hstate hbody hsettled
      (by rw [hbuf, hbl, Nat.add_zero])
  · exact hnext.table hstate

end EndHeader

/-! ## The receiving functions -/

section Receiving

variable {fsm : HttpFSM}

/-- A line that has ended gets its entry. -/
theorem Tabled.addLine (htabled : Tabled fsm)
    (hsettled : fsm.Settled fsm.mBuf) (hbuf : fsm.mBuf < fsm.mLen)
    (hshort : fsm.mLen < 2 ^ 16) (hlf : fsm.recvLf ≠ 0)
    (hcount : fsm.headers.length < maxHeader)
    (hbody : ∀ bd ∈ fsm.bd, bd + fsm.bl ≤ fsm.mBuf) :
    Tabled ((fsm.terminate fsm.recvLf).addHeader fsm.recvLf) ∧
      ((fsm.terminate fsm.recvLf).addHeader fsm.recvLf).Settled fsm.mLen := by
  have hline := hsettled.floor_le hbuf
  have hends := recvLf_le fsm
  have hlen := terminate_mLen fsm.recvLf fsm
  have hstart := terminate_mBuf fsm.recvLf fsm
  have hadded : Tabled ((fsm.terminate fsm.recvLf).addHeader fsm.recvLf) := by
    apply (htabled.terminate fsm.recvLf).addHeader
    · rw [hstart]
      exact hsettled.terminate hline
    · exact Nat.pos_of_ne_zero hlf
    · omega
    · omega
    · rw [hlen]
      exact mP_terminate_line (Nat.le_refl _) (by omega)
    · rw [terminate_headers]
      exact hcount
    · rw [terminate_bd, terminate_bl, hstart]
      exact hbody
  refine ⟨hadded, ?_⟩
  have hlast : (fsm.terminate fsm.recvLf).mP
      ((fsm.terminate fsm.recvLf).mLen - 1) = 0 := by
    rw [hlen]
    exact mP_terminate_line (by omega) (by omega)
  have hnext := hadded.settled_addHeader hlast
  rwa [show ((fsm.terminate fsm.recvLf).addHeader fsm.recvLf).mBuf = fsm.mLen
    from hlen] at hnext

section Table

variable (htable : Table fsm) (hbuf : fsm.mBuf < fsm.mLen)

include htable hbuf

/-- Where a line may end all earlier lines are below the line end. -/
theorem Table.settled {nlf : ℕ}
    (hstate : fsm.state = .recvHeader ∨ fsm.state = .recvBodylen ∨
      fsm.state = .recvFooter) (hnlf : nlf = fsm.recvLf ∨ nlf = 1) :
    ∃ floor ≤ fsm.mLen - nlf, fsm.Settled floor := by
  obtain ⟨floor, hfloor, hsettled⟩ : ∃ floor ≤ fsm.mBuf,
      fsm.Settled floor := by
    rcases hstate with hstate | hstate | hstate
    · exact ⟨_, Nat.le_refl _, (htable.header hstate).1⟩
    · obtain ⟨bd, -, hsettled, hstart⟩ := htable.bodylen hstate
      exact ⟨bd, by omega, hsettled⟩
    · exact ⟨_, Nat.le_refl _, (htable.footer hstate).1⟩
  have hline := hsettled.floor_le (Nat.lt_of_le_of_lt hfloor hbuf)
  exact ⟨floor, by omega, hsettled⟩

theorem Table.preserved_terminate {nlf : ℕ}
    (hstate : fsm.state = .recvHeader ∨ fsm.state = .recvBodylen ∨
      fsm.state = .recvFooter) (hnlf : nlf = fsm.recvLf ∨ nlf = 1) :
    Preserved fsm (fsm.terminate nlf) := by
  obtain ⟨floor, hline, hsettled⟩ := htable.settled hbuf hstate hnlf
  exact hsettled.preserved_terminate hline

theorem Table.preserved_moves {state : State} {next : HttpFSM}
    (hmoves : Moves fsm state next) (hstate : fsm.state = state) :
    Preserved fsm next := by
  cases hmoves with
  | waits => exact preserved_refl fsm
  | halts => exact .of_eq rfl rfl
  | haltsBehind _ _ hline hnlf =>
      exact (htable.preserved_terminate hbuf (hstate ▸ hline) hnlf).trans
        (.of_eq rfl rfl)
  | endsHeader =>
      exact (htable.preserved_terminate hbuf (.inl hstate) (.inl rfl)).trans
        (preserved_endHeader _)
  | filesHeader =>
      exact (htable.preserved_terminate hbuf (.inl hstate) (.inl rfl)).trans
        (preserved_addHeader _ _)
  | filesTrailer =>
      have hkept : Preserved (fsm.terminate fsm.recvLf)
          { fsm.terminate fsm.recvLf with
            mP := Function.update (fsm.terminate fsm.recvLf).mP
              (fsm.terminate fsm.recvLf).mLen 0 } :=
        .of_floor rfl (htable.toTabled.terminate fsm.recvLf).inside
          fun _ hplace => Function.update_of_ne (Nat.ne_of_lt hplace) _ _
      exact ((htable.preserved_terminate hbuf (.inr (.inr hstate))
        (.inl rfl)).trans hkept).trans (preserved_addHeader _ _)
  | endsChunk => exact .of_eq rfl rfl
  | sizes hends =>
      exact (htable.preserved_terminate hbuf (.inr (.inl hstate))
        hends.cases).trans (.of_eq rfl rfl)
  | lastSize hends =>
      exact (htable.preserved_terminate hbuf (.inr (.inl hstate))
        hends.cases).trans (.of_eq rfl rfl)
  | endsComment => exact .of_eq rfl rfl

theorem Table.endsHeader (hstate : fsm.state = .recvHeader)
    (hlf : fsm.recvLf ≠ 0) : Table (fsm.terminate fsm.recvLf).endHeader := by
  have hends := recvLf_le fsm
  have hlast : (fsm.terminate fsm.recvLf).mP
      ((fsm.terminate fsm.recvLf).mLen - 1) = 0 := by
    rw [terminate_mLen]
    exact mP_terminate_line (by omega) (by omega)
  exact (htable.toTabled.terminate fsm.recvLf).table_endHeader
    ((terminate_bd _ _).trans (htable.header hstate).2.1) hlast

theorem Table.filesHeader (hstate : fsm.state = .recvHeader)
    (hshort : fsm.mLen < 2 ^ 16) (hlf : fsm.recvLf ≠ 0)
    (hcount : fsm.headers.length < maxHeader) :
    Table ((fsm.terminate fsm.recvLf).addHeader fsm.recvLf) := by
  obtain ⟨hsettled, hbd, -⟩ := htable.header hstate
  obtain ⟨hadded, hnext⟩ := htable.addLine hsettled hbuf hshort hlf hcount
    (by simp [hbd])
  refine hadded.table_header ((terminate_state _ _).trans hstate) ?_
    ((terminate_bd _ _).trans hbd) fun hnone => absurd hnone ?_
  · rwa [show ((fsm.terminate fsm.recvLf).addHeader fsm.recvLf).mBuf =
      fsm.mLen from terminate_mLen _ _]
  · exact List.append_ne_nil_of_right_ne_nil _ (List.cons_ne_nil _ _)

theorem Table.filesTrailer (hstate : fsm.state = .recvFooter)
    (hshort : fsm.mLen < 2 ^ 16) (hnul : fsm.mP fsm.mLen = 0)
    (hlf : fsm.recvLf ≠ 0) (hcount : fsm.headers.length < maxHeader) :
    Table ({ fsm.terminate fsm.recvLf with
      mP := Function.update (fsm.terminate fsm.recvLf).mP
        (fsm.terminate fsm.recvLf).mLen 0 }.addHeader fsm.recvLf) := by
  obtain ⟨hsettled, hbody⟩ := htable.footer hstate
  obtain ⟨hadded, hnext⟩ := htable.addLine hsettled hbuf hshort hlf hcount
    hbody
  -- the NUL is there already
  have hsame : Function.update (fsm.terminate fsm.recvLf).mP
      (fsm.terminate fsm.recvLf).mLen 0 = (fsm.terminate fsm.recvLf).mP := by
    have hbehind := mP_terminate_of_zero hnul fsm.recvLf
    rw [terminate_mLen, ← hbehind, Function.update_eq_self]
  rw [hsame]
  refine hadded.table_footer ((terminate_state _ _).trans hstate) ?_ ?_
  · rwa [show ((fsm.terminate fsm.recvLf).addHeader fsm.recvLf).mBuf =
      fsm.mLen from terminate_mLen _ _]
  · intro bd hbd
    rw [HttpFSM.addHeader, terminate_bd] at hbd
    rw [HttpFSM.addHeader, terminate_bl, terminate_mLen]
    exact (hbody bd hbd).trans htable.mBuf

omit hbuf in
/-- Behind a chunk `m_len` goes back to the end of the data. -/
theorem Table.endsChunk (hstate : fsm.state = .recvBody)
    (hend : fsm.bd.getD 0 + fsm.bl + fsm.recvLf = fsm.mLen) :
    Table { fsm with
      mLen := fsm.mLen - fsm.recvLf
      mBuf := fsm.mLen - fsm.recvLf
      state := .recvBodylen } := by
  obtain ⟨bd, hbd, hsettled, -⟩ := htable.chunk hstate
  rw [hbd, Option.getD_some] at hend
  have hback : fsm.mLen - fsm.recvLf = bd + fsm.bl := by omega
  refine Tabled.table_bodylen ?_ rfl hbd ⟨hsettled.below, hsettled.last⟩ hback
  refine ⟨htable.count, fun header hheader => ?_, htable.ended,
    htable.ordered, htable.body, Nat.le_refl _⟩
  have hbelow := hsettled.below header hheader
  change header.ends < fsm.mLen - fsm.recvLf
  omega

/-- Behind a size line `m_len` goes back to the start of the line. -/
theorem Table.sizes (hstate : fsm.state = .recvBodylen) (bl : ℕ) :
    Table { fsm.terminate fsm.recvLf with
      bl
      mLen := (fsm.terminate fsm.recvLf).mLen -
        ((fsm.terminate fsm.recvLf).mLen - (fsm.terminate fsm.recvLf).mBuf)
      state := .recvBody } := by
  obtain ⟨bd, hbd, hsettled, hstart⟩ := htable.bodylen hstate
  have hfloor := hsettled.terminate (hsettled.floor_le (by omega))
  have htabled := htable.toTabled.terminate fsm.recvLf
  have hlen := terminate_mLen fsm.recvLf fsm
  have hsame := terminate_mBuf fsm.recvLf fsm
  have hbody := (terminate_bd fsm.recvLf fsm).trans hbd
  generalize fsm.terminate fsm.recvLf = next at *
  have hback : next.mLen - (next.mLen - next.mBuf) = next.mBuf := by omega
  rw [hback]
  refine Tabled.table_chunk ?_ rfl hbody ⟨hfloor.below, hfloor.last⟩ ?_
  · refine ⟨htabled.count, fun header hheader => ?_, htabled.ended,
      htabled.ordered, fun other hother header hheader => .inl ?_,
      Nat.le_refl _⟩
    · have hbelow := hfloor.below header hheader
      change header.ends < next.mBuf
      omega
    · change other ∈ next.bd at hother
      rw [hbody, Option.mem_some_iff] at hother
      rw [← hother]
      exact hfloor.below header hheader
  · change bd ≤ next.mBuf
    omega

/-- Behind the last size line the trailers begin. -/
theorem Table.lastSize (hstate : fsm.state = .recvBodylen)
    (hlf : fsm.recvLf ≠ 0) :
    Table { fsm.terminate fsm.recvLf with
      mBuf := (fsm.terminate fsm.recvLf).mLen
      state := .recvFooter } := by
  obtain ⟨bd, hbd, -, hstart⟩ := htable.bodylen hstate
  have hends := recvLf_le fsm
  have hlast : (fsm.terminate fsm.recvLf).mP (fsm.mLen - 1) = 0 :=
    mP_terminate_line (by omega) (by omega)
  have htabled := htable.toTabled.terminate fsm.recvLf
  have hlen := terminate_mLen fsm.recvLf fsm
  have hbl := terminate_bl fsm.recvLf fsm
  have hbody := (terminate_bd fsm.recvLf fsm).trans hbd
  generalize fsm.terminate fsm.recvLf = next at *
  refine Tabled.table_footer ?_ rfl ⟨htabled.inside, fun _ => ?_⟩
    fun other hother => ?_
  · exact ⟨htabled.count, htabled.inside, htabled.ended, htabled.ordered,
      htabled.body, Nat.le_refl _⟩
  · change next.mP (next.mLen - 1) = 0
    rw [hlen]
    exact hlast
  · change other ∈ next.bd at hother
    rw [hbody, Option.mem_some_iff] at hother
    change other + next.bl ≤ next.mLen
    omega

theorem Table.moves {state : State} {next : HttpFSM}
    (hmoves : Moves fsm state next) (hstate : fsm.state = state)
    (hshort : fsm.mLen < 2 ^ 16) (hnul : fsm.mP fsm.mLen = 0) :
    Table next := by
  have hline {nlf : ℕ} {next : State} (hends : SizeEnd fsm nlf next) :
      fsm.recvLf ≠ 0 ∧ nlf = fsm.recvLf ∧ next = .recvBody := by
    cases hends with
    | line hlf => exact ⟨hlf, rfl, rfl⟩
    | extension _ hsemicolon =>
        rw [hnul] at hsemicolon
        exact absurd hsemicolon (by decide)
  cases hmoves with
  | waits => exact htable
  | halts _ hhalts =>
      exact (htable.setState _).table (.inr (.inr hhalts))
  | @haltsBehind _ _ nlf _ hhalts =>
      exact ((htable.toTabled.terminate nlf).setState _).table
        (.inr (.inr hhalts))
  | endsHeader hlf => exact htable.endsHeader hbuf hstate hlf
  | filesHeader hlf hcount =>
      exact htable.filesHeader hbuf hstate hshort hlf hcount
  | filesTrailer hlf hcount =>
      exact htable.filesTrailer hbuf hstate hshort hnul hlf hcount
  | endsChunk _ hend => exact htable.endsChunk hstate hend
  | sizes hends =>
      obtain ⟨-, rfl, rfl⟩ := hline hends
      exact htable.sizes hbuf hstate _
  | lastSize hends =>
      obtain ⟨hlf, rfl, -⟩ := hline hends
      exact htable.lastSize hbuf hstate hlf
  | endsComment => exact absurd hstate htable.comment

end Table

theorem Table.recv (htable : Table fsm) (hbuf : fsm.mBuf < fsm.mLen)
    (hshort : fsm.mLen < 2 ^ 16) (hnul : fsm.mP fsm.mLen = 0) :
    Table fsm.recv ∧ Preserved fsm fsm.recv :=
  ⟨htable.moves hbuf (moves_recv fsm) rfl hshort hnul,
    htable.preserved_moves hbuf (moves_recv fsm) rfl⟩

theorem recvLf_lt (hlf : fsm.recvLf ≠ 0) : fsm.recvLf < fsm.mLen := by
  rw [recvLf] at hlf ⊢
  split
  case isTrue => omega
  case isFalse hcrlf =>
    rw [if_neg hcrlf] at hlf
    split
    case isTrue => omega
    case isFalse hnone => exact absurd (if_neg hnone) hlf

/-- The first line is not empty, so that there is an entry at the end of the
header. -/
theorem Table.headers_ne_nil (htable : Table fsm) (hat : fsm.AtHeaderEnd) :
    fsm.headers ≠ [] := by
  obtain ⟨hstate, hlf, hempty⟩ := hat
  intro hnone
  have hstart := (htable.header hstate).2.2 hnone
  have hline := recvLf_lt hlf
  omega

end Receiving

/-! ## Streams -/

section Streams

variable {fsm : HttpFSM}

theorem handed_cons (hreceiving : fsm.Receiving) (byte : UInt8)
    (rest : Bytes) :
    fsm.handed (byte :: rest) =
      fsm.store byte :: (fsm.store byte).recv.handed rest := by
  obtain ⟨herror, hfinish, hestablish⟩ := hreceiving
  rw [handed]
  split
  · contradiction
  · contradiction
  · contradiction
  · rfl

/-- One received byte. -/
theorem Table.step (htable : Table fsm) (hshort : fsm.mLen + 1 < 2 ^ 16)
    (byte : UInt8) :
    Table (fsm.store byte).recv ∧ Preserved fsm (fsm.store byte).recv := by
  have hlen : fsm.mLen + 1 < 2 ^ 32 := by omega
  have hstored := htable.store hlen byte
  have hbuf := htable.mBuf
  obtain ⟨hnext, hkept⟩ := hstored.recv
    (by rw [store_mBuf, store_mLen, Nat.mod_eq_of_lt hlen]; omega)
    (by rw [store_mLen, Nat.mod_eq_of_lt hlen]; exact hshort)
    (mP_store byte fsm)
  exact ⟨hnext, (htable.preserved_store hlen byte).trans hkept⟩

theorem Table.append (htable : Table fsm) {bytes : Bytes}
    (hshort : fsm.mLen + bytes.length < 2 ^ 16) :
    Table (fsm.append bytes) ∧ Preserved fsm (fsm.append bytes) := by
  induction bytes generalizing fsm with
  | nil => exact ⟨htable, preserved_refl fsm⟩
  | cons byte rest ih =>
      rw [List.length_cons] at hshort
      rcases state_cases fsm with hhalted | hestablished | hreceiving
      · rw [append_of_halted hhalted]
        exact ⟨htable, preserved_refl fsm⟩
      · rw [append_cons_of_established hestablished]
        have hlen : fsm.mLen + 1 < 2 ^ 32 := by omega
        exact ⟨htable.store hlen byte, htable.preserved_store hlen byte⟩
      · rw [append_cons hreceiving]
        obtain ⟨hnext, hkept⟩ := htable.step (by omega) byte
        have hgrown := mLen_store_recv_le byte fsm
        obtain ⟨hlast, hrest⟩ := ih hnext (by omega)
        exact ⟨hlast, hkept.trans hrest⟩

/-- The states between the bytes of a call. -/
theorem Table.handed (htable : Table fsm) {bytes : Bytes}
    (hshort : fsm.mLen + bytes.length < 2 ^ 16) {stored : HttpFSM}
    (hstored : stored ∈ fsm.handed bytes) :
    Table stored ∧ Table stored.recv ∧
      Preserved stored.recv (fsm.append bytes) := by
  induction bytes generalizing fsm with
  | nil => exact absurd hstored List.not_mem_nil
  | cons byte rest ih =>
      rw [List.length_cons] at hshort
      have hnext := (htable.step (by omega) byte).1
      have hgrown := mLen_store_recv_le byte fsm
      rcases state_cases fsm with hhalted | hestablished | hreceiving
      · rcases hhalted with hstate | hstate <;>
          simp [HttpFSM.handed, hstate] at hstored
      · simp [HttpFSM.handed, hestablished] at hstored
      · have hlater := (@Table.append _ hnext rest (by omega)).2
        rw [handed_cons hreceiving, List.mem_cons] at hstored
        rw [append_cons hreceiving]
        rcases hstored with rfl | hstored
        · exact ⟨htable.store (by omega) byte, hnext, hlater⟩
        · exact ih hnext (by omega) hstored

theorem Table.appendAll (htable : Table fsm) {calls : List Bytes}
    (hshort : fsm.mLen + calls.flatten.length < 2 ^ 16) :
    Table (fsm.appendAll calls) ∧ Preserved fsm (fsm.appendAll calls) := by
  induction calls generalizing fsm with
  | nil => exact ⟨htable, preserved_refl fsm⟩
  | cons bytes calls ih =>
      rw [List.flatten_cons, List.length_append] at hshort
      obtain ⟨hnext, hkept⟩ := @Table.append fsm htable bytes (by omega)
      have hgrown := mLen_append_le bytes fsm
      obtain ⟨hlast, hrest⟩ := ih hnext (by omega)
      exact ⟨hlast, hkept.trans hrest⟩

theorem mLen_appendAll_le (calls : List Bytes) (fsm : HttpFSM) :
    (fsm.appendAll calls).mLen ≤ fsm.mLen + calls.flatten.length := by
  induction calls generalizing fsm with
  | nil => exact Nat.le_refl _
  | cons bytes calls ih =>
      rw [List.flatten_cons, List.length_append]
      have hgrown := mLen_append_le bytes fsm
      have hrest := ih (fsm.append bytes)
      change ((fsm.append bytes).appendAll calls).mLen ≤ _
      omega

theorem Table.handedAll (htable : Table fsm) {calls : List Bytes}
    (hshort : fsm.mLen + calls.flatten.length < 2 ^ 16) {stored : HttpFSM}
    (hstored : stored ∈ fsm.handedAll calls) :
    Table stored ∧ Table stored.recv ∧
      Preserved stored.recv (fsm.appendAll calls) := by
  induction calls generalizing fsm with
  | nil => exact absurd hstored List.not_mem_nil
  | cons bytes calls ih =>
      rw [List.flatten_cons, List.length_append] at hshort
      have hnext := (@Table.append fsm htable bytes (by omega)).1
      have hgrown := mLen_append_le bytes fsm
      rcases List.mem_append.mp hstored with hhere | hlater
      · obtain ⟨hgood, hafter, hkept⟩ := htable.handed (by omega) hhere
        have hrest := (@Table.appendAll _ hnext calls (by omega)).2
        exact ⟨hgood, hafter, hkept.trans hrest⟩
      · have hrest := ih hnext (by omega) hlater
        exact hrest

/-- For every stream of fewer than 65536 bytes, however it is cut into calls,
the table is good after each byte and what stands in it is kept by all later
ones, and the empty line finds an entry. -/
theorem header_table (chunkSize : ℕ) (memory : ℕ → UInt8) (fsm : HttpFSM)
    {calls : List Bytes} (hshort : calls.flatten.length < 2 ^ 16) :
    Tabled ((fsm.reset chunkSize memory).appendAll calls) ∧
      (∀ stored ∈ (fsm.reset chunkSize memory).handedAll calls,
        Tabled stored.recv ∧
          Preserved stored.recv
            ((fsm.reset chunkSize memory).appendAll calls) ∧
          (stored.AtHeaderEnd → stored.headers ≠ [])) ∧
      ∀ read rest, calls = read ++ rest →
        Preserved ((fsm.reset chunkSize memory).appendAll read)
          ((fsm.reset chunkSize memory).appendAll calls) := by
  have htable := table_reset chunkSize memory fsm
  have hlen : (fsm.reset chunkSize memory).mLen = 0 := rfl
  refine ⟨(htable.appendAll (by omega)).1.toTabled, ?_, ?_⟩
  · intro stored hstored
    obtain ⟨hgood, hnext, hkept⟩ := htable.handedAll (by omega) hstored
    exact ⟨hnext.toTabled, hkept, hgood.headers_ne_nil⟩
  · rintro read rest rfl
    rw [List.flatten_append, List.length_append] at hshort
    have hread := htable.appendAll
      (show _ + read.flatten.length < 2 ^ 16 by omega)
    rw [appendAll_append]
    have hgrown := mLen_appendAll_le read (fsm.reset chunkSize memory)
    exact (hread.1.appendAll (by omega)).2

end Streams

/-- A chunked request with a trailer. -/
private def trailed : List Bytes :=
  [ascii "GET / HTTP/1.1\r\nTransfer-Encoding: chunked\r\n\r\n",
    ascii "1\r\na\r\n0\r\n", ascii "b: c\r\n\r\n"]

theorem header_table_trailed :
    Tabled ((blank.reset 512 fun _ => 0).appendAll trailed) ∧
      (∀ stored ∈ (blank.reset 512 fun _ => 0).handedAll trailed,
        Tabled stored.recv ∧
          Preserved stored.recv
            ((blank.reset 512 fun _ => 0).appendAll trailed) ∧
          (stored.AtHeaderEnd → stored.headers ≠ [])) ∧
      ∀ read rest, trailed = read ++ rest →
        Preserved ((blank.reset 512 fun _ => 0).appendAll read)
          ((blank.reset 512 fun _ => 0).appendAll trailed) :=
  header_table 512 _ blank (by decide)

end HttpFSM

end GrpcMtk.Http
