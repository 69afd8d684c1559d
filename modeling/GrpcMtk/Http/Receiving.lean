import GrpcMtk.Http.HttpFSM

/-!
# The receiving functions

`append` hands each byte that it has stored to the receiving function of the
state.  What these functions can do is said once, as a relation, and what they
leave as it is follows from it case by case.
-/

namespace GrpcMtk.Http

open GrpcMtk.Proto

namespace HttpFSM

section Terminate

variable (nlf : ℕ) (fsm : HttpFSM)

theorem terminate_eq : ∃ mP, fsm.terminate nlf = { fsm with mP } := by
  induction nlf generalizing fsm with
  | zero => exact ⟨fsm.mP, rfl⟩
  | succ nlf ih => exact ih _

@[simp]
theorem terminate_state : (fsm.terminate nlf).state = fsm.state := by
  obtain ⟨mP, heq⟩ := terminate_eq nlf fsm
  rw [heq]

@[simp]
theorem terminate_headers : (fsm.terminate nlf).headers = fsm.headers := by
  obtain ⟨mP, heq⟩ := terminate_eq nlf fsm
  rw [heq]

@[simp]
theorem terminate_mLen : (fsm.terminate nlf).mLen = fsm.mLen := by
  obtain ⟨mP, heq⟩ := terminate_eq nlf fsm
  rw [heq]

@[simp]
theorem terminate_mBuf : (fsm.terminate nlf).mBuf = fsm.mBuf := by
  obtain ⟨mP, heq⟩ := terminate_eq nlf fsm
  rw [heq]

@[simp]
theorem terminate_mMax : (fsm.terminate nlf).mMax = fsm.mMax := by
  obtain ⟨mP, heq⟩ := terminate_eq nlf fsm
  rw [heq]

@[simp]
theorem terminate_allocated :
    (fsm.terminate nlf).allocated = fsm.allocated := by
  obtain ⟨mP, heq⟩ := terminate_eq nlf fsm
  rw [heq]

@[simp]
theorem terminate_bd : (fsm.terminate nlf).bd = fsm.bd := by
  obtain ⟨mP, heq⟩ := terminate_eq nlf fsm
  rw [heq]

@[simp]
theorem terminate_bl : (fsm.terminate nlf).bl = fsm.bl := by
  obtain ⟨mP, heq⟩ := terminate_eq nlf fsm
  rw [heq]

end Terminate

theorem recvLf_le (fsm : HttpFSM) : fsm.recvLf ≤ fsm.mLen := by
  unfold recvLf
  split
  · omega
  · split <;> omega

/-- The states a receiving function returns. -/
def successors : State → List State
  | .recvHeader => [.recvHeader, .recvBodyNochunk, .recvBodylen,
      .websocketEstablish, .recvFinish, .error]
  | .recvBody => [.recvBody, .recvBodylen, .error]
  | .recvBodyNochunk => [.recvBodyNochunk, .recvFinish, .error]
  | .recvBodylen => [.recvBodylen, .recvBody, .recvComment, .recvFooter,
      .error]
  | .recvFooter => [.recvFooter, .recvFinish, .error]
  | .recvComment => [.recvComment, .recvBody]
  | state => [state]

theorem mem_successors (state : State) : state ∈ successors state := by
  cases state <;> decide

/-! ## What they can do -/

/-- How many of the last bytes are no part of a size, and the state behind
it. -/
inductive SizeEnd (fsm : HttpFSM) : ℕ → State → Prop where
  | line (hlf : fsm.recvLf ≠ 0) : SizeEnd fsm fsm.recvLf .recvBody
  | extension (hlf : fsm.recvLf = 0)
      (hsemicolon : fsm.mP fsm.mLen = semicolon) :
      SizeEnd fsm 1 .recvComment

theorem SizeEnd.cases {fsm : HttpFSM} {nlf : ℕ} {next : State}
    (hends : SizeEnd fsm nlf next) : nlf = fsm.recvLf ∨ nlf = 1 := by
  cases hends with
  | line => exact .inl rfl
  | extension => exact .inr rfl

/-- What the receiving function of a state can do. -/
inductive Moves (fsm : HttpFSM) : State → HttpFSM → Prop where
  | waits {state : State} : Moves fsm state fsm
  | halts {state next : State} (hnext : next ∈ successors state)
      (hhalts : next = .error ∨ next = .recvFinish) :
      Moves fsm state { fsm with state := next }
  /-- It halts at a line end or a `;`. -/
  | haltsBehind {state next : State} {nlf : ℕ}
      (hnext : next ∈ successors state)
      (hhalts : next = .error ∨ next = .recvFinish)
      (hline : state = .recvHeader ∨ state = .recvBodylen ∨
        state = .recvFooter)
      (hnlf : nlf = fsm.recvLf ∨ nlf = 1) :
      Moves fsm state { fsm.terminate nlf with state := next }
  | endsHeader (hlf : fsm.recvLf ≠ 0)
      (hempty : fsm.mLen - fsm.recvLf = fsm.mBuf) :
      Moves fsm .recvHeader (fsm.terminate fsm.recvLf).endHeader
  | filesHeader (hlf : fsm.recvLf ≠ 0)
      (hcount : fsm.headers.length < maxHeader) :
      Moves fsm .recvHeader
        ((fsm.terminate fsm.recvLf).addHeader fsm.recvLf)
  | filesTrailer (hlf : fsm.recvLf ≠ 0)
      (hcount : fsm.headers.length < maxHeader) :
      Moves fsm .recvFooter
        ({ fsm.terminate fsm.recvLf with
          mP := Function.update (fsm.terminate fsm.recvLf).mP
            (fsm.terminate fsm.recvLf).mLen 0 }.addHeader fsm.recvLf)
  | endsChunk (hlf : fsm.recvLf ≠ 0)
      (hend : fsm.bd.getD 0 + fsm.bl + fsm.recvLf = fsm.mLen) :
      Moves fsm .recvBody
        { fsm with
          mLen := fsm.mLen - fsm.recvLf
          mBuf := fsm.mLen - fsm.recvLf
          state := .recvBodylen }
  /-- It goes back to the start of the size. -/
  | sizes {nlf : ℕ} {next : State} (hends : SizeEnd fsm nlf next) (cl : ℤ) :
      Moves fsm .recvBodylen
        { fsm.terminate nlf with
          bl := toUInt32 ((fsm.terminate nlf).bl + cl)
          mLen := (fsm.terminate nlf).mLen -
            ((fsm.terminate nlf).mLen - (fsm.terminate nlf).mBuf)
          state := next }
  | lastSize {nlf : ℕ} {next : State} (hends : SizeEnd fsm nlf next) :
      Moves fsm .recvBodylen
        { fsm.terminate nlf with
          mBuf := (fsm.terminate nlf).mLen
          state := .recvFooter }
  | endsComment (hlf : fsm.recvLf ≠ 0) :
      Moves fsm .recvComment
        { fsm with
          mLen := fsm.mLen - (fsm.mLen - fsm.mBuf)
          state := .recvBody }

section Moves

variable {fsm next : HttpFSM} {state : State}

theorem moves_recvHeader (fsm : HttpFSM) :
    Moves fsm .recvHeader fsm.recvHeader := by
  rw [recvHeader]
  split
  case isTrue => exact .waits
  case isFalse hlf =>
    dsimp only
    split
    case isTrue hempty =>
      rw [terminate_mLen, terminate_mBuf] at hempty
      exact .endsHeader hlf hempty
    case isFalse =>
      split
      case isTrue hcount =>
        rw [terminate_headers] at hcount
        exact .filesHeader hlf hcount
      case isFalse =>
        exact .haltsBehind (by decide) (.inl rfl) (.inl rfl) (.inl rfl)

theorem moves_recvBody (fsm : HttpFSM) : Moves fsm .recvBody fsm.recvBody := by
  have hends := recvLf_le fsm
  rw [recvBody]
  split
  case isTrue => exact .waits
  case isFalse hlf =>
    dsimp only
    split
    case isTrue => exact .waits
    case isFalse =>
      split
      case isTrue => exact .halts (by decide) (.inl rfl)
      case isFalse => exact .endsChunk hlf (by omega)

theorem moves_recvBodyNochunk (fsm : HttpFSM) :
    Moves fsm .recvBodyNochunk fsm.recvBodyNochunk := by
  rw [recvBodyNochunk]
  split
  case isTrue => exact .waits
  case isFalse =>
    split
    case isTrue => exact .halts (by decide) (.inl rfl)
    case isFalse => exact .halts (by decide) (.inr rfl)

theorem moves_takeSize {nlf : ℕ} {next : State}
    (hends : SizeEnd fsm nlf next) :
    Moves fsm .recvBodylen (fsm.takeSize nlf next) := by
  rw [takeSize]
  split
  case h_1 =>
    exact .haltsBehind (by decide) (.inl rfl) (.inr (.inl rfl)) hends.cases
  case h_2 cl _ =>
    split
    case isTrue => exact .lastSize hends
    case isFalse => exact .sizes hends cl

theorem moves_recvBodylen (fsm : HttpFSM) :
    Moves fsm .recvBodylen fsm.recvBodylen := by
  rw [recvBodylen]
  split
  case isTrue hlf => exact moves_takeSize (.line hlf)
  case isFalse hlf =>
    split
    case isTrue hsemicolon =>
      exact moves_takeSize (.extension (not_not.mp hlf) hsemicolon)
    case isFalse => exact .waits

theorem moves_recvFooter (fsm : HttpFSM) :
    Moves fsm .recvFooter fsm.recvFooter := by
  rw [recvFooter]
  split
  case isTrue => exact .waits
  case isFalse hlf =>
    dsimp only
    split
    case isTrue =>
      exact .haltsBehind (by decide) (.inr rfl) (.inr (.inr rfl)) (.inl rfl)
    case isFalse =>
      split
      case isTrue hcount =>
        rw [terminate_headers] at hcount
        exact .filesTrailer hlf hcount
      case isFalse =>
        exact .haltsBehind (by decide) (.inl rfl) (.inr (.inr rfl)) (.inl rfl)

theorem moves_recvComment (fsm : HttpFSM) :
    Moves fsm .recvComment fsm.recvComment := by
  rw [recvComment]
  split
  case isTrue => exact .waits
  case isFalse hlf => exact .endsComment hlf

theorem moves_recv (fsm : HttpFSM) : Moves fsm fsm.state fsm.recv := by
  rw [recv]
  cases fsm.state with
  | recvHeader => exact moves_recvHeader fsm
  | recvBody => exact moves_recvBody fsm
  | recvBodyNochunk => exact moves_recvBodyNochunk fsm
  | recvBodylen => exact moves_recvBodylen fsm
  | recvFooter => exact moves_recvFooter fsm
  | recvComment => exact moves_recvComment fsm
  | _ => exact .waits

end Moves

/-! ## What they do to the buffer -/

/-- The parser neither reallocates the buffer nor extends its content, and it
keeps `m_buf` inside the content. -/
structure Received (fsm next : HttpFSM) : Prop where
  mMax : next.mMax = fsm.mMax
  allocated : next.allocated = fsm.allocated
  mLen : next.mLen ≤ fsm.mLen
  mBuf : fsm.mBuf ≤ fsm.mLen → next.mBuf ≤ next.mLen

theorem Received.of_eq {fsm next : HttpFSM} (hmax : next.mMax = fsm.mMax)
    (hallocated : next.allocated = fsm.allocated)
    (hlen : next.mLen = fsm.mLen) (hbuf : next.mBuf = fsm.mBuf) :
    Received fsm next where
  mMax := hmax
  allocated := hallocated
  mLen := Nat.le_of_eq hlen
  mBuf hle := by rwa [hbuf, hlen]

theorem Received.trans {fsm middle next : HttpFSM}
    (hleft : Received fsm middle) (hright : Received middle next) :
    Received fsm next where
  mMax := hright.mMax.trans hleft.mMax
  allocated := hright.allocated.trans hleft.allocated
  mLen := Nat.le_trans hright.mLen hleft.mLen
  mBuf hle := hright.mBuf (hleft.mBuf hle)

theorem received_refl (fsm : HttpFSM) : Received fsm fsm :=
  .of_eq rfl rfl rfl rfl

theorem received_terminate (nlf : ℕ) (fsm : HttpFSM) :
    Received fsm (fsm.terminate nlf) :=
  .of_eq (by simp) (by simp) (by simp) (by simp)

theorem received_addHeader (nlf : ℕ) (fsm : HttpFSM) :
    Received fsm (fsm.addHeader nlf) where
  mMax := rfl
  allocated := rfl
  mLen := le_rfl
  mBuf _ := le_rfl

theorem received_endHeader (fsm : HttpFSM) : Received fsm fsm.endHeader := by
  have hresult : Received fsm fsm.setResult := .of_eq rfl rfl rfl rfl
  refine hresult.trans ?_
  unfold endHeader
  dsimp only
  split
  · exact .of_eq rfl rfl rfl rfl
  · split
    · exact ⟨rfl, rfl, le_rfl, fun _ => le_rfl⟩
    · split
      · exact .of_eq rfl rfl rfl rfl
      · split <;> exact .of_eq rfl rfl rfl rfl

/-- Going back to `m_buf` keeps it inside the content. -/
theorem received_goBack {fsm next : HttpFSM} (hmax : next.mMax = fsm.mMax)
    (hallocated : next.allocated = fsm.allocated)
    (hlen : next.mLen = fsm.mLen - (fsm.mLen - fsm.mBuf))
    (hbuf : next.mBuf = fsm.mBuf) : Received fsm next where
  mMax := hmax
  allocated := hallocated
  mLen := by omega
  mBuf hle := by omega

theorem Moves.received {fsm next : HttpFSM} {state : State}
    (hmoves : Moves fsm state next) : Received fsm next := by
  cases hmoves with
  | waits => exact received_refl fsm
  | halts => exact .of_eq rfl rfl rfl rfl
  | haltsBehind =>
      exact (received_terminate _ _).trans (.of_eq rfl rfl rfl rfl)
  | endsHeader =>
      exact (received_terminate _ _).trans (received_endHeader _)
  | filesHeader =>
      exact (received_terminate _ _).trans (received_addHeader _ _)
  | filesTrailer =>
      exact (received_terminate _ _).trans ⟨rfl, rfl, le_rfl, fun _ => le_rfl⟩
  | endsChunk => exact ⟨rfl, rfl, Nat.sub_le _ _, fun _ => le_rfl⟩
  | sizes =>
      exact (received_terminate _ _).trans (received_goBack rfl rfl rfl rfl)
  | lastSize =>
      exact (received_terminate _ _).trans ⟨rfl, rfl, le_rfl, fun _ => le_rfl⟩
  | endsComment => exact received_goBack rfl rfl rfl rfl

theorem received_recv (fsm : HttpFSM) : Received fsm fsm.recv :=
  (moves_recv fsm).received

/-! ## What follows a state -/

theorem endHeader_eq (fsm : HttpFSM) : ∃ version res mBuf bd bl state,
    fsm.endHeader = { fsm with version, res, mBuf, bd, bl, state } := by
  rw [endHeader]
  split
  · exact ⟨_, _, _, _, _, _, rfl⟩
  · split
    · exact ⟨_, _, _, _, _, _, rfl⟩
    · split
      · exact ⟨_, _, _, _, _, _, rfl⟩
      · split <;> exact ⟨_, _, _, _, _, _, rfl⟩

theorem endHeader_state (fsm : HttpFSM) :
    fsm.endHeader.state ∈ successors .recvHeader := by
  rw [endHeader]
  split
  · exact (by decide : State.recvBodyNochunk ∈ successors .recvHeader)
  · split
    · exact (by decide : State.recvBodylen ∈ successors .recvHeader)
    · split
      · exact (by decide : State.websocketEstablish ∈ successors .recvHeader)
      · split
        · exact (by decide : State.error ∈ successors .recvHeader)
        · exact (by decide : State.recvFinish ∈ successors .recvHeader)

theorem Moves.state_mem {fsm next : HttpFSM} {state : State}
    (hmoves : Moves fsm state next) (hstate : fsm.state = state) :
    next.state ∈ successors state := by
  cases hmoves with
  | waits => exact hstate ▸ mem_successors fsm.state
  | halts hnext => exact hnext
  | haltsBehind hnext => exact hnext
  | endsHeader => exact endHeader_state _
  | filesHeader =>
      rw [addHeader, terminate_state, hstate]
      decide
  | filesTrailer =>
      rw [addHeader, terminate_state, hstate]
      decide
  | endsChunk => simp [successors]
  | sizes hends => cases hends <;> simp [successors]
  | lastSize => simp [successors]
  | endsComment => simp [successors]

theorem recv_state (fsm : HttpFSM) : fsm.recv.state ∈ successors fsm.state :=
  (moves_recv fsm).state_mem rfl

end HttpFSM

end GrpcMtk.Http
