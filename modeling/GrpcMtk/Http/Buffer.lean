import GrpcMtk.Http.Receiving

/-!
# The receive buffer

`append` reallocates the buffer when `m_len` reaches the limit, but changes
neither `m_max` nor the limit.  The buffer is therefore never larger than twice
the limit, and a stream that goes on is written beyond its end.  This module
states where `append` writes and when these places are inside the buffer.
-/

namespace GrpcMtk.Http

open GrpcMtk.Proto

namespace HttpFSM

/-- The states in which `append` stores a byte of the call. -/
def stores : Bytes → HttpFSM → List HttpFSM
  | [], _ => []
  | byte :: rest, fsm =>
      match fsm.state with
      | .error | .recvFinish => []
      | .websocketEstablish => [fsm]
      | _ => fsm :: stores rest (fsm.store byte).recv

/-- The states in which a list of `append` calls stores a byte. -/
def storesAll : List Bytes → HttpFSM → List HttpFSM
  | [], _ => []
  | bytes :: calls, fsm =>
      fsm.stores bytes ++ storesAll calls (fsm.append bytes)

/-- Both places `append` writes to are inside the buffer. -/
def InBounds (fsm : HttpFSM) : Prop :=
  fsm.mLen < fsm.expand.allocated ∧
    (fsm.mLen + 1) % 2 ^ 32 < fsm.expand.allocated

instance (fsm : HttpFSM) : Decidable fsm.InBounds :=
  inferInstanceAs (Decidable (_ ∧ _))

/-- The received bytes and their NUL fit into the buffer as `reset` allocates
it, or into the one `append` reallocates. -/
def Fits (chunkSize : ℕ) (fsm : HttpFSM) : Prop :=
  fsm.mLen + 1 < chunkSize ∨ fsm.mLen + 1 < 2 * (chunkSize - 1) % 2 ^ 32

instance (chunkSize : ℕ) (fsm : HttpFSM) : Decidable (fsm.Fits chunkSize) :=
  inferInstanceAs (Decidable (_ ∨ _))

/-! ## The three kinds of states -/

/-- `append` takes no more bytes. -/
def Halted (fsm : HttpFSM) : Prop :=
  fsm.state = .error ∨ fsm.state = .recvFinish

/-- `append` hands each byte to a receiving function. -/
def Receiving (fsm : HttpFSM) : Prop :=
  fsm.state ≠ .error ∧ fsm.state ≠ .recvFinish ∧
    fsm.state ≠ .websocketEstablish

theorem state_cases (fsm : HttpFSM) :
    fsm.Halted ∨ fsm.state = .websocketEstablish ∨ fsm.Receiving := by
  unfold Halted Receiving
  cases fsm.state <;> simp

section Kinds

variable {fsm : HttpFSM}

theorem append_of_halted (hhalted : fsm.Halted) (bytes : Bytes) :
    fsm.append bytes = fsm := by
  cases bytes with
  | nil => rfl
  | cons byte rest => rcases hhalted with h | h <;> simp only [append, h]

theorem stores_of_halted (hhalted : fsm.Halted) (bytes : Bytes) :
    fsm.stores bytes = [] := by
  cases bytes with
  | nil => rfl
  | cons byte rest => rcases hhalted with h | h <;> simp only [stores, h]

theorem append_cons_of_established (hstate : fsm.state = .websocketEstablish)
    (byte : UInt8) (rest : Bytes) :
    fsm.append (byte :: rest) = fsm.store byte := by
  simp only [append, hstate]

theorem stores_cons_of_established (hstate : fsm.state = .websocketEstablish)
    (byte : UInt8) (rest : Bytes) : fsm.stores (byte :: rest) = [fsm] := by
  simp only [stores, hstate]

theorem append_cons (hreceiving : fsm.Receiving) (byte : UInt8)
    (rest : Bytes) :
    fsm.append (byte :: rest) = (fsm.store byte).recv.append rest := by
  obtain ⟨herror, hfinish, hestablish⟩ := hreceiving
  rw [append]
  split
  · contradiction
  · contradiction
  · contradiction
  · rfl

theorem stores_cons (hreceiving : fsm.Receiving) (byte : UInt8)
    (rest : Bytes) :
    fsm.stores (byte :: rest) = fsm :: (fsm.store byte).recv.stores rest := by
  obtain ⟨herror, hfinish, hestablish⟩ := hreceiving
  rw [stores]
  split
  · contradiction
  · contradiction
  · contradiction
  · rfl

end Kinds

/-! ## Storing a byte -/

section Expand

variable (fsm : HttpFSM)

theorem expand_eq : ∃ allocated, fsm.expand = { fsm with allocated } := by
  unfold expand
  split
  · exact ⟨_, rfl⟩
  · exact ⟨fsm.allocated, rfl⟩

@[simp]
theorem expand_state : fsm.expand.state = fsm.state := by
  obtain ⟨allocated, heq⟩ := expand_eq fsm
  rw [heq]

@[simp]
theorem expand_headers : fsm.expand.headers = fsm.headers := by
  obtain ⟨allocated, heq⟩ := expand_eq fsm
  rw [heq]

@[simp]
theorem expand_mP : fsm.expand.mP = fsm.mP := by
  obtain ⟨allocated, heq⟩ := expand_eq fsm
  rw [heq]

@[simp]
theorem expand_mLen : fsm.expand.mLen = fsm.mLen := by
  obtain ⟨allocated, heq⟩ := expand_eq fsm
  rw [heq]

@[simp]
theorem expand_mBuf : fsm.expand.mBuf = fsm.mBuf := by
  obtain ⟨allocated, heq⟩ := expand_eq fsm
  rw [heq]

@[simp]
theorem expand_mMax : fsm.expand.mMax = fsm.mMax := by
  obtain ⟨allocated, heq⟩ := expand_eq fsm
  rw [heq]

@[simp]
theorem expand_bd : fsm.expand.bd = fsm.bd := by
  obtain ⟨allocated, heq⟩ := expand_eq fsm
  rw [heq]

@[simp]
theorem expand_bl : fsm.expand.bl = fsm.bl := by
  obtain ⟨allocated, heq⟩ := expand_eq fsm
  rw [heq]

end Expand

section Store

variable (byte : UInt8) (fsm : HttpFSM)

theorem store_eq : ∃ mP mLen allocated,
    mLen = (fsm.mLen + 1) % 2 ^ 32 ∧ allocated = fsm.expand.allocated ∧
      fsm.store byte = { fsm with mP, mLen, allocated } := by
  obtain ⟨allocated, hexpand⟩ := expand_eq fsm
  unfold store
  rw [hexpand]
  exact ⟨_, _, allocated, rfl, rfl, rfl⟩

@[simp]
theorem store_state : (fsm.store byte).state = fsm.state := by
  obtain ⟨mP, mLen, allocated, hlen, hallocated, heq⟩ := store_eq byte fsm
  rw [heq]

@[simp]
theorem store_headers : (fsm.store byte).headers = fsm.headers := by
  obtain ⟨mP, mLen, allocated, hlen, hallocated, heq⟩ := store_eq byte fsm
  rw [heq]

@[simp]
theorem store_mLen : (fsm.store byte).mLen = (fsm.mLen + 1) % 2 ^ 32 := by
  obtain ⟨mP, mLen, allocated, hlen, hallocated, heq⟩ := store_eq byte fsm
  rw [heq]
  exact hlen

@[simp]
theorem store_mBuf : (fsm.store byte).mBuf = fsm.mBuf := by
  obtain ⟨mP, mLen, allocated, hlen, hallocated, heq⟩ := store_eq byte fsm
  rw [heq]

@[simp]
theorem store_mMax : (fsm.store byte).mMax = fsm.mMax := by
  obtain ⟨mP, mLen, allocated, hlen, hallocated, heq⟩ := store_eq byte fsm
  rw [heq]

@[simp]
theorem store_allocated :
    (fsm.store byte).allocated = fsm.expand.allocated := by
  obtain ⟨mP, mLen, allocated, hlen, hallocated, heq⟩ := store_eq byte fsm
  rw [heq]
  exact hallocated

theorem store_mP :
    (fsm.store byte).mP =
      Function.update (Function.update fsm.mP fsm.mLen byte)
        ((fsm.mLen + 1) % 2 ^ 32) 0 := by
  obtain ⟨allocated, hexpand⟩ := expand_eq fsm
  unfold store
  rw [hexpand]
  rfl

@[simp]
theorem store_version : (fsm.store byte).version = fsm.version := by
  obtain ⟨mP, mLen, allocated, hlen, hallocated, heq⟩ := store_eq byte fsm
  rw [heq]

@[simp]
theorem store_res : (fsm.store byte).res = fsm.res := by
  obtain ⟨mP, mLen, allocated, hlen, hallocated, heq⟩ := store_eq byte fsm
  rw [heq]

@[simp]
theorem store_bd : (fsm.store byte).bd = fsm.bd := by
  obtain ⟨mP, mLen, allocated, hlen, hallocated, heq⟩ := store_eq byte fsm
  rw [heq]

@[simp]
theorem store_bl : (fsm.store byte).bl = fsm.bl := by
  obtain ⟨mP, mLen, allocated, hlen, hallocated, heq⟩ := store_eq byte fsm
  rw [heq]

end Store

/-- The buffer has one of the two sizes it can have. -/
structure Bounded (chunkSize : ℕ) (fsm : HttpFSM) : Prop where
  mMax : fsm.mMax = chunkSize
  mBuf : fsm.mBuf ≤ fsm.mLen
  allocated : fsm.allocated = chunkSize ∨
    fsm.allocated = 2 * (chunkSize - 1) % 2 ^ 32 ∧ chunkSize ≤ fsm.allocated

theorem Bounded.received {chunkSize : ℕ} {fsm next : HttpFSM}
    (hbounded : Bounded chunkSize fsm) (hreceived : Received fsm next) :
    Bounded chunkSize next where
  mMax := hreceived.mMax.trans hbounded.mMax
  mBuf := hreceived.mBuf hbounded.mBuf
  allocated := hreceived.allocated ▸ hbounded.allocated

theorem bounded_reset (chunkSize : ℕ) (memory : ℕ → UInt8) (fsm : HttpFSM) :
    Bounded chunkSize (fsm.reset chunkSize memory) where
  mMax := rfl
  mBuf := le_rfl
  allocated := .inl rfl

section Storing

variable {chunkSize : ℕ} {fsm : HttpFSM}

theorem limit_eq (hmax : fsm.mMax = chunkSize) (hpos : 0 < chunkSize)
    (hhigh : chunkSize < 2 ^ 32) : fsm.limit = chunkSize - 1 := by
  unfold limit
  omega

theorem expand_allocated (hmax : fsm.mMax = chunkSize) (hpos : 0 < chunkSize)
    (hhigh : chunkSize < 2 ^ 32) :
    fsm.expand.allocated =
      if fsm.mLen + 1 < chunkSize then fsm.allocated
      else 2 * (chunkSize - 1) % 2 ^ 32 := by
  have hlimit := limit_eq hmax hpos hhigh
  unfold expand
  split
  case isTrue hfull =>
    rw [if_neg (by omega), hlimit, Nat.mul_comm]
  case isFalse hroom => rw [if_pos (by omega)]

variable (hlow : 2 ≤ chunkSize) (hhigh : chunkSize < 2 ^ 32)

include hlow hhigh

theorem Bounded.inBounds_iff (hbounded : Bounded chunkSize fsm) :
    fsm.InBounds ↔ fsm.Fits chunkSize := by
  have hallocated := hbounded.allocated
  have hmod : 2 * (chunkSize - 1) % 2 ^ 32 < 2 ^ 32 :=
    Nat.mod_lt _ (by decide)
  unfold InBounds Fits
  rw [expand_allocated hbounded.mMax (by omega) hhigh]
  split
  case isTrue hroom =>
    have hnul : (fsm.mLen + 1) % 2 ^ 32 = fsm.mLen + 1 :=
      Nat.mod_eq_of_lt (by omega)
    rw [hnul]
    omega
  case isFalse hfull =>
    constructor
    · rintro ⟨hlen, hnul⟩
      rw [@Nat.mod_eq_of_lt (fsm.mLen + 1) (2 ^ 32) (by omega)] at hnul
      exact .inr hnul
    · intro hfits
      have hgrown := hfits.resolve_left hfull
      rw [@Nat.mod_eq_of_lt (fsm.mLen + 1) (2 ^ 32) (by omega)]
      exact ⟨Nat.lt_of_succ_lt hgrown, hgrown⟩

theorem Bounded.store (hbounded : Bounded chunkSize fsm)
    (hfits : fsm.Fits chunkSize) (byte : UInt8) :
    Bounded chunkSize (fsm.store byte) := by
  have hmod : 2 * (chunkSize - 1) % 2 ^ 32 < 2 ^ 32 :=
    Nat.mod_lt _ (by decide)
  have hsmall : fsm.mLen + 1 < 2 ^ 32 := by
    rcases hfits with hroom | hgrown <;> omega
  have hexpand := expand_allocated hbounded.mMax (by omega) hhigh
  refine ⟨(store_mMax byte fsm).trans hbounded.mMax, ?_, ?_⟩
  · rw [store_mBuf, store_mLen, Nat.mod_eq_of_lt hsmall]
    exact Nat.le_succ_of_le hbounded.mBuf
  · rw [store_allocated, hexpand]
    split
    · exact hbounded.allocated
    case isFalse hfull =>
      have hgrown := hfits.resolve_left hfull
      exact .inr ⟨rfl, by omega⟩

/-- Along one call the places are inside the buffer if and only if the bytes
fit. -/
theorem Bounded.stores_inBounds_iff (hbounded : Bounded chunkSize fsm)
    (bytes : Bytes) :
    (∀ stored ∈ fsm.stores bytes, stored.InBounds) ↔
      ∀ stored ∈ fsm.stores bytes, stored.Fits chunkSize := by
  induction bytes generalizing fsm with
  | nil => simp [stores]
  | cons byte rest ih =>
      have hhere := hbounded.inBounds_iff hlow hhigh
      rcases state_cases fsm with hhalted | hestablished | hreceiving
      · simp [stores_of_halted hhalted]
      · simpa [stores_cons_of_established hestablished] using hhere
      · rw [stores_cons hreceiving, List.forall_mem_cons,
          List.forall_mem_cons, hhere]
        refine and_congr_right fun hfits => ih ?_
        exact (hbounded.store hlow hhigh hfits byte).received (received_recv _)

theorem Bounded.append (hbounded : Bounded chunkSize fsm) {bytes : Bytes}
    (hfits : ∀ stored ∈ fsm.stores bytes, stored.Fits chunkSize) :
    Bounded chunkSize (fsm.append bytes) := by
  induction bytes generalizing fsm with
  | nil => exact hbounded
  | cons byte rest ih =>
      rcases state_cases fsm with hhalted | hestablished | hreceiving
      · rw [append_of_halted hhalted]
        exact hbounded
      · rw [append_cons_of_established hestablished]
        rw [stores_cons_of_established hestablished] at hfits
        exact hbounded.store hlow hhigh (hfits fsm List.mem_cons_self) byte
      · rw [append_cons hreceiving]
        rw [stores_cons hreceiving, List.forall_mem_cons] at hfits
        exact ih ((hbounded.store hlow hhigh hfits.1 byte).received
          (received_recv _)) hfits.2

/-- The same along a list of calls. -/
theorem Bounded.storesAll_inBounds_iff (hbounded : Bounded chunkSize fsm)
    (calls : List Bytes) :
    (∀ stored ∈ fsm.storesAll calls, stored.InBounds) ↔
      ∀ stored ∈ fsm.storesAll calls, stored.Fits chunkSize := by
  induction calls generalizing fsm with
  | nil => simp [storesAll]
  | cons bytes calls ih =>
      unfold storesAll
      rw [List.forall_mem_append, List.forall_mem_append,
        hbounded.stores_inBounds_iff hlow hhigh]
      exact and_congr_right fun hfits =>
        ih (hbounded.append hlow hhigh hfits)

end Storing

/-! ## Streams -/

theorem mLen_store_recv_le (byte : UInt8) (fsm : HttpFSM) :
    (fsm.store byte).recv.mLen ≤ fsm.mLen + 1 := by
  have hstored := (received_recv (fsm.store byte)).mLen
  rw [store_mLen] at hstored
  exact Nat.le_trans hstored (Nat.mod_le _ _)

theorem mLen_append_le (bytes : Bytes) (fsm : HttpFSM) :
    (fsm.append bytes).mLen ≤ fsm.mLen + bytes.length := by
  induction bytes generalizing fsm with
  | nil => exact Nat.le_refl _
  | cons byte rest ih =>
      rw [List.length_cons]
      rcases state_cases fsm with hhalted | hestablished | hreceiving
      · rw [append_of_halted hhalted]
        omega
      · rw [append_cons_of_established hestablished, store_mLen]
        have hmod := Nat.mod_le (fsm.mLen + 1) (2 ^ 32)
        omega
      · rw [append_cons hreceiving]
        have hhere := mLen_store_recv_le byte fsm
        have hrest := ih (fsm.store byte).recv
        omega

theorem mLen_of_mem_stores {fsm stored : HttpFSM} {bytes : Bytes}
    (hstored : stored ∈ fsm.stores bytes) :
    stored.mLen < fsm.mLen + bytes.length := by
  induction bytes generalizing fsm with
  | nil => simp [stores] at hstored
  | cons byte rest ih =>
      rw [List.length_cons]
      rcases state_cases fsm with hhalted | hestablished | hreceiving
      · simp [stores_of_halted hhalted] at hstored
      · rw [stores_cons_of_established hestablished,
          List.mem_singleton] at hstored
        rw [hstored]
        omega
      · rw [stores_cons hreceiving, List.mem_cons] at hstored
        rcases hstored with rfl | hlater
        · omega
        · have hhere := mLen_store_recv_le byte fsm
          have hrest := ih hlater
          omega

theorem mLen_of_mem_storesAll {fsm stored : HttpFSM} {calls : List Bytes}
    (hstored : stored ∈ fsm.storesAll calls) :
    stored.mLen < fsm.mLen + calls.flatten.length := by
  induction calls generalizing fsm with
  | nil => simp [storesAll] at hstored
  | cons bytes calls ih =>
      rw [List.flatten_cons, List.length_append]
      rw [storesAll, List.mem_append] at hstored
      rcases hstored with hhere | hlater
      · have hlen := mLen_of_mem_stores hhere
        omega
      · have happend := mLen_append_le bytes fsm
        have hrest := ih hlater
        omega

/-- For every stream and every way of cutting it into calls, all bytes are
written inside the buffer if and only if each of them fits into the buffer as
it was allocated or reallocated. -/
theorem buffer_bounds {chunkSize : ℕ} (hlow : 2 ≤ chunkSize)
    (hhigh : chunkSize < 2 ^ 32) (memory : ℕ → UInt8) (fsm : HttpFSM)
    (calls : List Bytes) :
    (∀ stored ∈ (fsm.reset chunkSize memory).storesAll calls,
        stored.InBounds) ↔
      ∀ stored ∈ (fsm.reset chunkSize memory).storesAll calls,
        stored.Fits chunkSize :=
  (bounded_reset chunkSize memory fsm).storesAll_inBounds_iff hlow hhigh calls

/-- A stream shorter than the reallocated buffer is kept inside it. -/
theorem inBounds_of_short {chunkSize : ℕ} (hlow : 2 ≤ chunkSize)
    (hhigh : chunkSize ≤ 2 ^ 31) (memory : ℕ → UInt8) (fsm : HttpFSM)
    {calls : List Bytes}
    (hshort : calls.flatten.length < 2 * (chunkSize - 1)) :
    ∀ stored ∈ (fsm.reset chunkSize memory).storesAll calls,
      stored.InBounds := by
  rw [(bounded_reset chunkSize memory fsm).storesAll_inBounds_iff hlow
    (by omega)]
  intro stored hstored
  have hlen := mLen_of_mem_storesAll hstored
  have hstart : (fsm.reset chunkSize memory).mLen = 0 := rfl
  have hsize : 2 * (chunkSize - 1) % 2 ^ 32 = 2 * (chunkSize - 1) :=
    Nat.mod_eq_of_lt (by omega)
  unfold Fits
  omega

/-- A byte that ends no line. -/
theorem recvLf_store_of_ne {byte : UInt8} (hbyte : byte ≠ lf) {fsm : HttpFSM}
    (hlen : fsm.mLen + 1 < 2 ^ 32) : (fsm.store byte).recvLf = 0 := by
  have hlast : (fsm.store byte).mP ((fsm.store byte).mLen - 1) = byte := by
    rw [store_mP, store_mLen, Nat.mod_eq_of_lt hlen, Nat.add_sub_cancel,
      Function.update_of_ne (by omega), Function.update_self]
  unfold recvLf
  rw [hlast]
  simp [hbyte]

/-- A header line that does not end fills the buffer byte after byte. -/
theorem exists_stored_of_line {bytes : Bytes} (hbytes : lf ∉ bytes)
    {fsm : HttpFSM} (hstate : fsm.state = .recvHeader)
    (hlen : fsm.mLen + bytes.length < 2 ^ 32) {index : ℕ}
    (hindex : index < bytes.length) :
    ∃ stored ∈ fsm.stores bytes, stored.mLen = fsm.mLen + index := by
  induction bytes generalizing fsm index with
  | nil => exact absurd hindex (Nat.not_lt_zero _)
  | cons byte rest ih =>
      rw [List.length_cons] at hlen hindex
      rw [List.mem_cons, not_or] at hbytes
      have hreceiving : fsm.Receiving := by simp [Receiving, hstate]
      rw [stores_cons hreceiving]
      cases index with
      | zero => exact ⟨fsm, List.mem_cons_self, rfl⟩
      | succ index =>
          have hnone := recvLf_store_of_ne (Ne.symm hbytes.1)
            (show fsm.mLen + 1 < 2 ^ 32 by omega)
          have hrecv : (fsm.store byte).recv = fsm.store byte := by
            rw [recv, store_state, hstate]
            simp [recvHeader, hnone]
          have hmod : (fsm.mLen + 1) % 2 ^ 32 = fsm.mLen + 1 :=
            Nat.mod_eq_of_lt (by omega)
          obtain ⟨stored, hmem, hstored⟩ := @ih hbytes.2 (fsm.store byte)
            ((store_state byte fsm).trans hstate)
            (by rw [store_mLen, hmod]; omega) index (by omega)
          rw [store_mLen, hmod] at hstored
          rw [hrecv]
          exact ⟨stored, List.mem_cons_of_mem _ hmem, by omega⟩

/-- Whatever the buffer's size, a long enough first line is written beyond its
end. -/
theorem not_inBounds_of_line {chunkSize : ℕ} (hlow : 2 ≤ chunkSize)
    (hhigh : chunkSize ≤ 2 ^ 31) (memory : ℕ → UInt8) (fsm : HttpFSM)
    {line : Bytes} (hline : lf ∉ line)
    (hlength : line.length = 2 * (chunkSize - 1)) :
    ¬∀ stored ∈ (fsm.reset chunkSize memory).storesAll [line],
      stored.InBounds := by
  rw [(bounded_reset chunkSize memory fsm).storesAll_inBounds_iff hlow
    (by omega)]
  intro hfits
  have hstart : (fsm.reset chunkSize memory).mLen = 0 := rfl
  obtain ⟨stored, hmem, hlen⟩ :=
    @exists_stored_of_line line hline (fsm.reset chunkSize memory) rfl
      (by omega) (line.length - 1) (by omega)
  have hfit := hfits stored (by simpa [storesAll] using hmem)
  have hmod := Nat.mod_le (2 * (chunkSize - 1)) (2 ^ 32)
  unfold Fits at hfit
  omega

/-- An `HttpFSM` before its first `reset`. -/
def blank : HttpFSM where
  version := 0
  headers := []
  state := .invalid
  res := 0
  bd := none
  bl := 0
  mMax := 0
  mLen := 0
  mBuf := 0
  mP := fun _ => 0
  allocated := 0

/-- A short request line in a buffer of 512 bytes. -/
theorem buffer_bounds_short :
    (∀ stored ∈ (blank.reset 512 fun _ => 0).storesAll [ascii "GET / HTTP"],
        stored.InBounds) ↔
      ∀ stored ∈ (blank.reset 512 fun _ => 0).storesAll [ascii "GET / HTTP"],
        stored.Fits 512 :=
  buffer_bounds (by decide) (by decide) _ _ _

/-- A first line of 1022 bytes is written beyond the end of a buffer of 512
bytes. -/
theorem buffer_bounds_fails :
    ¬∀ stored ∈ (blank.reset 512 fun _ => 0).storesAll
      [List.replicate 1022 65], stored.InBounds :=
  not_inBounds_of_line (by decide) (by decide) _ _
    (fun hmem => absurd (List.eq_of_mem_replicate hmem) (by decide))
    List.length_replicate

end HttpFSM

end GrpcMtk.Http
