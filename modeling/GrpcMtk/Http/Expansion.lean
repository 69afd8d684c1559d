import GrpcMtk.Http.Feeding

/-!
# The size of the buffer

No receiving function looks at the size of the buffer.  A parser that
reallocates its buffer therefore receives the same as one whose buffer is so
large that it never does, as long as all it writes is inside its own.
-/

namespace GrpcMtk.Http

open GrpcMtk.Proto

namespace HttpFSM

/-- The same parser with a buffer of another size. -/
def withBuffer (mMax allocated : ℕ) (fsm : HttpFSM) : HttpFSM :=
  { fsm with mMax, allocated }

section Buffer

variable (mMax allocated : ℕ) (fsm : HttpFSM)

theorem view_withBuffer : (fsm.withBuffer mMax allocated).view = fsm.view := rfl

theorem terminate_withBuffer (nlf : ℕ) :
    (fsm.withBuffer mMax allocated).terminate nlf =
      (fsm.terminate nlf).withBuffer mMax allocated := by
  induction nlf generalizing fsm with
  | zero => rfl
  | succ nlf ih =>
      exact ih { fsm with
        mP := Function.update fsm.mP (fsm.mLen - (nlf + 1)) 0 }

/-! ## The receiving functions -/

theorem endHeader_withBuffer :
    (fsm.withBuffer mMax allocated).endHeader =
      fsm.endHeader.withBuffer mMax allocated := by
  have hresult : (fsm.withBuffer mMax allocated).setResult =
      fsm.setResult.withBuffer mMax allocated := rfl
  have hint : (fsm.setResult.withBuffer mMax allocated).hdrint
      "Content-Length" = fsm.setResult.hdrint "Content-Length" := rfl
  rw [endHeader, endHeader, hresult, hint]
  cases fsm.setResult.hdrint "Content-Length" with
  | some cl => rfl
  | none =>
      dsimp only
      rw [apply_ite (withBuffer mMax allocated),
        apply_ite (withBuffer mMax allocated),
        apply_ite (withBuffer mMax allocated)]
      rfl

theorem recvHeader_withBuffer :
    (fsm.withBuffer mMax allocated).recvHeader =
      fsm.recvHeader.withBuffer mMax allocated := by
  have hlf : (fsm.withBuffer mMax allocated).recvLf = fsm.recvLf := rfl
  rw [recvHeader, recvHeader, hlf, terminate_withBuffer]
  dsimp only
  rw [endHeader_withBuffer, apply_ite (withBuffer mMax allocated),
    apply_ite (withBuffer mMax allocated),
    apply_ite (withBuffer mMax allocated)]
  rfl

theorem recvBody_withBuffer :
    (fsm.withBuffer mMax allocated).recvBody =
      fsm.recvBody.withBuffer mMax allocated := by
  rw [recvBody, recvBody]
  dsimp only
  rw [apply_ite (withBuffer mMax allocated),
    apply_ite (withBuffer mMax allocated),
    apply_ite (withBuffer mMax allocated)]
  rfl

theorem recvBodyNochunk_withBuffer :
    (fsm.withBuffer mMax allocated).recvBodyNochunk =
      fsm.recvBodyNochunk.withBuffer mMax allocated := by
  rw [recvBodyNochunk, recvBodyNochunk]
  rw [apply_ite (withBuffer mMax allocated),
    apply_ite (withBuffer mMax allocated)]
  rfl

theorem takeSize_withBuffer (nlf : ℕ) (next : State) :
    (fsm.withBuffer mMax allocated).takeSize nlf next =
      (fsm.takeSize nlf next).withBuffer mMax allocated := by
  have hsize (fsm : HttpFSM) :
      htoi ((fsm.withBuffer mMax allocated).cstr
          (fsm.withBuffer mMax allocated).mBuf)
        ((fsm.withBuffer mMax allocated).mLen -
          (fsm.withBuffer mMax allocated).mBuf) =
        htoi (fsm.cstr fsm.mBuf) (fsm.mLen - fsm.mBuf) := rfl
  rw [takeSize, takeSize, terminate_withBuffer]
  rw [hsize]
  cases htoi _ _ with
  | none => rfl
  | some cl =>
      dsimp only
      rw [apply_ite (withBuffer mMax allocated)]
      rfl

theorem recvBodylen_withBuffer :
    (fsm.withBuffer mMax allocated).recvBodylen =
      fsm.recvBodylen.withBuffer mMax allocated := by
  rw [recvBodylen, recvBodylen]
  rw [takeSize_withBuffer, takeSize_withBuffer,
    apply_ite (withBuffer mMax allocated),
    apply_ite (withBuffer mMax allocated)]
  rfl

theorem recvFooter_withBuffer :
    (fsm.withBuffer mMax allocated).recvFooter =
      fsm.recvFooter.withBuffer mMax allocated := by
  have hlf : (fsm.withBuffer mMax allocated).recvLf = fsm.recvLf := rfl
  rw [recvFooter, recvFooter, hlf, terminate_withBuffer]
  dsimp only
  rw [apply_ite (withBuffer mMax allocated),
    apply_ite (withBuffer mMax allocated),
    apply_ite (withBuffer mMax allocated)]
  rfl

theorem recvComment_withBuffer :
    (fsm.withBuffer mMax allocated).recvComment =
      fsm.recvComment.withBuffer mMax allocated := by
  rw [recvComment, recvComment, apply_ite (withBuffer mMax allocated)]
  rfl

theorem recv_withBuffer :
    (fsm.withBuffer mMax allocated).recv =
      fsm.recv.withBuffer mMax allocated := by
  have hstate : (fsm.withBuffer mMax allocated).state = fsm.state := rfl
  rw [recv, recv, hstate]
  cases fsm.state with
  | recvHeader => exact recvHeader_withBuffer mMax allocated fsm
  | recvBody => exact recvBody_withBuffer mMax allocated fsm
  | recvBodyNochunk => exact recvBodyNochunk_withBuffer mMax allocated fsm
  | recvBodylen => exact recvBodylen_withBuffer mMax allocated fsm
  | recvFooter => exact recvFooter_withBuffer mMax allocated fsm
  | recvComment => exact recvComment_withBuffer mMax allocated fsm
  | _ => rfl

/-! ## Appending -/

/-- What is stored does not depend on the size, only what is allocated
afterwards. -/
theorem store_withBuffer (byte : UInt8) : ∃ next,
    (fsm.withBuffer mMax allocated).store byte =
      (fsm.store byte).withBuffer mMax next := by
  obtain ⟨left, hleft⟩ := expand_eq (fsm.withBuffer mMax allocated)
  obtain ⟨right, hright⟩ := expand_eq fsm
  exact ⟨left, by rw [store, store, hleft, hright]; rfl⟩

theorem append_withBuffer (bytes : Bytes) : ∃ next,
    (fsm.withBuffer mMax allocated).append bytes =
      (fsm.append bytes).withBuffer mMax next := by
  induction bytes generalizing fsm allocated with
  | nil => exact ⟨allocated, rfl⟩
  | cons byte rest ih =>
      rcases state_cases fsm with hhalted | hestablished | hreceiving
      · rw [append_of_halted hhalted,
          @append_of_halted (fsm.withBuffer mMax allocated) hhalted]
        exact ⟨allocated, rfl⟩
      · rw [append_cons_of_established hestablished,
          @append_cons_of_established (fsm.withBuffer mMax allocated)
            hestablished]
        exact store_withBuffer mMax allocated fsm byte
      · obtain ⟨next, hnext⟩ := store_withBuffer mMax allocated fsm byte
        rw [append_cons hreceiving,
          @append_cons (fsm.withBuffer mMax allocated) hreceiving, hnext,
          recv_withBuffer]
        exact ih next _

theorem appendAll_withBuffer (calls : List Bytes) : ∃ next,
    (fsm.withBuffer mMax allocated).appendAll calls =
      (fsm.appendAll calls).withBuffer mMax next := by
  induction calls generalizing fsm allocated with
  | nil => exact ⟨allocated, rfl⟩
  | cons bytes calls ih =>
      obtain ⟨next, hnext⟩ := append_withBuffer mMax allocated fsm bytes
      obtain ⟨last, hlast⟩ := ih next (fsm.append bytes)
      refine ⟨last, Eq.trans ?_ hlast⟩
      rw [← hnext]
      rfl

end Buffer

section Stores

variable {mMax allocated : ℕ} {fsm stored : HttpFSM}

theorem stores_withBuffer {bytes : Bytes}
    (hstored : stored ∈ (fsm.withBuffer mMax allocated).stores bytes) :
    ∃ other ∈ fsm.stores bytes, stored.mLen = other.mLen := by
  induction bytes generalizing fsm allocated with
  | nil => exact absurd hstored List.not_mem_nil
  | cons byte rest ih =>
      rcases state_cases fsm with hhalted | hestablished | hreceiving
      · rw [@stores_of_halted (fsm.withBuffer mMax allocated) hhalted]
          at hstored
        exact absurd hstored List.not_mem_nil
      · rw [@stores_cons_of_established (fsm.withBuffer mMax allocated)
          hestablished, List.mem_singleton] at hstored
        rw [stores_cons_of_established hestablished]
        exact ⟨fsm, List.mem_cons_self, by rw [hstored]; rfl⟩
      · obtain ⟨next, hnext⟩ := store_withBuffer mMax allocated fsm byte
        rw [@stores_cons (fsm.withBuffer mMax allocated) hreceiving, hnext,
          recv_withBuffer, List.mem_cons] at hstored
        rw [stores_cons hreceiving]
        rcases hstored with rfl | hlater
        · exact ⟨fsm, List.mem_cons_self, rfl⟩
        · obtain ⟨other, hother, hlen⟩ := ih hlater
          exact ⟨other, List.mem_cons_of_mem _ hother, hlen⟩

theorem storesAll_withBuffer {calls : List Bytes}
    (hstored : stored ∈ (fsm.withBuffer mMax allocated).storesAll calls) :
    ∃ other ∈ fsm.storesAll calls, stored.mLen = other.mLen := by
  induction calls generalizing fsm allocated with
  | nil => exact absurd hstored List.not_mem_nil
  | cons bytes calls ih =>
      obtain ⟨next, hnext⟩ := append_withBuffer mMax allocated fsm bytes
      rw [storesAll, hnext, List.mem_append] at hstored
      rw [storesAll]
      rcases hstored with hhere | hlater
      · obtain ⟨other, hother, hlen⟩ := stores_withBuffer hhere
        exact ⟨other, List.mem_append_left _ hother, hlen⟩
      · obtain ⟨other, hother, hlen⟩ := ih hlater
        exact ⟨other, List.mem_append_right _ hother, hlen⟩

end Stores

/-! ## The largest buffer -/

/-- With `m_max` 0 the limit is the largest number a `uint32_t` holds. -/
def wide (fsm : HttpFSM) : HttpFSM := fsm.withBuffer 0 0

section Wide

variable {chunkSize : ℕ} {memory : ℕ → UInt8} {fsm : HttpFSM}
  {calls : List Bytes}

theorem neverExpands_wide
    (hshort : ∀ stored ∈ fsm.storesAll calls, stored.mLen + 1 < 2 ^ 32) :
    fsm.wide.NeverExpands calls := by
  intro stored hstored
  obtain ⟨other, hother, hlen⟩ := storesAll_withBuffer hstored
  have hmax : stored.mMax = 0 := mMax_of_mem_storesAll hstored
  have hbelow := hshort other hother
  rw [limit, hmax, hlen]
  omega

/-- Inside a buffer `m_len` does not wrap around. -/
theorem mLen_of_inBounds (hlow : 2 ≤ chunkSize) (hhigh : chunkSize < 2 ^ 32)
    (hinside : ∀ stored ∈ (fsm.reset chunkSize memory).storesAll calls,
      stored.InBounds) :
    ∀ stored ∈ (fsm.reset chunkSize memory).storesAll calls,
      stored.mLen + 1 < 2 ^ 32 := by
  rw [(bounded_reset chunkSize memory fsm).storesAll_inBounds_iff hlow hhigh]
    at hinside
  intro stored hstored
  have hmod := Nat.mod_lt (2 * (chunkSize - 1)) (Nat.two_pow_pos 32)
  rcases hinside stored hstored with hfits | hgrown <;> omega

theorem neverExpands_wide_reset (hlow : 2 ≤ chunkSize)
    (hhigh : chunkSize < 2 ^ 32)
    (hinside : ∀ stored ∈ (fsm.reset chunkSize memory).storesAll calls,
      stored.InBounds) :
    (fsm.reset chunkSize memory).wide.NeverExpands calls :=
  neverExpands_wide (mLen_of_inBounds hlow hhigh hinside)

theorem view_feed_wide (bytes : Bytes) (fsm : HttpFSM) :
    (fsm.wide.feed bytes).view = (fsm.feed bytes).view := by
  obtain ⟨next, hnext⟩ := appendAll_withBuffer 0 0 fsm (singly bytes)
  exact (congrArg view hnext).trans (view_withBuffer 0 next _)

end Wide

end HttpFSM

end GrpcMtk.Http
