import Mathlib.Data.List.TakeWhile
import GrpcMtk.Http.Buffer

/-!
# Feeding a stream byte by byte

The parser is fed one byte at a time into a buffer that needs no expansion.
All it decides on is then in its `View`: the received content as a list in
place of the memory, and the members that point into it.
-/

namespace GrpcMtk.Http

open GrpcMtk.Proto

namespace HttpFSM

def appendAll (calls : List Bytes) (fsm : HttpFSM) : HttpFSM :=
  calls.foldl (fun fsm bytes => fsm.append bytes) fsm

/-- One byte a call. -/
def singly (bytes : Bytes) : List Bytes := bytes.map fun byte => [byte]

def feed (bytes : Bytes) (fsm : HttpFSM) : HttpFSM :=
  fsm.appendAll (singly bytes)

/-- No call reallocates the buffer. -/
def NeverExpands (calls : List Bytes) (fsm : HttpFSM) : Prop :=
  ∀ stored ∈ fsm.storesAll calls, stored.mLen < stored.limit

section Calls

theorem appendAll_append (left right : List Bytes) (fsm : HttpFSM) :
    fsm.appendAll (left ++ right) = (fsm.appendAll left).appendAll right :=
  List.foldl_append

theorem storesAll_append (left right : List Bytes) (fsm : HttpFSM) :
    fsm.storesAll (left ++ right) =
      fsm.storesAll left ++ (fsm.appendAll left).storesAll right := by
  induction left generalizing fsm with
  | nil => rfl
  | cons bytes left ih =>
      rw [List.cons_append, storesAll, storesAll, ih, List.append_assoc]
      rfl

theorem neverExpands_append {left right : List Bytes} {fsm : HttpFSM} :
    fsm.NeverExpands (left ++ right) ↔
      fsm.NeverExpands left ∧ (fsm.appendAll left).NeverExpands right := by
  unfold NeverExpands
  rw [storesAll_append, List.forall_mem_append]

@[simp]
theorem flatten_singly (bytes : Bytes) : (singly bytes).flatten = bytes := by
  induction bytes with
  | nil => rfl
  | cons byte rest ih =>
      rw [singly, List.map_cons, List.flatten_cons]
      exact congrArg (byte :: ·) ih

theorem feed_append (left right : Bytes) (fsm : HttpFSM) :
    fsm.feed (left ++ right) = (fsm.feed left).feed right := by
  unfold feed singly
  rw [List.map_append, appendAll_append]

theorem neverExpands_feed_append {left right : Bytes} {fsm : HttpFSM} :
    fsm.NeverExpands (singly (left ++ right)) ↔
      fsm.NeverExpands (singly left) ∧
        (fsm.feed left).NeverExpands (singly right) := by
  unfold feed singly
  rw [List.map_append, neverExpands_append]

@[simp]
theorem feed_nil (fsm : HttpFSM) : fsm.feed [] = fsm := rfl

theorem feed_cons (byte : UInt8) (rest : Bytes) (fsm : HttpFSM) :
    fsm.feed (byte :: rest) = (fsm.append [byte]).feed rest := rfl

theorem feed_of_halted {fsm : HttpFSM} (hhalted : fsm.Halted)
    (bytes : Bytes) : fsm.feed bytes = fsm := by
  induction bytes with
  | nil => rfl
  | cons byte rest ih => rw [feed_cons, append_of_halted hhalted, ih]

theorem feed_of_established {fsm : HttpFSM}
    (hstate : fsm.state = .websocketEstablish) (bytes : Bytes) :
    (fsm.feed bytes).state = .websocketEstablish := by
  induction bytes generalizing fsm with
  | nil => exact hstate
  | cons byte rest ih =>
      rw [feed_cons, append_cons_of_established hstate]
      exact ih ((store_state byte fsm).trans hstate)

/-- The state is not `state_recv_finish` before the last byte if it is not
right before it. -/
theorem state_ne_recvFinish {fsm : HttpFSM} {bytes init read rest : Bytes}
    {byte : UInt8} (hlast : bytes = init ++ [byte])
    (hinit : (fsm.feed init).state ≠ .recvFinish)
    (hsplit : bytes = read ++ rest) (hrest : rest ≠ []) :
    (fsm.feed read).state ≠ .recvFinish := by
  intro hfinish
  obtain ⟨tail, last, rfl⟩ := (List.eq_nil_or_concat rest).resolve_left hrest
  rw [List.concat_eq_append, ← List.append_assoc, hlast] at hsplit
  have hread := (List.append_inj' hsplit rfl).1
  rw [hread, feed_append, feed_of_halted (.inr hfinish)] at hinit
  exact hinit hfinish

theorem append_singleton {fsm : HttpFSM} (hreceiving : fsm.Receiving)
    (byte : UInt8) : fsm.append [byte] = (fsm.store byte).recv := by
  rw [append_cons hreceiving, append]

theorem neverExpands_singly_cons {fsm : HttpFSM}
    (hreceiving : fsm.Receiving) {byte : UInt8} {rest : Bytes} :
    fsm.NeverExpands (singly (byte :: rest)) ↔
      fsm.mLen < fsm.limit ∧
        (fsm.store byte).recv.NeverExpands (singly rest) := by
  unfold NeverExpands
  rw [singly, List.map_cons, storesAll, stores_cons hreceiving, stores,
    append_singleton hreceiving, List.forall_mem_append]
  simp [singly]

theorem limit_lt (fsm : HttpFSM) : fsm.limit < 2 ^ 32 :=
  Nat.mod_lt _ (by decide)

theorem mMax_append (bytes : Bytes) (fsm : HttpFSM) :
    (fsm.append bytes).mMax = fsm.mMax := by
  induction bytes generalizing fsm with
  | nil => rfl
  | cons byte rest ih =>
      rcases state_cases fsm with hhalted | hestablished | hreceiving
      · rw [append_of_halted hhalted]
      · rw [append_cons_of_established hestablished, store_mMax]
      · rw [append_cons hreceiving, ih, (received_recv _).mMax, store_mMax]

theorem mMax_of_mem_stores {fsm stored : HttpFSM} {bytes : Bytes}
    (hstored : stored ∈ fsm.stores bytes) : stored.mMax = fsm.mMax := by
  induction bytes generalizing fsm with
  | nil => simp [stores] at hstored
  | cons byte rest ih =>
      rcases state_cases fsm with hhalted | hestablished | hreceiving
      · simp [stores_of_halted hhalted] at hstored
      · rw [stores_cons_of_established hestablished,
          List.mem_singleton] at hstored
        rw [hstored]
      · rw [stores_cons hreceiving, List.mem_cons] at hstored
        rcases hstored with rfl | hlater
        · rfl
        · rw [ih hlater, (received_recv _).mMax, store_mMax]

theorem mMax_of_mem_storesAll {fsm stored : HttpFSM} {calls : List Bytes}
    (hstored : stored ∈ fsm.storesAll calls) : stored.mMax = fsm.mMax := by
  induction calls generalizing fsm with
  | nil => simp [storesAll] at hstored
  | cons bytes calls ih =>
      rw [storesAll, List.mem_append] at hstored
      rcases hstored with hhere | hlater
      · exact mMax_of_mem_stores hhere
      · rw [ih hlater, mMax_append]

/-- A buffer larger than the stream needs no expansion. -/
theorem neverExpands_of_short {chunkSize : ℕ} (hhigh : chunkSize < 2 ^ 32)
    (memory : ℕ → UInt8) (fsm : HttpFSM) {calls : List Bytes}
    (hshort : calls.flatten.length < chunkSize) :
    (fsm.reset chunkSize memory).NeverExpands calls := by
  intro stored hstored
  have hmax : stored.mMax = chunkSize := mMax_of_mem_storesAll hstored
  have hlen := mLen_of_mem_storesAll hstored
  have hstart : (fsm.reset chunkSize memory).mLen = 0 := rfl
  rw [limit_eq hmax (by omega) hhigh]
  omega

/-- A buffer that is never expanded is written inside its bounds. -/
theorem inBounds_of_neverExpands {chunkSize : ℕ} (hpos : 0 < chunkSize)
    (hhigh : chunkSize < 2 ^ 32) (memory : ℕ → UInt8) (fsm : HttpFSM)
    {calls : List Bytes}
    (hroom : (fsm.reset chunkSize memory).NeverExpands calls) :
    ∀ stored ∈ (fsm.reset chunkSize memory).storesAll calls,
      stored.InBounds := by
  have hfull : ∀ stored ∈ (fsm.reset chunkSize memory).storesAll calls,
      stored.mLen + 1 < chunkSize := by
    intro stored hstored
    have hbelow := hroom stored hstored
    rw [limit_eq (mMax_of_mem_storesAll hstored) hpos hhigh] at hbelow
    change stored.mLen < chunkSize - 1 at hbelow
    omega
  intro stored hstored
  have hlow : 2 ≤ chunkSize := by
    have hhere := hfull stored hstored
    omega
  exact ((bounded_reset chunkSize memory fsm).storesAll_inBounds_iff hlow
    hhigh calls).mpr (fun other hother => .inl (hfull other hother)) stored
      hstored

end Calls

/-! ## Views -/

/-- What the parser decides on. -/
structure View where
  state : State
  content : Bytes
  mBuf : ℕ
  headers : List Header
  bd : Option ℕ
  bl : ℕ

def view (fsm : HttpFSM) : View where
  state := fsm.state
  content := fsm.content
  mBuf := fsm.mBuf
  headers := fsm.headers
  bd := fsm.bd
  bl := fsm.bl

theorem view_setState (fsm : HttpFSM) (state : State) :
    ({ fsm with state }).view = { fsm.view with state } := rfl

section Content

variable {fsm : HttpFSM}

@[simp]
theorem length_content (fsm : HttpFSM) : fsm.content.length = fsm.mLen := by
  simp [content]

theorem mLen_of_view {other : HttpFSM} (hview : other.view = fsm.view) :
    other.mLen = fsm.mLen := by
  have hcontent : other.content = fsm.content := congrArg View.content hview
  rw [← length_content, hcontent, length_content]

/-- The byte of the memory behind a prefix of the content. -/
theorem mP_of_content {left right : Bytes} {byte : UInt8}
    (hcontent : fsm.content = left ++ byte :: right) :
    fsm.mP left.length = byte := by
  have hlength := congrArg List.length hcontent
  simp only [length_content, List.length_append, List.length_cons] at hlength
  have hat : fsm.content[left.length]? = some (fsm.mP left.length) := by
    unfold content
    rw [List.getElem?_map, List.getElem?_range (by omega), Option.map_some]
  rw [hcontent, List.getElem?_append_right (Nat.le_refl _),
    Nat.sub_self] at hat
  exact (Option.some.inj hat).symm

theorem content_congr {other : HttpFSM} (hlen : other.mLen = fsm.mLen)
    (hbytes : ∀ index < fsm.mLen, other.mP index = fsm.mP index) :
    other.content = fsm.content := by
  unfold content
  rw [hlen]
  exact List.map_congr_left fun index hindex =>
    hbytes index (List.mem_range.mp hindex)

theorem content_take {other : HttpFSM} (hbytes : other.mP = fsm.mP)
    (hlen : other.mLen ≤ fsm.mLen) :
    other.content = fsm.content.take other.mLen := by
  unfold content
  rw [hbytes, ← List.map_take, List.take_range, Nat.min_eq_left hlen]

theorem content_store (byte : UInt8) (hlen : fsm.mLen + 1 < 2 ^ 32) :
    (fsm.store byte).content = fsm.content ++ [byte] := by
  have hmod : (fsm.mLen + 1) % 2 ^ 32 = fsm.mLen + 1 := Nat.mod_eq_of_lt hlen
  unfold content
  rw [store_mLen, store_mP, hmod, List.range_succ, List.map_append,
    List.map_singleton]
  congr 1
  · apply List.map_congr_left
    intro index hindex
    have hbefore := List.mem_range.mp hindex
    rw [Function.update_of_ne (by omega), Function.update_of_ne (by omega)]
  · rw [Function.update_of_ne (by omega), Function.update_self]

theorem mP_store (byte : UInt8) (fsm : HttpFSM) :
    (fsm.store byte).mP (fsm.store byte).mLen = 0 := by
  rw [store_mP, store_mLen, Function.update_self]

theorem view_store (byte : UInt8) (hlen : fsm.mLen + 1 < 2 ^ 32) :
    (fsm.store byte).view =
      { fsm.view with content := fsm.content ++ [byte] } := by
  simp [view, content_store byte hlen]

theorem content_update (fsm : HttpFSM) (offset : ℕ) (byte : UInt8) :
    ({ fsm with mP := Function.update fsm.mP offset byte }).content =
      fsm.content.set offset byte := by
  apply List.ext_getElem
  · simp
  · intro index hleft hright
    rw [List.getElem_set]
    simp only [content, List.getElem_map, List.getElem_range,
      Function.update_apply, eq_comm]

/-- The last bytes of the content become NUL. -/
theorem content_terminate {text ending : Bytes}
    (hcontent : fsm.content = text ++ ending) :
    (fsm.terminate ending.length).content =
      text ++ List.replicate ending.length 0 := by
  induction ending generalizing fsm text with
  | nil => simpa [terminate] using hcontent
  | cons byte ending ih =>
      have hlen := congrArg List.length hcontent
      simp only [length_content, List.length_append, List.length_cons] at hlen
      have hoffset : fsm.mLen - (ending.length + 1) = text.length := by omega
      rw [List.length_cons, terminate, hoffset, List.replicate_succ,
        List.append_cons]
      apply ih
      rw [content_update, hcontent, List.set_append_right _ _ (Nat.le_refl _)]
      simp

theorem view_terminate {text ending : Bytes}
    (hcontent : fsm.content = text ++ ending) :
    (fsm.terminate ending.length).view =
      { fsm.view with
        content := text ++ List.replicate ending.length 0 } := by
  simp [view, content_terminate hcontent]

/-- The byte behind the content belongs to no view. -/
theorem view_update_end (fsm : HttpFSM) (byte : UInt8) :
    ({ fsm with mP := Function.update fsm.mP fsm.mLen byte }).view =
      fsm.view := by
  simp only [view, content_update]
  rw [List.set_eq_of_length_le (Nat.le_of_eq (length_content fsm))]

/-- A text up to the NUL behind it. -/
theorem takeWhile_of_nul {left text right : Bytes} (htext : 0 ∉ text) :
    ((left ++ text ++ 0 :: right).drop left.length).takeWhile
        (fun byte => byte ≠ 0) = text := by
  have htake : ∀ byte ∈ text, (decide (byte ≠ 0)) = true := by
    intro byte hbyte
    exact decide_eq_true fun h => htext (h ▸ hbyte)
  rw [List.append_assoc, List.drop_left, List.takeWhile_append_of_pos htake]
  simp

theorem cstr_of_content {left text right : Bytes}
    (hcontent : fsm.content = left ++ text ++ 0 :: right) (htext : 0 ∉ text) :
    fsm.cstr left.length = text := by
  rw [cstr, hcontent, takeWhile_of_nul htext]

/-- The memory begins with the content. -/
theorem map_mP_range {count : ℕ} (hcount : fsm.mLen ≤ count) :
    ∃ behind, (List.range count).map fsm.mP = fsm.content ++ behind := by
  obtain ⟨more, rfl⟩ := Nat.exists_eq_add_of_le hcount
  exact ⟨_, by rw [List.range_add, List.map_append]; rfl⟩

/-- Inside the content `putrc` scans to the next NUL. -/
theorem versionEnd_of_content {left text right : Bytes}
    (hcontent : left ++ text ++ 0 :: right = fsm.content)
    (hleft : left.length = 8) (htext : 0 ∉ text) (hl : ℕ) :
    fsm.versionEnd ⟨0, hl⟩ = text := by
  obtain ⟨behind, hmemory⟩ :=
    @map_mP_range fsm (max fsm.mLen (0 + hl + 16)) (Nat.le_max_left _ _)
  rw [versionEnd, hmemory, ← hcontent, List.append_assoc, List.cons_append,
    Nat.zero_add, ← hleft, takeWhile_of_nul htext]

end Content

/-! ## Line ends -/

/-- CRLF or LF. -/
inductive LineEnd : Bytes → Prop where
  | crlf : LineEnd [cr, lf]
  | lf : LineEnd [Http.lf]

section LineEnds

variable {fsm : HttpFSM}

theorem recvLf_of_ne {text : Bytes} {byte : UInt8}
    (hcontent : fsm.content = text ++ [byte]) (hbyte : byte ≠ lf) :
    fsm.recvLf = 0 := by
  have hlen := congrArg List.length hcontent
  simp only [length_content, List.length_append, List.length_singleton] at hlen
  have hlast : fsm.mP (fsm.mLen - 1) = byte := by
    rw [hlen, Nat.add_sub_cancel]
    exact mP_of_content hcontent
  unfold recvLf
  rw [hlast]
  simp [hbyte]

theorem recvLf_of_crlf {text : Bytes}
    (hcontent : fsm.content = text ++ [cr, lf]) (htext : text ≠ []) :
    fsm.recvLf = 2 := by
  have hlen := congrArg List.length hcontent
  simp only [length_content, List.length_append, List.length_cons,
    List.length_nil] at hlen
  have hpos := List.length_pos_of_ne_nil htext
  have hcr : fsm.mP (fsm.mLen - 2) = cr := by
    rw [hlen]
    exact mP_of_content hcontent
  have hlf : fsm.mP (fsm.mLen - 1) = lf := by
    have hshift : fsm.content = (text ++ [cr]) ++ lf :: [] := by
      rw [hcontent, List.append_assoc]
      rfl
    have hat := mP_of_content hshift
    rw [List.length_append, List.length_singleton] at hat
    rw [hlen]
    exact hat
  unfold recvLf
  rw [if_pos ⟨by omega, hcr, hlf⟩]

theorem recvLf_of_lf {text : Bytes} (hcontent : fsm.content = text ++ [lf])
    (htext : text ≠ []) (hlast : text.getLast? ≠ some cr) :
    fsm.recvLf = 1 := by
  have hlen := congrArg List.length hcontent
  simp only [length_content, List.length_append, List.length_singleton] at hlen
  have hpos := List.length_pos_of_ne_nil htext
  have hlf : fsm.mP (fsm.mLen - 1) = lf := by
    rw [hlen, Nat.add_sub_cancel]
    exact mP_of_content hcontent
  have hcr : fsm.mP (fsm.mLen - 2) ≠ cr := by
    intro heq
    apply hlast
    obtain ⟨init, byte, rfl⟩ := List.eq_nil_or_concat text |>.resolve_left htext
    rw [List.concat_eq_append] at hcontent hlen ⊢
    rw [List.append_assoc] at hcontent
    have hat := mP_of_content hcontent
    rw [List.length_append, List.length_singleton] at hlen
    rw [show fsm.mLen - 2 = init.length by omega, hat] at heq
    rw [heq, List.getLast?_concat]
  unfold recvLf
  rw [if_neg (fun h => hcr h.2.1), if_pos ⟨by omega, hlf⟩]

theorem recvLf_of_lineEnd {text ending : Bytes} (hending : LineEnd ending)
    (hcontent : fsm.content = text ++ ending) (htext : text ≠ [])
    (hlast : text.getLast? ≠ some cr) : fsm.recvLf = ending.length := by
  cases hending with
  | crlf => exact recvLf_of_crlf hcontent htext
  | lf => exact recvLf_of_lf hcontent htext hlast

/-- What precedes the LF of a line end is no LF. -/
theorem lineEnd_eq_append {ending : Bytes} (hending : LineEnd ending) :
    ∃ init, ending = init ++ [lf] ∧ lf ∉ init := by
  cases hending with
  | crlf => exact ⟨[cr], rfl, by decide⟩
  | lf => exact ⟨[], rfl, by decide⟩

theorem length_lineEnd {ending : Bytes} (hending : LineEnd ending) :
    ∃ count, ending.length = count + 1 := by
  cases hending with
  | crlf => exact ⟨1, rfl⟩
  | lf => exact ⟨0, rfl⟩

end LineEnds

/-! ## Text inside a line -/

/-- The states in which the parser waits for the end of a line. -/
def LineState (state : State) : Prop :=
  state = .recvHeader ∨ state = .recvBodylen ∨ state = .recvFooter

theorem LineState.receiving {fsm : HttpFSM} (hstate : LineState fsm.state) :
    fsm.Receiving := by
  unfold Receiving
  rcases hstate with h | h | h <;> simp [h]

section Lines

variable {fsm : HttpFSM}

theorem recv_of_recvLf_eq_zero (hstate : LineState fsm.state)
    (hlf : fsm.recvLf = 0) (hnul : fsm.mP fsm.mLen = 0) : fsm.recv = fsm := by
  have hsemicolon : (0 : UInt8) ≠ semicolon := by decide
  rcases hstate with h | h | h
  · simp [recv, h, recvHeader, hlf]
  · simp [recv, h, recvBodylen, hlf, hnul, hsemicolon]
  · simp [recv, h, recvFooter, hlf]

/-- Bytes that end no line only extend the content. -/
theorem view_feed_text {text : Bytes} (htext : lf ∉ text)
    (hstate : LineState fsm.state)
    (hroom : fsm.NeverExpands (singly text)) :
    (fsm.feed text).view =
      { fsm.view with content := fsm.content ++ text } := by
  induction text generalizing fsm with
  | nil => simp [view]
  | cons byte rest ih =>
      have hreceiving := hstate.receiving
      rw [List.mem_cons, not_or] at htext
      rw [neverExpands_singly_cons hreceiving] at hroom
      have hlimit := limit_lt fsm
      have hlen : fsm.mLen + 1 < 2 ^ 32 := by omega
      have hrecv : (fsm.store byte).recv = fsm.store byte :=
        recv_of_recvLf_eq_zero (by rwa [store_state])
          (recvLf_of_ne (content_store byte hlen) (Ne.symm htext.1))
          (mP_store byte fsm)
      rw [hrecv] at hroom
      rw [feed_cons, append_singleton hreceiving, hrecv,
        ih htext.2 (by rwa [store_state]) hroom.2, view_store byte hlen,
        content_store byte hlen, List.append_assoc]
      rfl

/-- The LF of a line is handed to the receiving function with the line as the
end of the content. -/
theorem feed_line {text : Bytes} (htext : lf ∉ text)
    (hstate : LineState fsm.state)
    (hroom : fsm.NeverExpands (singly (text ++ [lf]))) :
    ∃ stored : HttpFSM, fsm.feed (text ++ [lf]) = stored.recv ∧
      stored.view =
        { fsm.view with content := fsm.content ++ text ++ [lf] } ∧
      stored.mP stored.mLen = 0 := by
  rw [neverExpands_feed_append] at hroom
  have hview := view_feed_text htext hstate hroom.1
  have hsame : (fsm.feed text).state = fsm.state := congrArg View.state hview
  have hline : LineState (fsm.feed text).state := hsame ▸ hstate
  have hlast := (neverExpands_singly_cons hline.receiving).mp hroom.2
  have hlimit := limit_lt (fsm.feed text)
  refine ⟨(fsm.feed text).store lf, ?_, ?_, mP_store _ _⟩
  · rw [feed_append, feed_cons, feed_nil, append_singleton hline.receiving]
  · rw [view_store lf (by omega), hview]
    exact congrArg (fun content => { fsm.view with content := content ++ [lf] })
      (congrArg View.content hview)

end Lines

end HttpFSM

end GrpcMtk.Http
