import GrpcMtk.Http.Keys
import GrpcMtk.Http.Numbers

/-!
# Sizes of bodies and chunks

Which size texts the parser takes, and what it makes of them.  `stoi` takes
blanks and a sign before the digits, `htoi` takes an empty text, a sign and
more digits than the counter holds, and reads no further than a NUL; and a
`Content-Length` that is no number is treated as if it were absent.  The module
states for every byte stream when the size texts are taken for what they say.
-/

namespace GrpcMtk.Http

open GrpcMtk.Proto

/-! ## Size texts -/

/-- The C string at the start of a text. -/
def cString (text : Bytes) : Bytes := text.takeWhile fun byte => byte ≠ 0

/-- What `htoi` takes for digits. -/
def unsigned : Bytes → Bytes
  | 45 :: rest => rest
  | text => text

/-- Up to the first NUL the text has, behind its sign, a byte that is no hex
digit. -/
def NotHex (text : Bytes) : Prop :=
  ∃ byte ∈ unsigned (cString text), hexDigit byte = none

section Digits

variable {base : ℤ} {digit : UInt8 → Option ℕ} {max : ℕ}

theorem digits_eq_none_iff {text : Bytes} {read : ℕ}
    (hmax : read + text.length < max) (value : ℤ) :
    digits base digit max read value text = none ↔
      ∃ byte ∈ text, digit byte = none := by
  induction text generalizing read value with
  | nil => simp [digits]
  | cons byte rest ih =>
      rw [List.length_cons] at hmax
      rw [digits]
      cases hdigit : digit byte with
      | none => simp [hdigit]
      | some num =>
          have hread : ¬read + 1 ≥ max := by omega
          dsimp only
          rw [if_neg hread, ih (by omega)]
          simp [hdigit]

theorem unsigned_of_ne {text : Bytes} (htext : text.head? ≠ some 45) :
    unsigned text = text := by
  unfold unsigned
  split
  · exact absurd rfl htext
  · rfl

theorem number_eq_none_iff {text : Bytes} (hmax : text.length < max) :
    number base digit max text = none ↔
      ∃ byte ∈ unsigned text, digit byte = none := by
  by_cases hhead : text.head? = some 45
  · obtain ⟨rest, rfl⟩ := List.head?_eq_some_iff.mp hhead
    rw [List.length_cons] at hmax
    change (digits base digit max 1 0 rest).map _ = none ↔
      ∃ byte ∈ rest, digit byte = none
    rw [Option.map_eq_none_iff, digits_eq_none_iff (by omega)]
  · rw [unsigned_of_ne hhead]
    unfold number
    split
    · exact absurd rfl hhead
    · exact digits_eq_none_iff (by omega) 0

end Digits

section SizeTexts

variable {text : Bytes}

theorem cString_of_isHex (htext : IsHex text) : cString text = text := by
  apply List.takeWhile_eq_self_iff.mpr
  intro byte hbyte
  apply decide_eq_true
  rintro rfl
  exact htext.not_mem (by decide) hbyte

theorem htoi_eq_none_iff {max : ℕ} (hmax : text = [] ∨ text.length < max) :
    htoi (cString text) max = none ↔ NotHex text := by
  have hlength : (cString text).length ≤ text.length :=
    (List.takeWhile_prefix _).length_le
  rcases hmax with rfl | hmax
  · simp [htoi, number, digits, cString, NotHex, unsigned]
  · exact number_eq_none_iff (by omega)

/-- Decimal digits that `stoi` takes keep their value. -/
theorem stoi_decimal (htext : IsDecimal text) {value : ℤ} {rest : Bytes}
    (hstoi : stoi text = some (value, rest)) :
    value = decimalValue text ∧ decimalValue text < 2 ^ 31 := by
  rw [stoi_eq_of_isDecimal htext] at hstoi
  split at hstoi
  case isTrue hsmall =>
    rw [Option.some.injEq, Prod.mk.injEq] at hstoi
    exact ⟨hstoi.1.symm, hsmall⟩
  case isFalse => contradiction

end SizeTexts

/-! ## Looking up the first line of a key -/

/-- The value of the first line that starts with a key. -/
def announced (key : Bytes) (lines : List Bytes) : Option Bytes :=
  (lines.find? fun line => StartsWith key line).map fun line =>
    (line.drop key.length).dropWhile isBlank

theorem startsWith_of_found {hl : ℕ} {key line text : Bytes}
    (hmatch : matchKey hl 0 key line = .found text) :
    StartsWith key line ∧ text = line.drop key.length := by
  rw [matchKey_eq] at hmatch
  split at hmatch
  · contradiction
  · split at hmatch
    case isTrue hshared =>
      exact ⟨shared_eq_length.mp hshared, (KeyMatch.found.inj hmatch).symm⟩
    case isFalse => contradiction

theorem not_startsWith_of_mismatch {hl : ℕ} {key line : Bytes}
    (hmatch : matchKey hl 0 key line = .mismatch) : ¬StartsWith key line := by
  rw [matchKey_eq] at hmatch
  split at hmatch
  · contradiction
  · split at hmatch
    case isTrue => contradiction
    case isFalse hshared => exact fun h => hshared (shared_eq_length.mpr h)

/-- `hdrstr` returns nothing but the value of the first line of the key. -/
theorem announced_of_findKey {key : Bytes} {l : ℕ} {lines : List (Bytes × ℕ)}
    {value : Bytes} (hvalue : findKey key l lines = some value) :
    announced key (lines.map Prod.fst) = some value := by
  induction lines with
  | nil => contradiction
  | cons entry rest ih =>
      obtain ⟨line, hl⟩ := entry
      rw [findKey] at hvalue
      rw [announced, List.map_cons, List.find?_cons]
      cases hmatch : matchKey hl 0 key line with
      | mismatch =>
          rw [hmatch] at hvalue
          rw [decide_eq_false (not_startsWith_of_mismatch hmatch)]
          exact ih hvalue
      | tooLong =>
          rw [hmatch] at hvalue
          contradiction
      | found text =>
          obtain ⟨hstarts, rfl⟩ := startsWith_of_found hmatch
          rw [hmatch] at hvalue
          dsimp only at hvalue
          split at hvalue
          · contradiction
          · rw [decide_eq_true hstarts]
            exact hvalue

namespace HttpFSM

/-! ## Where sizes are read -/

section Sizes

variable (fsm : HttpFSM)

/-- The `Content-Length` text. -/
def lengthText : Option Bytes :=
  announced (ascii "Content-Length")
    (fsm.headers.map fun header => fsm.cstr header.hd)

/-- The text of a size line, whose end is the last that was stored. -/
def sizeText : Bytes :=
  (fsm.content.drop fsm.mBuf).take (fsm.mLen - fsm.mBuf - fsm.recvLf)

/-- The empty line of the header has been stored. -/
def AtHeaderEnd : Prop :=
  fsm.state = .recvHeader ∧ fsm.recvLf ≠ 0 ∧
    fsm.mLen - fsm.recvLf = fsm.mBuf

/-- A size line has been stored. -/
def AtSizeEnd : Prop := fsm.state = .recvBodylen ∧ fsm.recvLf ≠ 0

/-- The header announces no body of another kind, and is that of a response
that has to have one. -/
def Unframed : Prop :=
  (fsm.hdrstr "Transfer-Encoding" 256).map (List.take 7) ≠
      some (ascii "chunked") ∧
    fsm.hdrstr "Sec-WebSocket-Key" 256 = none ∧
    fsm.hdrstr "Sec-WebSocket-Accept" 256 = none ∧
    fsm.setResult.res = 200

end Sizes

/-- A size line is taken for the number it denotes. -/
structure Sized (fsm : HttpFSM) : Prop where
  isHex : IsHex fsm.sizeText
  bl : fsm.recv.bl = fsm.bl + hexValue fsm.sizeText
  footer : fsm.recv.state = .recvFooter → hexValue fsm.sizeText = 0

/-- The sizes read by a receiving function are taken for what they say, or
refused. -/
structure Framed (fsm : HttpFSM) : Prop where
  counted : fsm.state ≠ .recvBodyNochunk →
    fsm.recv.state = .recvBodyNochunk →
    ∃ text, fsm.recv.lengthText = some text ∧ IsDecimal text ∧
      fsm.recv.bl = decimalValue text
  countedOrError : fsm.AtHeaderEnd → fsm.recv.lengthText ≠ none →
    fsm.recv.state = .recvBodyNochunk ∨ fsm.recv.state = .error
  sized : fsm.state = .recvBodylen →
    fsm.recv.state = .recvBody ∨ fsm.recv.state = .recvFooter → fsm.Sized
  sizedOrError : fsm.AtSizeEnd →
    fsm.recv.state = .recvBody ∨ fsm.recv.state = .recvFooter ∨
      fsm.recv.state = .error

/-- `hdrint` reads the text: `hdrstr` returns it, and `stoi` takes all of
it. -/
def Counted (fsm : HttpFSM) (text : Bytes) : Prop :=
  fsm.hdrstr "Content-Length" 256 = some text ∧
    ∃ value, stoi text = some (value, [])

/-- A `Content-Length` text that is read as a number has only digits, and a
header with another one announces no body of another kind and has to have
one. -/
def WellCounted (fsm : HttpFSM) : Prop :=
  ∀ text, fsm.lengthText = some text →
    (fsm.Counted text → IsDecimal text) ∧ (¬fsm.Counted text → fsm.Unframed)

/-- A size text denotes a number that the counter can be increased by, unless
it is refused as no number. -/
def WellSized (bl : ℕ) (text : Bytes) : Prop :=
  IsHex text ∧ (hexValue text = 0 ∨ bl + hexValue text < 2 ^ 32) ∨ NotHex text

/-- The condition on what is stored when a receiving function is called. -/
structure WellFramed (fsm : HttpFSM) : Prop where
  counted : fsm.AtHeaderEnd → WellCounted (fsm.terminate fsm.recvLf)
  sized : fsm.AtSizeEnd → WellSized fsm.bl fsm.sizeText

/-! ## The size line of a chunk -/

section SizeLine

variable {fsm : HttpFSM}

theorem cString_append_zeros (text : Bytes) (count : ℕ) :
    cString (text ++ List.replicate count 0) = cString text := by
  unfold cString
  rw [List.takeWhile_append]
  split
  case isTrue hlength =>
    have hzeros : (List.replicate count (0 : UInt8)).takeWhile
        (fun byte => byte ≠ 0) = [] := by
      cases count with
      | zero => rfl
      | succ count => rfl
    rw [hzeros, List.append_nil]
    exact ((List.takeWhile_prefix _).eq_of_length hlength).symm
  case isFalse => rfl

/-- What `htoi` is given is the size text. -/
theorem cstr_terminate (fsm : HttpFSM) :
    (fsm.terminate fsm.recvLf).cstr fsm.mBuf = cString fsm.sizeText := by
  have hlf := recvLf_le fsm
  have hends : (fsm.content.drop (fsm.mLen - fsm.recvLf)).length =
      fsm.recvLf := by
    rw [List.length_drop, length_content]
    omega
  have hzeros := @content_terminate fsm
    (fsm.content.take (fsm.mLen - fsm.recvLf)) _
    (List.take_append_drop (fsm.mLen - fsm.recvLf) fsm.content).symm
  have hcount : fsm.mLen - fsm.recvLf - fsm.mBuf =
      fsm.mLen - fsm.mBuf - fsm.recvLf := by
    omega
  rw [hends] at hzeros
  rw [cstr, hzeros, List.drop_append, List.drop_replicate, List.drop_take,
    hcount]
  exact cString_append_zeros _ _

theorem length_sizeText (hlf : fsm.recvLf ≠ 0) :
    fsm.sizeText = [] ∨ fsm.sizeText.length < fsm.mLen - fsm.mBuf := by
  have hlength : fsm.sizeText.length ≤ fsm.mLen - fsm.mBuf - fsm.recvLf :=
    List.length_take_le _ _
  by_cases hempty : fsm.sizeText = []
  · exact .inl hempty
  · have hpos := List.length_pos_of_ne_nil hempty
    exact .inr (by omega)

/-- The three outcomes of a size line. -/
theorem recv_atSizeEnd (hat : fsm.AtSizeEnd) :
    fsm.recv.state = .error ∧ NotHex fsm.sizeText ∨
      ∃ cl, htoi (cString fsm.sizeText) (fsm.mLen - fsm.mBuf) = some cl ∧
        (cl = 0 ∧ fsm.recv.state = .recvFooter ∧ fsm.recv.bl = fsm.bl ∨
          cl ≠ 0 ∧ fsm.recv.state = .recvBody ∧
            fsm.recv.bl = toUInt32 (fsm.bl + cl)) := by
  obtain ⟨hstate, hlf⟩ := hat
  rw [recv, hstate]
  dsimp only
  rw [recvBodylen, if_pos hlf, takeSize]
  rw [terminate_mBuf, terminate_mLen, cstr_terminate]
  cases hsize : htoi (cString fsm.sizeText) (fsm.mLen - fsm.mBuf) with
  | none =>
      exact .inl ⟨rfl, (htoi_eq_none_iff (length_sizeText hlf)).mp hsize⟩
  | some cl =>
      refine .inr ⟨cl, rfl, ?_⟩
      dsimp only
      by_cases hzero : cl = 0
      · rw [if_pos hzero]
        exact .inl ⟨hzero, rfl, terminate_bl _ _⟩
      · rw [if_neg hzero]
        refine .inr ⟨hzero, rfl, ?_⟩
        rw [terminate_bl]

/-- Before its end a size line changes nothing. -/
theorem recv_insideSize (hstate : fsm.state = .recvBodylen)
    (hlf : fsm.recvLf = 0) (hnul : fsm.mP fsm.mLen = 0) : fsm.recv = fsm := by
  have hsemicolon : (0 : UInt8) ≠ semicolon := by decide
  simp [recv, hstate, recvBodylen, hlf, hnul, hsemicolon]

/-- The counter keeps the sum if and only if it is small enough. -/
theorem toUInt32_add_eq_iff {bl value : ℕ} :
    toUInt32 (bl + toInt value) = bl + value ↔ bl + value < 2 ^ 32 := by
  rw [toUInt32_add_toInt]
  constructor
  · intro hmod
    rw [← hmod]
    exact Nat.mod_lt _ (by decide)
  · exact Nat.mod_eq_of_lt

theorem toInt_ne_zero {value : ℕ} (hpos : value ≠ 0) (hlow : value < 2 ^ 32) :
    toInt value ≠ 0 := by
  intro hzero
  have hemod := toInt_emod value
  rw [hzero] at hemod
  omega

/-- The `int` a size line is read as. -/
theorem htoi_sizeText (hhex : IsHex fsm.sizeText) (hlf : fsm.recvLf ≠ 0) :
    htoi (cString fsm.sizeText) (fsm.mLen - fsm.mBuf) =
      some (toInt (hexValue fsm.sizeText)) := by
  rw [cString_of_isHex hhex]
  exact htoi_of_isHex hhex ((length_sizeText hlf).resolve_left hhex.1)

theorem sized_iff (hat : fsm.AtSizeEnd) :
    (fsm.recv.state = .recvBody ∨ fsm.recv.state = .recvFooter →
        fsm.Sized) ↔ WellSized fsm.bl fsm.sizeText := by
  rcases recv_atSizeEnd hat with ⟨herror, hnot⟩ | ⟨cl, hcl, houtcome⟩
  · rw [herror]
    exact iff_of_true (fun h => by simp at h) (.inr hnot)
  · have hvalue : IsHex fsm.sizeText → cl = toInt (hexValue fsm.sizeText) := by
      intro hhex
      rw [htoi_sizeText hhex hat.2] at hcl
      exact (Option.some.inj hcl).symm
    constructor
    · intro hsound
      rcases houtcome with ⟨-, hstate, -⟩ | ⟨-, hstate, hbl⟩
      · have hsized := hsound (.inr hstate)
        exact .inl ⟨hsized.isHex, .inl (hsized.footer hstate)⟩
      · have hsized := hsound (.inl hstate)
        rw [hvalue hsized.isHex, hsized.bl] at hbl
        exact .inl ⟨hsized.isHex, .inr (toUInt32_add_eq_iff.mp hbl.symm)⟩
    · rintro (⟨hhex, hfits⟩ | hnot) -
      · have hcl := hvalue hhex
        rcases houtcome with ⟨hzero, -, hbl⟩ | ⟨hpos, hstate, hbl⟩
        · have hempty : hexValue fsm.sizeText = 0 := by
            by_contra hpos
            have hlow := hfits.resolve_left hpos
            exact toInt_ne_zero hpos (by omega) (hcl.symm.trans hzero)
          exact ⟨hhex, by rw [hbl, hempty, Nat.add_zero], fun _ => hempty⟩
        · have hlow := hfits.resolve_left fun hempty => hpos (by
            rw [hcl, hempty]
            rfl)
          refine ⟨hhex, ?_, fun hfooter =>
            absurd (hstate.symm.trans hfooter) (by decide)⟩
          rw [hbl, hcl, toUInt32_add_eq_iff.mpr hlow]
      · rw [(htoi_eq_none_iff (length_sizeText hat.2)).mpr hnot] at hcl
        contradiction

end SizeLine

/-! ## The empty line of a header -/

section HeaderEnd

variable {fsm : HttpFSM}

theorem hdrint_eq_none_iff :
    fsm.hdrint "Content-Length" = none ↔ ∀ text, ¬fsm.Counted text := by
  unfold hdrint Counted
  cases hstr : fsm.hdrstr "Content-Length" 256 with
  | none => simp
  | some text =>
      dsimp only
      constructor
      · rintro hnone other ⟨hother, value, hstoi⟩
        rw [Option.some.injEq] at hother
        rw [hother, hstoi] at hnone
        contradiction
      · intro hall
        split
        case h_1 value hstoi => exact absurd ⟨rfl, value, hstoi⟩ (hall text)
        case h_2 => rfl

theorem hdrint_of_counted {text : Bytes} (hcounted : fsm.Counted text) :
    ∃ value, stoi text = some (value, []) ∧
      fsm.hdrint "Content-Length" = some value := by
  obtain ⟨hstr, value, hstoi⟩ := hcounted
  refine ⟨value, hstoi, ?_⟩
  unfold hdrint
  rw [hstr]
  dsimp only
  rw [hstoi]

theorem Counted.lengthText {text : Bytes} (hcounted : fsm.Counted text) :
    fsm.lengthText = some text := by
  have hfound := announced_of_findKey hcounted.1
  rw [List.map_map] at hfound
  exact hfound

/-- The header lines are behind the empty line what they were before. -/
theorem lengthText_endHeader (fsm : HttpFSM) :
    fsm.endHeader.lengthText = fsm.lengthText := by
  obtain ⟨version, res, mBuf, bd, bl, state, heq⟩ := endHeader_eq fsm
  rw [heq]
  rfl

theorem recv_atHeaderEnd (hat : fsm.AtHeaderEnd) :
    fsm.recv = (fsm.terminate fsm.recvLf).endHeader := by
  obtain ⟨hstate, hlf, hbuf⟩ := hat
  rw [recv, hstate]
  dsimp only
  rw [recvHeader, if_neg hlf]
  dsimp only
  rw [terminate_mLen, terminate_mBuf, if_pos hbuf]

/-- A `Content-Length` text that is read as a number. -/
theorem endHeader_of_counted {text : Bytes} (hcounted : fsm.Counted text) :
    fsm.endHeader.state = .recvBodyNochunk ∧
      ∃ value, stoi text = some (value, []) ∧
        fsm.endHeader.bl = toUInt32 value := by
  obtain ⟨value, hstoi, hint⟩ := hdrint_of_counted hcounted
  have hresult : fsm.setResult.hdrint "Content-Length" = some value := hint
  rw [endHeader, hresult]
  exact ⟨rfl, value, hstoi, rfl⟩

/-- No text is read as a number. -/
theorem endHeader_of_not_counted
    (hcounted : ∀ text, ¬fsm.Counted text) :
    fsm.endHeader.state ≠ .recvBodyNochunk ∧
      (fsm.endHeader.state = .error ↔ fsm.Unframed) := by
  have hint : fsm.setResult.hdrint "Content-Length" = none :=
    hdrint_eq_none_iff.mpr hcounted
  rw [endHeader, hint]
  dsimp only
  split
  case isTrue hchunked =>
    exact ⟨by simp, iff_of_false (by simp) fun h => h.1 hchunked⟩
  case isFalse hchunked =>
    split
    case isTrue hsocket =>
      refine ⟨by simp, iff_of_false (by simp) fun h => ?_⟩
      exact hsocket.elim (fun hkey => hkey h.2.1) fun haccept =>
        haccept h.2.2.1
    case isFalse hsocket =>
      rw [not_or, not_not, not_not] at hsocket
      split
      case isTrue hres =>
        exact ⟨by simp, iff_of_true rfl ⟨hchunked, hsocket.1, hsocket.2, hres⟩⟩
      case isFalse hres =>
        exact ⟨by simp, iff_of_false (by simp) fun h => hres h.2.2.2⟩

/-- The sizes read at the end of a header. -/
theorem counted_iff (hat : fsm.AtHeaderEnd) :
    ((fsm.recv.state = .recvBodyNochunk →
        ∃ text, fsm.recv.lengthText = some text ∧ IsDecimal text ∧
          fsm.recv.bl = decimalValue text) ∧
      (fsm.recv.lengthText ≠ none →
        fsm.recv.state = .recvBodyNochunk ∨ fsm.recv.state = .error)) ↔
      WellCounted (fsm.terminate fsm.recvLf) := by
  rw [recv_atHeaderEnd hat, lengthText_endHeader]
  generalize fsm.terminate fsm.recvLf = header
  by_cases hcounted : ∃ text, header.Counted text
  · obtain ⟨text, htext⟩ := hcounted
    obtain ⟨hstate, value, hstoi, hbl⟩ := endHeader_of_counted htext
    have hlength := htext.lengthText
    constructor
    · intro hsound other hother
      obtain ⟨read, hread, hdecimal, -⟩ := hsound.1 hstate
      rw [hlength, Option.some.injEq] at hread hother
      rw [← hother, hread]
      exact ⟨fun _ => hdecimal, fun hnot => absurd (hread ▸ htext) hnot⟩
    · intro hwell
      have hdecimal := (hwell text hlength).1 htext
      obtain ⟨hvalue, hlow⟩ := stoi_decimal hdecimal hstoi
      refine ⟨fun _ => ⟨text, hlength, hdecimal, ?_⟩, fun _ => .inl hstate⟩
      rw [hbl, hvalue, toUInt32]
      omega
  · have hnone : ∀ text, ¬header.Counted text := not_exists.mp hcounted
    obtain ⟨hstate, herror⟩ := endHeader_of_not_counted hnone
    constructor
    · intro hsound text htext
      refine ⟨fun h => absurd h (hnone text), fun _ => herror.mp ?_⟩
      exact (hsound.2 (by rw [htext]; exact Option.some_ne_none text)).resolve_left
        hstate
    · intro hwell
      refine ⟨fun h => absurd h hstate, fun hlength => .inr (herror.mpr ?_)⟩
      obtain ⟨text, htext⟩ := Option.ne_none_iff_exists'.mp hlength
      exact (hwell text htext).2 (hnone text)

end HeaderEnd

/-! ## Every byte of a stream -/

/-- Only at the end of a header a counted body begins. -/
theorem atHeaderEnd_of_nochunk {fsm : HttpFSM}
    (hstate : fsm.state ≠ .recvBodyNochunk)
    (hnext : fsm.recv.state = .recvBodyNochunk) : fsm.AtHeaderEnd := by
  have hbefore : ∀ state, State.recvBodyNochunk ∈ successors state →
      state = .recvHeader ∨ state = .recvBodyNochunk := by
    intro state
    cases state <;> decide
  have hheader : fsm.state = .recvHeader :=
    (hbefore _ (hnext ▸ recv_state fsm)).resolve_right hstate
  rw [recv, hheader] at hnext
  dsimp only at hnext
  rw [recvHeader] at hnext
  split at hnext
  case isTrue => exact absurd hnext hstate
  case isFalse hlf =>
    dsimp only at hnext
    rw [terminate_mLen, terminate_mBuf] at hnext
    split at hnext
    case isTrue hbuf => exact ⟨hheader, hlf, hbuf⟩
    case isFalse =>
      split at hnext
      · change (fsm.terminate fsm.recvLf).state = _ at hnext
        rw [terminate_state] at hnext
        exact absurd hnext hstate
      · simp at hnext

/-- A byte is framed if and only if the condition holds when it is handed to
the receiving function. -/
theorem framed_iff {fsm : HttpFSM} (hnul : fsm.mP fsm.mLen = 0) :
    Framed fsm ↔ WellFramed fsm := by
  constructor
  · intro hframed
    refine ⟨fun hat => ?_, fun hat => ?_⟩
    · have hstate : fsm.state ≠ .recvBodyNochunk := by
        rw [hat.1]
        decide
      exact (counted_iff hat).mp
        ⟨hframed.counted hstate, hframed.countedOrError hat⟩
    · exact (sized_iff hat).mp (hframed.sized hat.1)
  · intro hwell
    refine ⟨?_, ?_, ?_, ?_⟩
    · intro hstate hnext
      have hat := atHeaderEnd_of_nochunk hstate hnext
      exact ((counted_iff hat).mpr (hwell.counted hat)).1 hnext
    · exact fun hat => ((counted_iff hat).mpr (hwell.counted hat)).2
    · intro hstate htaken
      by_cases hlf : fsm.recvLf = 0
      · rw [recv_insideSize hstate hlf hnul, hstate] at htaken
        simp at htaken
      · exact (sized_iff ⟨hstate, hlf⟩).mpr (hwell.sized ⟨hstate, hlf⟩) htaken
    · intro hat
      rcases recv_atSizeEnd hat with ⟨herror, -⟩ | ⟨cl, -, houtcome⟩
      · exact .inr (.inr herror)
      · rcases houtcome with ⟨-, hfooter, -⟩ | ⟨-, hbody, -⟩
        · exact .inr (.inl hfooter)
        · exact .inl hbody

/-- The states handed to a receiving function. -/
def handed : Bytes → HttpFSM → List HttpFSM
  | [], _ => []
  | byte :: rest, fsm =>
      match fsm.state with
      | .error | .recvFinish | .websocketEstablish => []
      | _ => fsm.store byte :: handed rest (fsm.store byte).recv

/-- The states handed to a receiving function along a list of calls. -/
def handedAll : List Bytes → HttpFSM → List HttpFSM
  | [], _ => []
  | bytes :: calls, fsm =>
      fsm.handed bytes ++ handedAll calls (fsm.append bytes)

/-- A state is handed over with the NUL behind its content. -/
theorem mP_of_mem_handed {fsm stored : HttpFSM} {bytes : Bytes}
    (hstored : stored ∈ fsm.handed bytes) : stored.mP stored.mLen = 0 := by
  induction bytes generalizing fsm with
  | nil => exact absurd hstored List.not_mem_nil
  | cons byte rest ih =>
      rw [handed] at hstored
      split at hstored
      · exact absurd hstored List.not_mem_nil
      · exact absurd hstored List.not_mem_nil
      · exact absurd hstored List.not_mem_nil
      · rcases List.mem_cons.mp hstored with rfl | hlater
        · exact mP_store byte fsm
        · exact ih hlater

theorem mP_of_mem_handedAll {fsm stored : HttpFSM} {calls : List Bytes}
    (hstored : stored ∈ fsm.handedAll calls) :
    stored.mP stored.mLen = 0 := by
  induction calls generalizing fsm with
  | nil => exact absurd hstored List.not_mem_nil
  | cons bytes calls ih =>
      rcases List.mem_append.mp hstored with hhere | hlater
      · exact mP_of_mem_handed hhere
      · exact ih hlater

/-- For every stream, however it is cut into calls, all sizes are taken for
what they say or refused if and only if all size texts that are read as
numbers are such numbers. -/
theorem framing_sound (chunkSize : ℕ) (memory : ℕ → UInt8) (fsm : HttpFSM)
    (calls : List Bytes) :
    (∀ stored ∈ (fsm.reset chunkSize memory).handedAll calls,
        Framed stored) ↔
      ∀ stored ∈ (fsm.reset chunkSize memory).handedAll calls,
        WellFramed stored :=
  forall₂_congr fun _ hstored => framed_iff (mP_of_mem_handedAll hstored)

/-- A chunked body that begins with an empty size line. -/
def emptySize : Bytes :=
  ascii "GET / HTTP/1.1\r\nTransfer-Encoding: chunked\r\n\r\n\r\n"

theorem handedAll_emptySize :
    ((blank.reset 512 fun _ => 0).handedAll [emptySize]).getLast?.map
        (fun stored => (stored.state, stored.recvLf, stored.sizeText)) =
      some (.recvBodylen, 2, []) := by
  decide +kernel

/-- An empty size line is taken for the last chunk. -/
theorem framing_sound_fails :
    ¬∀ stored ∈ (blank.reset 512 fun _ => 0).handedAll [emptySize],
      Framed stored := by
  intro hall
  obtain ⟨stored, hlast, hstored⟩ :=
    Option.map_eq_some_iff.mp handedAll_emptySize
  rw [Prod.mk.injEq, Prod.mk.injEq] at hstored
  obtain ⟨hstate, hlf, htext⟩ := hstored
  have hmem := List.mem_of_getLast? hlast
  have hframed := (framed_iff (mP_of_mem_handedAll hmem)).mp (hall stored hmem)
  rcases hframed.sized ⟨hstate, by rw [hlf]; decide⟩ with hhex | hnot
  · exact hhex.1.1 htext
  · rw [htext] at hnot
    simp [NotHex, cString, unsigned] at hnot

end HttpFSM

end GrpcMtk.Http
