import Mathlib.Data.List.GetD
import Mathlib.Data.Nat.Digits.Defs
import GrpcMtk.Http.Text

/-!
# Writing a response

`WriteHeader` formats the status line and each header line into a buffer of
its own on the stack and copies as many bytes as `vsnprintf` returns, which is
the length of the whole text even where the buffer holds less.  The empty line
behind the header is part of the last header line.
-/

namespace GrpcMtk.Http

open GrpcMtk.Proto

/-- A NUL-terminated string. -/
structure CString where
  text : Bytes
  noNul : 0 ∉ text

/-- `grpc_http_header`. -/
structure HttpHeader where
  key : CString
  value : CString

/-- A slice of a `grpc_slice_buffer`.  Of the memory it was copied from
`stored` bytes had been stored. -/
structure Slice where
  bytes : Bytes
  stored : ℕ

/-- The bytes of a `grpc_slice_buffer`. -/
def bufferBytes (buffer : List Slice) : Bytes := buffer.flatMap Slice.bytes

/-- `%d`. -/
def decimal (value : ℤ) : Bytes :=
  (if value < 0 then [45] else []) ++
    (Nat.toDigits 10 value.natAbs).map fun char => UInt8.ofNat char.toNat

/-- `vsnprintf` of a formatted text into `max` bytes: what `b` holds then, and
the length of the text unless this is no `int`. -/
def vsnprintf (b : ℕ → UInt8) (max : ℕ) (text : Bytes) : (ℕ → UInt8) × ℤ :=
  (fun index =>
    if index < min text.length (max - 1) then text.getD index 0
    else if index = min text.length (max - 1) then 0
    else b index,
    if text.length < 2 ^ 31 then text.length else -1)

/-- `HttpServContext::MemFmt`, where the stack holds `b`.  The length is taken
for a `size_t`. -/
def memFmt (b : ℕ → UInt8) (text : Bytes) (max : ℕ) : Slice :=
  let (b, length) := vsnprintf b max text
  { bytes := (List.range (length % 2 ^ 64).toNat).map b
    stored := min text.length (max - 1) }

def memDupe (bytes : Bytes) : Slice where
  bytes
  stored := bytes.length

/-- `HTTP/1.1 %d`. -/
def statusLine (rc : Int32) : Bytes := ascii "HTTP/1.1 " ++ decimal rc.toInt

/-- `%s: %s`. -/
def HttpHeader.line (header : HttpHeader) : Bytes :=
  header.key.text ++ ascii ": " ++ header.value.text

/-- What the format has behind a header line. -/
def lineEnding (nHeader i : ℕ) : Bytes :=
  if (i : ℤ) = nHeader - 1 then crlf ++ crlf else crlf

/-- The loop of `WriteHeader`. -/
def writeLines (stack : ℕ → ℕ → UInt8) (nHeader : ℕ) :
    ℕ → List HttpHeader → List Slice → List Slice
  | _, [], buffer => buffer
  | i, header :: rest, buffer =>
      writeLines stack nHeader (i + 1) rest
        (buffer ++
          [memFmt (stack (i + 1)) (header.line ++ lineEnding nHeader i) 1024])

/-- `HttpServContext::WriteHeader`.  `stack` is what the stack holds at the
calls of `MemFmt`. -/
def writeHeader (stack : ℕ → ℕ → UInt8) (rc : Int32)
    (headers : List HttpHeader) (buffer : List Slice) : List Slice :=
  writeLines stack headers.length 0 headers
    (buffer ++ [memFmt (stack 0) (statusLine rc ++ crlf) 64])

def writeBody (body : Bytes) (buffer : List Slice) : List Slice :=
  buffer ++ [memDupe body]

/-! ## The head of a response -/

/-- The status line, the header lines and the empty line. -/
def responseHead (rc : Int32) (headers : List HttpHeader) : Bytes :=
  statusLine rc ++ crlf ++
    (headers.flatMap fun header => header.line ++ crlf) ++ crlf

/-- `WriteHeader` appends the head of the response, none of which is copied
from memory `vsnprintf` has not stored, and a body begins behind it. -/
structure Serialises (stack : ℕ → ℕ → UInt8) (rc : Int32)
    (headers : List HttpHeader) (buffer : List Slice) : Prop where
  head : ∃ slices, writeHeader stack rc headers buffer = buffer ++ slices ∧
    bufferBytes slices = responseHead rc headers ∧
    ∀ slice ∈ slices, slice.bytes.length ≤ slice.stored
  body : ∀ body,
    bufferBytes (writeBody body (writeHeader stack rc headers buffer)) =
      bufferBytes buffer ++ responseHead rc headers ++ body

/-- Every header line fits, with what the format has behind it, into the
buffer it is formatted into. -/
def LinesFit (headers : List HttpHeader) : Prop :=
  ∀ index header, headers[index]? = some header →
    (header.line ++ lineEnding headers.length index).length < 1024

section Formatting

variable {b : ℕ → UInt8} {text : Bytes} {max : ℕ}

/-- A text that fits is copied as it is. -/
theorem memFmt_of_fits (hmax : max ≤ 2 ^ 31) (hfits : text.length < max) :
    (memFmt b text max).bytes = text := by
  have hlength : ((text.length : ℤ) % 2 ^ 64).toNat = text.length := by omega
  have hkept : min text.length (max - 1) = text.length := by omega
  rw [memFmt, vsnprintf]
  dsimp only
  rw [if_pos (by omega), hlength, hkept]
  apply List.ext_getElem
  · simp
  · intro index hleft hright
    rw [List.getElem_map, List.getElem_range, if_pos hright,
      List.getD_eq_getElem _ _ hright]

/-- No more is copied than was stored if and only if the text fits. -/
theorem length_memFmt_le (hpos : 0 < max) (hmax : max ≤ 2 ^ 31) :
    (memFmt b text max).bytes.length ≤ (memFmt b text max).stored ↔
      text.length < max := by
  rw [memFmt, vsnprintf]
  dsimp only
  rw [List.length_map, List.length_range]
  split <;> omega

theorem length_decimal (value : Int32) : (decimal value.toInt).length ≤ 11 := by
  have hlow := value.le_toInt
  have hhigh := value.toInt_lt
  have hdigits := Nat.toDigits_length 10 value.toInt.natAbs 10 (by decide)
    (by omega)
  rw [decimal, List.length_append, List.length_map]
  split
  · rw [List.length_singleton]
    omega
  · rw [List.length_nil]
    omega

/-- The status line always fits. -/
theorem length_statusLine (rc : Int32) :
    (statusLine rc ++ crlf).length < 64 := by
  have hdecimal := length_decimal rc
  have hversion : (ascii "HTTP/1.1 ").length = 9 := rfl
  have hcrlf : crlf.length = 2 := rfl
  rw [List.length_append, statusLine, List.length_append]
  omega

end Formatting

section Lines

variable {stack : ℕ → ℕ → UInt8} {nHeader : ℕ}

/-- The slices of header lines from an index on. -/
def lineSlices (stack : ℕ → ℕ → UInt8) (nHeader i : ℕ)
    (headers : List HttpHeader) : List Slice :=
  headers.mapIdx fun index header =>
    memFmt (stack (i + index + 1))
      (header.line ++ lineEnding nHeader (i + index)) 1024

theorem lineSlices_cons (i : ℕ) (header : HttpHeader)
    (rest : List HttpHeader) :
    lineSlices stack nHeader i (header :: rest) =
      memFmt (stack (i + 1)) (header.line ++ lineEnding nHeader i) 1024 ::
        lineSlices stack nHeader (i + 1) rest := by
  rw [lineSlices, List.mapIdx_cons, lineSlices, Nat.add_zero]
  congr 2
  funext index header
  rw [Nat.add_right_comm i 1 index, Nat.add_assoc i index 1]

theorem writeLines_eq (i : ℕ) (headers : List HttpHeader)
    (buffer : List Slice) :
    writeLines stack nHeader i headers buffer =
      buffer ++ lineSlices stack nHeader i headers := by
  induction headers generalizing i buffer with
  | nil => exact (List.append_nil buffer).symm
  | cons header rest ih =>
      rw [writeLines, ih, lineSlices_cons, List.append_assoc,
        List.singleton_append]

/-- The lines that fit are copied one after the other, the last with the empty
line. -/
theorem bufferBytes_lineSlices {i : ℕ} {headers : List HttpHeader}
    (hnonempty : headers ≠ []) (hcount : i + headers.length = nHeader)
    (hfit : ∀ index header, headers[index]? = some header →
      (header.line ++ lineEnding nHeader (i + index)).length < 1024) :
    bufferBytes (lineSlices stack nHeader i headers) =
      (headers.flatMap fun header => header.line ++ crlf) ++ crlf := by
  induction headers generalizing i with
  | nil => exact absurd rfl hnonempty
  | cons header rest ih =>
      rw [List.length_cons] at hcount
      have hline := hfit 0 header rfl
      have hcopied := @memFmt_of_fits (stack (i + 1)) _ 1024 (by decide) hline
      rw [Nat.add_zero i] at hcopied
      rw [lineSlices_cons, bufferBytes, List.flatMap_cons, hcopied,
        List.flatMap_cons]
      cases rest with
      | nil =>
          have hlast : (i : ℤ) = nHeader - 1 := by
            rw [List.length_nil] at hcount
            omega
          rw [lineEnding, if_pos hlast]
          simp [lineSlices]
      | cons next rest =>
          have hinner : ¬(i : ℤ) = nHeader - 1 := by
            rw [List.length_cons] at hcount
            omega
          have hrest := @ih (i + 1) (List.cons_ne_nil _ _) (by omega)
            fun index other hother => by
              have hnext := hfit (index + 1) other hother
              rwa [← Nat.add_assoc, Nat.add_right_comm] at hnext
          rw [bufferBytes] at hrest
          rw [lineEnding, if_neg hinner, hrest, List.append_assoc,
            List.append_assoc, List.append_assoc]

theorem forall_mem_lineSlices {i : ℕ} {headers : List HttpHeader} :
    (∀ slice ∈ lineSlices stack nHeader i headers,
        slice.bytes.length ≤ slice.stored) ↔
      ∀ index header, headers[index]? = some header →
        (header.line ++ lineEnding nHeader (i + index)).length < 1024 := by
  have hslice (index : ℕ) (header : HttpHeader) :=
    @length_memFmt_le (stack (i + index + 1))
      (header.line ++ lineEnding nHeader (i + index)) 1024 (by decide)
      (by decide)
  constructor
  · intro hall index header hheader
    refine (hslice index header).mp (hall _ ?_)
    apply List.mem_iff_getElem?.mpr
    refine ⟨index, ?_⟩
    rw [lineSlices, List.getElem?_mapIdx, hheader, Option.map_some]
  · intro hfit slice hmem
    obtain ⟨index, hindex⟩ := List.mem_iff_getElem?.mp hmem
    rw [lineSlices, List.getElem?_mapIdx, Option.map_eq_some_iff] at hindex
    obtain ⟨header, hheader, rfl⟩ := hindex
    exact (hslice index header).mpr (hfit index header hheader)

end Lines

/-- The slices `WriteHeader` appends. -/
def headSlices (stack : ℕ → ℕ → UInt8) (rc : Int32)
    (headers : List HttpHeader) : List Slice :=
  memFmt (stack 0) (statusLine rc ++ crlf) 64 ::
    lineSlices stack headers.length 0 headers

section Heads

variable {stack : ℕ → ℕ → UInt8} {rc : Int32} {headers : List HttpHeader}

theorem writeHeader_eq (buffer : List Slice) :
    writeHeader stack rc headers buffer =
      buffer ++ headSlices stack rc headers := by
  rw [writeHeader, writeLines_eq, List.append_assoc, List.singleton_append,
    headSlices]

theorem forall_mem_headSlices :
    (∀ slice ∈ headSlices stack rc headers,
        slice.bytes.length ≤ slice.stored) ↔ LinesFit headers := by
  have hstatus := (@length_memFmt_le (stack 0) (statusLine rc ++ crlf) 64
    (by decide) (by decide)).mpr (length_statusLine rc)
  rw [headSlices, List.forall_mem_cons, forall_mem_lineSlices, LinesFit]
  simp only [Nat.zero_add]
  exact and_iff_right hstatus

theorem bufferBytes_headSlices (hnonempty : headers ≠ [])
    (hfit : LinesFit headers) :
    bufferBytes (headSlices stack rc headers) = responseHead rc headers := by
  have hlines := @bufferBytes_lineSlices stack headers.length 0 headers
    hnonempty (Nat.zero_add _) fun index header hheader => by
      rw [Nat.zero_add]
      exact hfit index header hheader
  have hstatus := @memFmt_of_fits (stack 0) _ 64 (by decide)
    (length_statusLine rc)
  rw [bufferBytes] at hlines
  rw [headSlices, bufferBytes, List.flatMap_cons, hstatus, hlines,
    responseHead, List.append_assoc (statusLine rc ++ crlf)]

/-- Without header lines there is no empty line either. -/
theorem bufferBytes_headSlices_nil :
    bufferBytes (headSlices stack rc []) ≠ responseHead rc [] := by
  intro hhead
  have hstatus := @memFmt_of_fits (stack 0) _ 64 (by decide)
    (length_statusLine rc)
  rw [headSlices, bufferBytes, List.flatMap_cons, hstatus, responseHead,
    List.flatMap_nil, List.append_nil] at hhead
  have hempty : ([] : Bytes) = crlf := List.append_cancel_left hhead
  exact absurd hempty (by decide)

theorem serialises_of_fits (hnonempty : headers ≠ [])
    (hfit : LinesFit headers) (buffer : List Slice) :
    Serialises stack rc headers buffer where
  head := ⟨headSlices stack rc headers, writeHeader_eq buffer,
    bufferBytes_headSlices hnonempty hfit, forall_mem_headSlices.mpr hfit⟩
  body body := by
    have hhead := @bufferBytes_headSlices stack rc headers hnonempty hfit
    rw [bufferBytes] at hhead
    rw [writeBody, writeHeader_eq, bufferBytes, List.flatMap_append,
      List.flatMap_append, hhead, List.flatMap_singleton]
    rfl

/-- `WriteHeader` writes the head of a response if and only if there is a
header line and every header line fits into the buffer it is formatted
into. -/
theorem serialises_iff (stack : ℕ → ℕ → UInt8) (rc : Int32)
    (headers : List HttpHeader) (buffer : List Slice) :
    Serialises stack rc headers buffer ↔
      headers ≠ [] ∧ LinesFit headers := by
  constructor
  · intro hserialises
    obtain ⟨slices, hslices, hhead, hstored⟩ := hserialises.head
    rw [writeHeader_eq] at hslices
    have heq := List.append_cancel_left hslices
    rw [← heq] at hhead hstored
    refine ⟨?_, forall_mem_headSlices.mp hstored⟩
    rintro rfl
    exact bufferBytes_headSlices_nil hhead
  · rintro ⟨hnonempty, hfit⟩
    exact serialises_of_fits hnonempty hfit buffer

end Heads

/-- The response to a request without a body has no empty line. -/
theorem serialises_fails :
    ¬Serialises (fun _ _ => 0) 200 [] [] := by
  rintro ⟨⟨slices, hslices, hhead, -⟩, -⟩
  rw [writeHeader_eq] at hslices
  have heq := List.append_cancel_left hslices
  rw [← heq] at hhead
  exact bufferBytes_headSlices_nil hhead

/-! ## `WriteResponse` -/

theorem nul_not_mem_decimal (value : ℕ) : 0 ∉ decimal value := by
  rw [decimal, if_neg (by omega), List.nil_append, Int.natAbs_natCast]
  intro hmem
  obtain ⟨char, hchar, hzero⟩ := List.mem_map.mp hmem
  have hdigit := Nat.isDigit_of_mem_toDigits (by decide) (by decide) hchar
  rw [Char.isDigit, Bool.and_eq_true, decide_eq_true_eq,
    decide_eq_true_eq] at hdigit
  have hlow : 48 ≤ char.toNat := hdigit.1
  have hhigh : char.toNat ≤ 57 := hdigit.2
  have hnat := congrArg UInt8.toNat hzero
  rw [UInt8.toNat_ofNat', UInt8.toNat_zero] at hnat
  omega

/-- The header line of a body of `l` bytes. -/
def lengthHeader (l : ℕ) : HttpHeader where
  key := ⟨ascii "Content-Length", by decide⟩
  value := ⟨decimal l, nul_not_mem_decimal l⟩

/-- `IResponseWriter::WriteResponse`. -/
def writeResponse (stack : ℕ → ℕ → UInt8) (p : Bytes) (buffer : List Slice) :
    List Slice :=
  writeBody p (writeHeader stack 200 [lengthHeader p.length] buffer)

/-- What the library itself writes is a whole response. -/
theorem bufferBytes_writeResponse (stack : ℕ → ℕ → UInt8) {p : Bytes}
    (hp : p.length < 2 ^ 64) (buffer : List Slice) :
    bufferBytes (writeResponse stack p buffer) =
      bufferBytes buffer ++ responseHead 200 [lengthHeader p.length] ++ p := by
  have hdigits := Nat.toDigits_length 10 p.length 20 (by decide) (by omega)
  have hdecimal : (decimal p.length).length ≤ 20 := by
    rwa [decimal, if_neg (by omega), List.nil_append, Int.natAbs_natCast,
      List.length_map]
  have hline : (lengthHeader p.length).line.length ≤ 36 := by
    have hkey : (lengthHeader p.length).key.text.length +
        (ascii ": ").length = 16 := rfl
    rw [HttpHeader.line, List.length_append, List.length_append, hkey]
    exact Nat.add_le_add_left hdecimal 16
  have hfit : LinesFit [lengthHeader p.length] := by
    intro index header hheader
    cases index with
    | zero =>
        rw [List.getElem?_cons_zero, Option.some.injEq] at hheader
        have hending : (lineEnding [lengthHeader p.length].length 0).length =
            4 := rfl
        rw [← hheader, List.length_append, hending]
        omega
    | succ index => simp at hheader
  exact (serialises_of_fits (List.cons_ne_nil _ _) hfit buffer).body p

end GrpcMtk.Http
