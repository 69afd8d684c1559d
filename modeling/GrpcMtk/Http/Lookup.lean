import GrpcMtk.Http.Accessors
import GrpcMtk.Http.Keys

/-!
# Header fields by name

`hdrstr` compares a key with the start of each line and does not look whether
the name of the line ends where the key does, so that "Accept" also takes the
line of `Accept-Encoding`.
-/

namespace GrpcMtk.Http

open GrpcMtk.Proto

/-- A header line of the form "name: value". -/
structure Field where
  name : Bytes
  value : Bytes
  name_token : ∀ byte ∈ name, byte ≠ colon ∧ byte ≠ space ∧ byte ≠ 0
  value_start : ∀ byte ∈ value.head?, isBlank byte = false
  value_noNul : 0 ∉ value
  short : name.length + 2 + value.length < 2 ^ 16

namespace Field

def text (field : Field) : Bytes :=
  field.name ++ colon :: space :: field.value

/-- The name of the line is the key in any letter case. -/
def Named (key : Bytes) (field : Field) : Prop :=
  field.name.map tolower = key.map tolower

instance (key : Bytes) (field : Field) : Decidable (field.Named key) :=
  inferInstanceAs (Decidable (_ = _))

/-- What a lookup by name is to return. -/
def lookup (key : Bytes) (l : ℕ) (fields : List Field) : Option Bytes :=
  ((fields.find? fun field => field.Named key).map value).filter
    fun value => value.length < l

end Field

/-- The line of which `hdrstr` takes the value. -/
def takenLine (key : Bytes) : List (Bytes × ℕ) → Option Bytes
  | [] => none
  | (line, hl) :: rest =>
      match matchKey hl 0 key line with
      | .mismatch => takenLine key rest
      | .tooLong => none
      | .found _ => some line

/-- A value is returned with its length and with a NUL behind it. -/
def Copied.Returns (copied : Copied) : Option Bytes → Prop
  | none => copied.outlen = none
  | some value =>
      copied = { written := value ++ [0], outlen := some value.length }

section Taken

variable {key : Bytes} {l : ℕ}

theorem copyKey_eq (lines : List (Bytes × ℕ)) :
    copyKey key l lines =
      match takenLine key lines with
      | none => { written := [], outlen := none }
      | some line =>
          copyValue l 0 ((line.drop key.length).dropWhile isBlank) := by
  induction lines with
  | nil => rfl
  | cons line rest ih =>
      obtain ⟨line, hlength⟩ := line
      rw [copyKey, takenLine]
      cases hmatch : matchKey hlength 0 key line with
      | mismatch => exact ih
      | tooLong => rfl
      | found text =>
          rw [matchKey_eq] at hmatch
          have htext : text = line.drop key.length := by
            split at hmatch
            · contradiction
            · split at hmatch
              · exact (KeyMatch.found.inj hmatch).symm
              · contradiction
          rw [htext]

theorem shared_le_length_text (key text : Bytes) :
    shared key text ≤ text.length := by
  induction key generalizing text with
  | nil => simp [shared]
  | cons k key ih =>
      cases text with
      | nil => simp [shared]
      | cons p text =>
          rw [shared, List.length_cons]
          split
          · exact Nat.succ_le_succ (ih text)
          · exact Nat.zero_le _

/-- What is copied is what the parser finds for itself. -/
theorem copyKey_returns (hl : 0 < l) (lines : List (Bytes × ℕ)) :
    (copyKey key l lines).Returns (findKey key l lines) := by
  induction lines with
  | nil => rfl
  | cons line rest ih =>
      obtain ⟨line, hlength⟩ := line
      rw [copyKey, findKey]
      cases matchKey hlength 0 key line with
      | mismatch => exact ih
      | tooLong => rfl
      | found text =>
          dsimp only
          rw [copyValue_eq hl, Nat.zero_add]
          split
          case isTrue hfits => rw [if_neg (Nat.not_le.mpr hfits)]; rfl
          case isFalse hlong => rw [if_pos (Nat.not_lt.mp hlong)]; rfl

/-- Among lines whose length is stored as it is, the first one that starts with
the key is taken. -/
theorem takenLine_eq_find {texts : List Bytes}
    (hshort : ∀ text ∈ texts, text.length < 2 ^ 16) :
    takenLine key (texts.map withLength) =
      texts.find? fun text => StartsWith key text := by
  induction texts with
  | nil => rfl
  | cons text rest ih =>
      rw [List.forall_mem_cons] at hshort
      have hshared := shared_le_length_text key text
      rw [List.map_cons, withLength, takenLine, matchKey_eq,
        Nat.mod_eq_of_lt hshort.1, if_neg (by omega)]
      by_cases hstarts : StartsWith key text
      · rw [if_pos (shared_eq_length.mpr hstarts), List.find?_cons,
          decide_eq_true hstarts]
      · rw [if_neg (fun hlength => hstarts (shared_eq_length.mp hlength)),
          List.find?_cons, decide_eq_false hstarts]
        exact ih hshort.2

end Taken

/-! ## Lines of the form "name: value" -/

theorem tolower_eq_colon {byte : UInt8} (hbyte : tolower byte = colon) :
    byte = colon := by
  unfold tolower at hbyte
  split at hbyte
  case isFalse => exact hbyte
  case isTrue hletter =>
    have hlow := UInt8.le_iff_toNat_le.mp hletter.1
    have hhigh := UInt8.le_iff_toNat_le.mp hletter.2
    have hsum := congrArg UInt8.toNat hbyte
    rw [UInt8.toNat_add] at hsum
    simp only [UInt8.reduceToNat, colon] at hlow hhigh hsum
    omega

namespace Field

variable {key : Bytes}

theorem length_text (field : Field) :
    field.text.length = field.name.length + 2 + field.value.length := by
  rw [text, List.length_append, List.length_cons, List.length_cons]
  omega

theorem name_eq_takeWhile (field : Field) :
    field.text.takeWhile (fun byte => byte ≠ colon) = field.name := by
  rw [text, List.takeWhile_append_of_pos, List.takeWhile_cons_of_neg,
    List.append_nil]
  · simp
  · exact fun byte hbyte => decide_eq_true (field.name_token byte hbyte).1

/-- A key without a colon can only agree with the name of a line. -/
theorem startsWith_text (hkey : colon ∉ key) (field : Field) :
    StartsWith key field.text ↔ StartsWith key field.name := by
  unfold StartsWith
  rw [text, List.map_append]
  refine ⟨fun htext => ?_, fun hname => hname.trans (List.prefix_append _ _)⟩
  rcases List.prefix_or_prefix_of_prefix htext (List.prefix_append _ _) with
    hname | ⟨rest, hrest⟩
  · exact hname
  · cases rest with
    | nil =>
        exact ⟨[], by rw [List.append_nil, ← hrest, List.append_nil]⟩
    | cons byte rest =>
        rw [← hrest, List.prefix_append_right_inj, List.map_cons,
          List.cons_prefix_cons] at htext
        have hmem : colon ∈ key.map tolower := by
          rw [← hrest, htext.1]
          exact List.mem_append_right _ List.mem_cons_self
        obtain ⟨byte, hbyte, hcolon⟩ := List.mem_map.mp hmem
        exact absurd (tolower_eq_colon hcolon ▸ hbyte) hkey

theorem Named.startsWith {field : Field} (hnamed : field.Named key) :
    StartsWith key field.name :=
  ⟨[], by rw [List.append_nil, hnamed]⟩

/-- Behind its name a line has its value. -/
theorem Named.value_eq {field : Field} (hnamed : field.Named key) :
    (field.text.drop key.length).dropWhile isBlank = field.value := by
  have hlength : key.length = field.name.length := by
    rw [← List.length_map tolower, ← hnamed, List.length_map]
  rw [text, hlength, List.drop_left, List.dropWhile_cons_of_pos (by decide),
    List.dropWhile_cons_of_pos (by decide)]
  have hstart := field.value_start
  cases hvalue : field.value with
  | nil => rfl
  | cons byte rest =>
      rw [hvalue] at hstart
      exact List.dropWhile_cons_of_neg (by simp [hstart byte rfl])

end Field

section Fields

variable {key : Bytes} {l : ℕ} {start : List Bytes} {fields : List Field}

/-- Behind lines that do not start with the key, the first line whose name
starts with it is taken. -/
theorem takenLine_fields (hkey : colon ∉ key)
    (hshort : ∀ text ∈ start, text.length < 2 ^ 16)
    (hstart : ∀ text ∈ start, ¬StartsWith key text) :
    takenLine key ((start ++ fields.map Field.text).map withLength) =
      (fields.find? fun field => StartsWith key field.name).map
        Field.text := by
  have htexts : ∀ text ∈ start ++ fields.map Field.text,
      text.length < 2 ^ 16 := by
    rw [List.forall_mem_append, List.forall_mem_map]
    exact ⟨hshort, fun field _ => field.length_text ▸ field.short⟩
  have hnone : (start.find? fun text => StartsWith key text) = none := by
    rw [List.find?_eq_none]
    simpa using hstart
  have hnames : ((fun text => decide (StartsWith key text)) ∘ Field.text) =
      fun field => decide (StartsWith key field.name) :=
    funext fun field => decide_eq_decide.mpr (field.startsWith_text hkey)
  rw [takenLine_eq_find htexts, List.find?_append, hnone, Option.none_or,
    List.find?_map, hnames]

/-- A line with exactly the name of the key is the first one whose name starts
with the key, if no other name merely starts with it. -/
theorem find_named (hfirst : ∀ field ∈ fields.find? fun field =>
      StartsWith key field.name, field.Named key) :
    fields.find? (fun field => field.Named key) =
      fields.find? fun field => StartsWith key field.name := by
  cases hfound : fields.find? fun field => StartsWith key field.name with
  | none =>
      rw [List.find?_eq_none] at hfound ⊢
      intro field hfield hnamed
      exact hfound field hfield
        (decide_eq_true (of_decide_eq_true hnamed).startsWith)
  | some field =>
      have hnamed := hfirst field hfound
      rw [List.find?_eq_some_iff_append] at hfound ⊢
      obtain ⟨-, before, after, hfields, hbefore⟩ := hfound
      refine ⟨decide_eq_true hnamed, before, after, hfields, ?_⟩
      intro other hother
      have hother := hbefore other hother
      rw [Bool.not_eq_true', decide_eq_false_iff_not] at hother ⊢
      exact fun hnamed => hother hnamed.startsWith

end Fields

namespace HttpFSM

variable {fsm : HttpFSM} {key : String} {l : ℕ} {start : List Bytes}
  {fields : List Field}

theorem copyHdrstr_returns_hdrstr (hl : 0 < l) (key : String)
    (fsm : HttpFSM) : (fsm.copyHdrstr key l).Returns (fsm.hdrstr key l) :=
  copyKey_returns hl _

/-- `hdrstr` returns the value of the first line named like its key, and takes
no other line, exactly if no line whose name merely starts with the key comes
first. -/
theorem copyHdrstr_returns_iff (hl : 0 < l) (hkey : colon ∉ ascii key)
    (hshort : ∀ text ∈ start, text.length < 2 ^ 16)
    (hstart : ∀ text ∈ start, ¬StartsWith (ascii key) text)
    (htable : fsm.table = (start ++ fields.map Field.text).map withLength) :
    (fsm.copyHdrstr key l).Returns (Field.lookup (ascii key) l fields) ∧
        (∀ field ∈ fields, takenLine (ascii key) fsm.table = some field.text →
          field.Named (ascii key)) ↔
      ∀ field ∈ fields.find? fun field => StartsWith (ascii key) field.name,
        field.Named (ascii key) := by
  have htaken : takenLine (ascii key) fsm.table = _ :=
    htable ▸ takenLine_fields hkey hshort hstart
  constructor
  · rintro ⟨-, hnever⟩ field hfield
    rw [Option.mem_def.mp hfield] at htaken
    exact hnever field (List.mem_of_find?_eq_some hfield) htaken
  · intro hfirst
    have hcopied : fsm.copyHdrstr key l = _ := copyKey_eq fsm.table
    rw [Field.lookup, find_named hfirst, hcopied, htaken]
    cases hfound : fields.find? fun field =>
        StartsWith (ascii key) field.name with
    | none => exact ⟨rfl, nofun⟩
    | some field =>
        have hnamed := hfirst field hfound
        refine ⟨?_, fun other hother htext => ?_⟩
        · rw [Option.map_some]
          dsimp only
          rw [hnamed.value_eq, copyValue_eq hl, Nat.zero_add,
            Option.map_some, Option.filter_some]
          split
          case isTrue hfits => rw [if_pos (decide_eq_true hfits)]; rfl
          case isFalse hlong => rw [if_neg (by simpa using hlong)]; rfl
        · have hsame := Option.some.inj htext
          rw [Field.Named, ← other.name_eq_takeWhile, ← hsame,
            field.name_eq_takeWhile]
          exact hnamed

private def acceptField : Field where
  name := ascii "Accept"
  value := ascii "text/html"
  name_token := by decide +kernel
  value_start := by decide +kernel
  value_noNul := by decide +kernel
  short := by decide

private def encodingField : Field where
  name := ascii "Accept-Encoding"
  value := ascii "gzip"
  name_token := by decide +kernel
  value_start := by decide +kernel
  value_noNul := by decide +kernel
  short := by decide

/-- A parser that has received a request with both fields. -/
private def accepting : HttpFSM :=
  (blank.reset 512 fun _ => 0).append
    (ascii "GET / HTTP/1.1\r\n" ++ ascii "Accept: text/html\r\n" ++
      ascii "Accept-Encoding: gzip\r\n\r\n")

/-- A parser that has received a request without an `Accept` field. -/
private def encoding : HttpFSM :=
  (blank.reset 512 fun _ => 0).append
    (ascii "GET / HTTP/1.1\r\nAccept-Encoding: gzip\r\n\r\n")

theorem copyHdrstr_returns_iff_accepting :
    (accepting.copyHdrstr "Accept" 256).Returns
          (Field.lookup (ascii "Accept") 256 [acceptField, encodingField]) ∧
        (∀ field ∈ [acceptField, encodingField],
          takenLine (ascii "Accept") accepting.table = some field.text →
            field.Named (ascii "Accept")) ↔
      ∀ field ∈ [acceptField, encodingField].find? fun field =>
          StartsWith (ascii "Accept") field.name,
        field.Named (ascii "Accept") :=
  @copyHdrstr_returns_iff accepting "Accept" 256 [ascii "GET / HTTP/1.1"]
    [acceptField, encodingField] (by decide) (by decide) (by decide)
    (by decide) (by decide +kernel)

/-- The value of `Accept-Encoding` is returned for "Accept". -/
theorem copyHdrstr_returns_iff_fails :
    encoding.table =
        ([ascii "GET / HTTP/1.1"] ++ [encodingField].map Field.text).map
          withLength ∧
      ¬((encoding.copyHdrstr "Accept" 256).Returns
          (Field.lookup (ascii "Accept") 256 [encodingField]) ∧
        ∀ field ∈ [encodingField],
          takenLine (ascii "Accept") encoding.table = some field.text →
            field.Named (ascii "Accept")) := by
  refine ⟨by decide +kernel, fun h => ?_⟩
  have hlookup : Field.lookup (ascii "Accept") 256 [encodingField] = none := by
    decide
  have houtlen : (encoding.copyHdrstr "Accept" 256).outlen = some 15 := by
    decide +kernel
  have hreturns := h.1
  rw [hlookup, Copied.Returns, houtlen] at hreturns
  contradiction

end HttpFSM

end GrpcMtk.Http
