import Mathlib.Algebra.BigOperators.Group.List.Basic
import Mathlib.Data.List.Nodup
import GrpcMtk.Core.Wire

/-!
# Fields of messages

What a code generator makes of the fields of a message: a writer that leaves
out a field with its default, the size of what it writes, a merge, and a loop
that reads fields in any order and skips those it does not know.  The loop takes
what was written for a merge, in whatever order it comes and whatever follows.
-/

namespace GrpcMtk.Wire

/-- A field of a message.  `content` is what is written behind the tag, if the
field is not left out, and `size` what both take; `read` takes the content from
the bytes, and `merge` the field from the second message, if it is there. -/
structure Field (Message : Type) where
  number : ℕ
  wireType : ℕ
  content : Message → Option (List UInt8)
  size : Message → ℕ
  read : Message → List UInt8 → Option (Message × List UInt8)
  merge : Message → Message → Message

/-- What a reader leaves.  `lastTag` is the tag that has stopped it, if the
bytes were not over. -/
structure Parsed (Message : Type) where
  message : Message
  lastTag : Option ℕ
  rest : List UInt8
  deriving DecidableEq, Repr

def Field.tag {Message : Type} (field : Field Message) : ℕ :=
  field.number * 8 + field.wireType

/-- The field with the number of a tag, if the tag is the one of the field. -/
def lookup {Message : Type} (fields : List (Field Message)) (tag : ℕ) :
    Option (Field Message) :=
  fields.find? fun field => field.number = tag / 8 ∧ field.tag = tag % 2 ^ 8

section Generated

variable {Message : Type} (wire : Wire)

def writeField (message : Message) (field : Field Message) : List UInt8 :=
  match field.content message with
  | none => []
  | some content => wire.writeVarint field.tag ++ content

def serialize (fields : List (Field Message)) (message : Message) :
    List UInt8 :=
  fields.flatMap (wire.writeField message)

def byteSize (fields : List (Field Message)) (message : Message) : ℕ :=
  fields.foldr (fun field size => field.size message + size) 0

def merge (fields : List (Field Message)) (base message : Message) : Message :=
  fields.foldl (fun base field => field.merge base message) base

/-- The loop, with a bound on how many fields it reads. -/
def parseWithin (fields : List (Field Message)) :
    ℕ → Message → List UInt8 → Option (Parsed Message)
  | 0, _, _ => none
  | _ + 1, message, [] => some ⟨message, none, []⟩
  | fuel + 1, message, byte :: bytes =>
      match wire.readTag (byte :: bytes) with
      | none => none
      | some (tag, rest) =>
          match lookup fields tag with
          | some field =>
              match field.read message rest with
              | none => none
              | some (message, rest) => parseWithin fields fuel message rest
          | none =>
              if tag = 0 ∨ tag % 8 = 4 then some ⟨message, some tag, rest⟩
              else
                match wire.skipField tag rest with
                | none => none
                | some rest => parseWithin fields fuel message rest

/-- Every field takes a byte at least, so the bound is never met. -/
def parse (fields : List (Field Message)) (message : Message)
    (bytes : List UInt8) : Option (Parsed Message) :=
  wire.parseWithin fields (bytes.length + 1) message bytes

end Generated

/-! ## The kinds of fields -/

/-- How the values of a type stand in a varint; one of them is left out. -/
structure Scalar (Value : Type) where
  default : Value
  encode : Value → ℕ
  decode : ℕ → Value
  Fits : Value → Prop
  encode_lt : ∀ value, Fits value → encode value < 2 ^ 64
  decode_encode : ∀ value, Fits value → decode (encode value) = value

namespace Scalar

def uint64 : Scalar ℕ where
  default := 0
  encode value := value
  decode n := n
  Fits value := value < 2 ^ 64
  encode_lt _ hfits := hfits
  decode_encode _ _ := rfl

/-- A longer number is cut to its low bits. -/
def uint32 : Scalar ℕ where
  default := 0
  encode value := value
  decode n := n % 2 ^ 32
  Fits value := value < 2 ^ 32
  encode_lt _ hfits := Nat.lt_trans hfits (by decide)
  decode_encode _ hfits := Nat.mod_eq_of_lt hfits

/-- A negative number is written with its sign in all 64 bits. -/
def int32 : Scalar ℤ where
  default := 0
  encode value := (value % 2 ^ 64).toNat
  decode n := Int.bmod n (2 ^ 32)
  Fits value := -2 ^ 31 ≤ value ∧ value < 2 ^ 31
  encode_lt value _ := by omega
  decode_encode value hfits := by
    rw [Int.bmod_def]
    omega

end Scalar

section Kinds

variable {Message Value Sub : Type} (wire : Wire) (number : ℕ)

/-- A field in a varint. -/
def Field.scalar [DecidableEq Value] (scalar : Scalar Value)
    (get : Message → Value) (set : Value → Message → Message) :
    Field Message where
  number
  wireType := 0
  content message :=
    if get message = scalar.default then none
    else some (wire.writeVarint (scalar.encode (get message)))
  size message :=
    if get message = scalar.default then 0
    else 1 + wire.varintSize (scalar.encode (get message))
  read message bytes :=
    (wire.readVarint bytes).map fun read =>
      (set (scalar.decode read.1) message, read.2)
  merge base message :=
    if get message = scalar.default then base else set (get message) base

/-- A field of bytes. -/
def Field.bytes (get : Message → List UInt8)
    (set : List UInt8 → Message → Message) : Field Message where
  number
  wireType := 2
  content message :=
    if get message = [] then none else some (wire.writeBytes (get message))
  size message :=
    if get message = [] then 0
    else 1 + (wire.varintSize (get message).length + (get message).length)
  read message bytes :=
    (wire.readBytes bytes).map fun read => (set read.1 message, read.2)
  merge base message :=
    if get message = [] then base else set (get message) base

/-- A message in a message.  It is read to its end, into the one that is there
or into a blank one. -/
def Field.message (fields packed : List (Field Sub)) (blank : Sub)
    (get : Message → Option Sub) (set : Sub → Message → Message) :
    Field Message where
  number
  wireType := 2
  content message :=
    (get message).map fun sub =>
      wire.writeVarint (byteSize packed sub) ++ wire.serialize fields sub
  size message :=
    match get message with
    | none => 0
    | some sub =>
        1 + (wire.varintSize (byteSize packed sub) + byteSize packed sub)
  read message bytes :=
    match wire.readBytes bytes with
    | none => none
    | some (content, rest) =>
        match wire.parse fields ((get message).getD blank) content with
        | some ⟨sub, none, _⟩ => some (set sub message, rest)
        | _ => none
  merge base message :=
    match get message with
    | none => base
    | some sub => set (Wire.merge packed ((get base).getD blank) sub) base

end Kinds

/-! ## Layouts -/

/-- A field is written as it is sized, and read as it is merged. -/
structure Field.Lawful {Message : Type} (valid : Message → Prop)
    (field : Field Message) : Prop where
  wireType : field.wireType < 8
  tag : field.tag < 128
  size : ∀ message, valid message → field.size message =
    match field.content message with
    | none => 0
    | some content => 1 + content.length
  kept : ∀ base message, field.content message = none →
    field.merge base message = base
  read : ∀ base message content rest, valid message →
    field.content message = some content →
      field.read base (content ++ rest) =
        some (field.merge base message, rest)
  shrinks : ∀ message bytes next rest,
    field.read message bytes = some (next, rest) →
      rest.length ≤ bytes.length

/-- The order in which two fields are merged does not matter. -/
def Field.Commutes {Message : Type} (field other : Field Message) : Prop :=
  ∀ base message, other.merge (field.merge base message) message =
    field.merge (other.merge base message) message

theorem pairwise_four {Message : Type} {R : Message → Message → Prop}
    {first second third fourth : Message} (hfirst_second : R first second)
    (hfirst_third : R first third) (hfirst_fourth : R first fourth)
    (hsecond_third : R second third) (hsecond_fourth : R second fourth)
    (hthird_fourth : R third fourth) :
    [first, second, third, fourth].Pairwise R := by
  simp [*]

/-- The fields of a message, in the order in which they are written, and in that
in which they are sized and merged. -/
structure Layout (Message : Type) where
  fields : List (Field Message)
  packed : List (Field Message)
  Valid : Message → Prop
  lawful : ∀ field ∈ fields, field.Lawful Valid
  distinct : (fields.map Field.number).Nodup
  packed_perm : packed.Perm fields
  commutes : fields.Pairwise Field.Commutes
  blank : Message
  merge_blank : ∀ message, merge packed blank message = message

/-- What stands on the wire for a message: a field of it, or one that its reader
does not know. -/
inductive Piece (Message : Type) where
  | known (field : Field Message)
  | unknown (tag : ℕ) (content : List UInt8)

namespace Piece

variable {Message : Type}

def field? : Piece Message → Option (Field Message)
  | known field => some field
  | unknown _ _ => none

def write (wire : Wire) (message : Message) : Piece Message → List UInt8
  | known field => wire.writeField message field
  | unknown tag content => wire.writeVarint tag ++ content

end Piece

/-- A reader of these fields skips the content behind the tag. -/
def Skipped {Message : Type} (wire : Wire) (fields : List (Field Message))
    (tag : ℕ) (content : List UInt8) : Prop :=
  tag < 2 ^ 32 ∧ tag ≠ 0 ∧ tag % 8 ≠ 4 ∧
    tag / 8 ∉ fields.map Field.number ∧
    ∀ rest, wire.skipField tag (content ++ rest) = some rest

/-! ## What is written is read -/

section Layout

variable {wire : Wire} {Message : Type} (layout : Layout Message)
variable {base message : Message}

theorem length_serialize (hvalid : layout.Valid message) :
    (wire.serialize layout.fields message).length =
      byteSize layout.packed message := by
  have hfields {part : List (Field Message)}
      (hpart : ∀ field ∈ part, field.Lawful layout.Valid) :
      (wire.serialize part message).length = byteSize part message := by
    induction part with
    | nil => rfl
    | cons field part ih =>
        have hlawful := hpart field List.mem_cons_self
        have hrest := ih fun other hother =>
          hpart other (List.mem_cons_of_mem _ hother)
        have hfield :
            (wire.writeField message field).length = field.size message := by
          have htag := hlawful.tag
          rw [hlawful.size message hvalid, writeField]
          cases field.content message with
          | none => rfl
          | some content =>
              dsimp only
              rw [List.length_append, wire.length_writeVarint _ (by omega),
                wire.varintSize_small _ htag]
        rw [serialize, List.flatMap_cons, List.length_append, hfield]
        exact congrArg (field.size message + ·) hrest
  rw [hfields layout.lawful]
  exact (layout.packed_perm.foldr_eq' (fun field _ other _ size =>
    Nat.add_left_comm (other.size message) (field.size message) size) 0).symm

/-- The order of the fields does not matter to a merge. -/
theorem merge_perm {part : List (Field Message)}
    (hperm : part.Perm layout.fields) :
    merge part base message = merge layout.packed base message := by
  have hcommutes := List.Pairwise.forall_of_forall_of_flip
    (fun _ _ _ _ => rfl) layout.commutes
    (layout.commutes.imp fun hpair base message => (hpair base message).symm)
  refine (hperm.trans layout.packed_perm.symm).foldl_eq'
    (fun field hfield other hother base => ?_) base
  exact hcommutes (hperm.subset hfield) (hperm.subset hother) base message

theorem parse_nil (fields : List (Field Message)) (message : Message) :
    wire.parse fields message [] = some ⟨message, none, []⟩ := rfl

/-- How far the loop may go does not matter, if it may go to the end. -/
theorem parseWithin_eq {fuel fuel' : ℕ} {bytes : List UInt8}
    (hfuel : bytes.length < fuel) (hfuel' : bytes.length < fuel') :
    wire.parseWithin layout.fields fuel message bytes =
      wire.parseWithin layout.fields fuel' message bytes := by
  induction fuel generalizing fuel' message bytes with
  | zero => exact absurd hfuel (Nat.not_lt_zero _)
  | succ fuel ih =>
      cases fuel' with
      | zero => exact absurd hfuel' (Nat.not_lt_zero _)
      | succ fuel' =>
          cases bytes with
          | nil => rfl
          | cons byte bytes =>
              rw [parseWithin, parseWithin]
              cases htag : wire.readTag (byte :: bytes) with
              | none => rfl
              | some read =>
                  obtain ⟨tag, rest⟩ := read
                  have hrest := wire.readTag_shrinks _ _ _ htag
                  dsimp only
                  split
                  case h_1 field hfield =>
                    have hlawful :=
                      layout.lawful field (List.mem_of_find?_eq_some hfield)
                    cases hread : field.read message rest with
                    | none => rfl
                    | some next =>
                        have hshrinks :=
                          hlawful.shrinks _ _ _ _ hread
                        exact ih (by omega) (by omega)
                  case h_2 =>
                    split
                    · rfl
                    · cases hskip : wire.skipField tag rest with
                      | none => rfl
                      | some left =>
                          have hshrinks := wire.skipField_shrinks _ _ _ hskip
                          exact ih (by omega) (by omega)

/-- One turn of the loop. -/
theorem parse_cons {tag : ℕ} {bytes rest : List UInt8}
    (hread : wire.readTag bytes = some (tag, rest)) :
    wire.parse layout.fields base bytes =
      match lookup layout.fields tag with
      | some field =>
          match field.read base rest with
          | none => none
          | some (next, rest) => wire.parse layout.fields next rest
      | none =>
          if tag = 0 ∨ tag % 8 = 4 then some ⟨base, some tag, rest⟩
          else
            match wire.skipField tag rest with
            | none => none
            | some rest => wire.parse layout.fields base rest := by
  have hrest := wire.readTag_shrinks _ _ _ hread
  cases bytes with
  | nil => exact absurd hrest (Nat.not_lt_zero _)
  | cons byte bytes =>
      have hgoes {next : Message} {left : List UInt8}
          (hleft : left.length ≤ rest.length) :
          wire.parseWithin layout.fields (byte :: bytes).length next left =
            wire.parse layout.fields next left :=
        parseWithin_eq layout (Nat.lt_of_le_of_lt hleft hrest)
          (Nat.lt_succ_self _)
      rw [parse, parseWithin, hread]
      dsimp only
      split
      case h_1 field hfield =>
        have hlawful :=
          layout.lawful field (List.mem_of_find?_eq_some hfield)
        cases hnext : field.read base rest with
        | none => rfl
        | some next => exact hgoes (hlawful.shrinks _ _ _ _ hnext)
      case h_2 =>
        split
        · rfl
        · cases hskip : wire.skipField tag rest with
          | none => rfl
          | some left => exact hgoes (wire.skipField_shrinks _ _ _ hskip)

/-- A tag finds its field. -/
theorem lookup_tag {field : Field Message} (hfield : field ∈ layout.fields) :
    lookup layout.fields field.tag = some field := by
  have hlawful := layout.lawful field hfield
  have hwire := hlawful.wireType
  have htag := hlawful.tag
  have hnumber : field.tag / 8 = field.number := by
    rw [Field.tag]
    omega
  have hlow : field.tag % 2 ^ 8 = field.tag := Nat.mod_eq_of_lt (by omega)
  rw [lookup, hnumber, hlow]
  cases hfound : layout.fields.find? fun other =>
      other.number = field.number ∧ other.tag = field.tag with
  | none =>
      exact absurd (List.find?_eq_none.mp hfound field hfield) (by simp)
  | some other =>
      have hsame : other.number = field.number ∧ other.tag = field.tag := by
        simpa using List.find?_some hfound
      exact congrArg some (List.inj_on_of_nodup_map layout.distinct
        (List.mem_of_find?_eq_some hfound) hfield hsame.1)

/-- A field that was written is read, whatever was read before and whatever
follows. -/
theorem parse_field (hvalid : layout.Valid message) {field : Field Message}
    (hfield : field ∈ layout.fields) (rest : List UInt8) :
    wire.parse layout.fields base (wire.writeField message field ++ rest) =
      wire.parse layout.fields (field.merge base message) rest := by
  have hlawful := layout.lawful field hfield
  have htag := hlawful.tag
  rw [writeField]
  cases hcontent : field.content message with
  | none => rw [hlawful.kept base message hcontent, List.nil_append]
  | some content =>
      have hread := wire.readTag_write field.tag (by omega) (content ++ rest)
      dsimp only
      rw [List.append_assoc, parse_cons layout hread,
        lookup_tag layout hfield]
      dsimp only
      rw [hlawful.read base message content rest hvalid hcontent]

/-- A field that nobody knows is skipped. -/
theorem parse_unknown {tag : ℕ} {content : List UInt8}
    (hskipped : Skipped wire layout.fields tag content)
    (rest : List UInt8) :
    wire.parse layout.fields base (wire.writeVarint tag ++ content ++ rest) =
      wire.parse layout.fields base rest := by
  obtain ⟨htag, hzero, hgroup, hunknown, hskip⟩ := hskipped
  have hread := wire.readTag_write tag htag (content ++ rest)
  have hnone : lookup layout.fields tag = none := by
    refine List.find?_eq_none.mpr fun field hfield hfound => hunknown ?_
    have hnumber : field.number = tag / 8 := (of_decide_eq_true hfound).1
    exact hnumber ▸ List.mem_map_of_mem hfield
  rw [List.append_assoc, parse_cons layout hread, hnone]
  dsimp only
  rw [if_neg (not_or.mpr ⟨hzero, hgroup⟩), hskip]

/-- What was written is read as it is merged, field by field. -/
theorem parse_pieces (hvalid : layout.Valid message)
    {pieces : List (Piece Message)}
    (hknown : ∀ field ∈ pieces.filterMap Piece.field?, field ∈ layout.fields)
    (hskipped : ∀ tag content, .unknown tag content ∈ pieces →
      Skipped wire layout.fields tag content) (rest : List UInt8) :
    wire.parse layout.fields base
        (pieces.flatMap (Piece.write wire message) ++ rest) =
      wire.parse layout.fields
        (merge (pieces.filterMap Piece.field?) base message) rest := by
  induction pieces generalizing base with
  | nil => rfl
  | cons piece pieces ih =>
      have hskipped' := fun tag content hmem =>
        hskipped tag content (List.mem_cons_of_mem _ hmem)
      rw [List.flatMap_cons, List.append_assoc]
      cases piece with
      | known field =>
          have hfield := hknown field List.mem_cons_self
          rw [Piece.write, parse_field layout hvalid hfield]
          exact ih (fun other hother =>
            hknown other (List.mem_cons_of_mem _ hother)) hskipped'
      | unknown tag content =>
          rw [Piece.write,
            parse_unknown layout (hskipped tag content List.mem_cons_self)]
          exact ih hknown hskipped'

/-- The fields may come in any order, with others between them. -/
theorem parse_shuffled (hvalid : layout.Valid message)
    {pieces : List (Piece Message)}
    (hperm : (pieces.filterMap Piece.field?).Perm layout.fields)
    (hskipped : ∀ tag content, .unknown tag content ∈ pieces →
      Skipped wire layout.fields tag content) (rest : List UInt8) :
    wire.parse layout.fields base
        (pieces.flatMap (Piece.write wire message) ++ rest) =
      wire.parse layout.fields (merge layout.packed base message) rest := by
  rw [parse_pieces layout hvalid (fun field hfield => hperm.subset hfield)
    hskipped, merge_perm layout hperm]

theorem parse_serialize (hvalid : layout.Valid message)
    (rest : List UInt8) :
    wire.parse layout.fields base
        (wire.serialize layout.fields message ++ rest) =
      wire.parse layout.fields (merge layout.packed base message) rest := by
  have hpieces : wire.serialize layout.fields message =
      (layout.fields.map Piece.known).flatMap (Piece.write wire message) := by
    rw [List.flatMap_map]
    rfl
  have hknown : (layout.fields.map Piece.known).filterMap Piece.field? =
      layout.fields := by
    rw [List.filterMap_map]
    exact List.filterMap_some
  have hskipped : ∀ tag content,
      Piece.unknown tag content ∈ layout.fields.map Piece.known →
        Skipped wire layout.fields tag content := by
    simp
  rw [hpieces]
  exact parse_shuffled layout hvalid (List.Perm.of_eq hknown) hskipped rest

end Layout

/-! ## Readers of the same bytes -/

section Map

variable {wire : Wire} {Message Other : Type} {f : Message → Other}

/-- A field of two messages that is read alike. -/
def Field.Maps (f : Message → Other) (field : Field Message)
    (other : Field Other) : Prop :=
  field.number = other.number ∧ field.tag = other.tag ∧
    ∀ message bytes, other.read (f message) bytes =
      (field.read message bytes).map (Prod.map f id)

def Parsed.map (f : Message → Other) (parsed : Parsed Message) :
    Parsed Other :=
  ⟨f parsed.message, parsed.lastTag, parsed.rest⟩

theorem lookup_maps {fields : List (Field Message)}
    {others : List (Field Other)}
    (hmaps : List.Forall₂ (Field.Maps f) fields others) (tag : ℕ) :
    Option.Rel (Field.Maps f) (lookup fields tag) (lookup others tag) := by
  induction hmaps with
  | nil => exact .none
  | @cons field other fields others hfield _ ih =>
      rw [lookup, lookup, List.find?_cons, List.find?_cons, hfield.1,
        hfield.2.1]
      split
      · exact .some hfield
      · exact ih

/-- Two readers with fields alike read alike. -/
theorem parse_map {fields : List (Field Message)}
    {others : List (Field Other)}
    (hmaps : List.Forall₂ (Field.Maps f) fields others) (message : Message)
    (bytes : List UInt8) :
    wire.parse others (f message) bytes =
      (wire.parse fields message bytes).map (Parsed.map f) := by
  suffices hwithin : ∀ fuel message bytes,
      wire.parseWithin others fuel (f message) bytes =
        (wire.parseWithin fields fuel message bytes).map (Parsed.map f) from
    hwithin _ message bytes
  intro fuel
  induction fuel with
  | zero => exact fun _ _ => rfl
  | succ fuel ih =>
      intro message bytes
      cases bytes with
      | nil => rfl
      | cons byte bytes =>
          rw [parseWithin, parseWithin]
          cases wire.readTag (byte :: bytes) with
          | none => rfl
          | some read =>
              obtain ⟨tag, rest⟩ := read
              have hlookup := lookup_maps hmaps tag
              dsimp only
              generalize lookup fields tag = field at hlookup ⊢
              generalize lookup others tag = other at hlookup ⊢
              cases hlookup with
              | none =>
                  dsimp only
                  split
                  · rfl
                  · cases wire.skipField tag rest with
                    | none => rfl
                    | some left => exact ih message left
              | some hfield =>
                  dsimp only
                  rw [hfield.2.2]
                  cases Field.read _ message rest with
                  | none => rfl
                  | some next => exact ih next.1 next.2

end Map

/-! ## The kinds of fields are lawful -/

section Kinds

variable {wire : Wire} {number : ℕ} {Message Value Sub : Type}
variable {Valid : Message → Prop}

theorem scalar_lawful [DecidableEq Value]
    {scalar : Scalar Value} {get : Message → Value}
    {set : Value → Message → Message} (hnumber : number < 16)
    (hfits : ∀ message, Valid message → scalar.Fits (get message)) :
    (Field.scalar wire number scalar get set).Lawful Valid where
  wireType := (by decide : 0 < 8)
  tag := by
    change number * 8 + 0 < 128
    omega
  size message hvalid := by
    have hlength := wire.length_writeVarint _
      (scalar.encode_lt _ (hfits message hvalid))
    dsimp only [Field.scalar]
    split
    · rfl
    · dsimp only
      rw [hlength]
  kept base message hnone := by
    dsimp only [Field.scalar] at hnone ⊢
    split at hnone
    case isTrue hzero => rw [if_pos hzero]
    case isFalse => contradiction
  read base message content rest hvalid hsome := by
    have hwritten := wire.readVarint_write _
      (scalar.encode_lt _ (hfits message hvalid)) rest
    dsimp only [Field.scalar] at hsome ⊢
    split at hsome
    case isTrue => contradiction
    case isFalse hset =>
      obtain rfl := Option.some.inj hsome
      rw [hwritten, if_neg hset, Option.map_some,
        scalar.decode_encode _ (hfits message hvalid)]
  shrinks message bytes next rest hread := by
    obtain ⟨⟨n, left⟩, hleft, heq⟩ := Option.map_eq_some_iff.mp hread
    obtain ⟨-, rfl⟩ := Prod.mk.inj heq
    exact wire.readVarint_shrinks _ _ _ hleft

theorem bytes_lawful {get : Message → List UInt8}
    {set : List UInt8 → Message → Message} (hnumber : number < 16)
    (hfits : ∀ message, Valid message →
      (get message).length < wire.sizeLimit) :
    (Field.bytes wire number get set).Lawful Valid where
  wireType := (by decide : 2 < 8)
  tag := by
    change number * 8 + 2 < 128
    omega
  size message hvalid := by
    have hlength := length_writeBytes (hfits message hvalid)
    dsimp only [Field.bytes]
    split
    · rfl
    · dsimp only
      rw [hlength]
  kept base message hnone := by
    dsimp only [Field.bytes] at hnone ⊢
    split at hnone
    case isTrue hempty => rw [if_pos hempty]
    case isFalse => contradiction
  read base message content rest hvalid hsome := by
    have hwritten := readBytes_write (hfits message hvalid) rest
    dsimp only [Field.bytes] at hsome ⊢
    split at hsome
    case isTrue => contradiction
    case isFalse hset =>
      obtain rfl := Option.some.inj hsome
      rw [hwritten, if_neg hset, Option.map_some]
  shrinks message bytes next rest hread := by
    obtain ⟨⟨content, left⟩, hleft, heq⟩ := Option.map_eq_some_iff.mp hread
    obtain ⟨-, rfl⟩ := Prod.mk.inj heq
    exact readBytes_shrinks hleft

theorem message_lawful (layout : Layout Sub) {blank : Sub}
    {get : Message → Option Sub} {set : Sub → Message → Message}
    (hnumber : number < 16)
    (hfits : ∀ message, Valid message → ∀ sub ∈ get message,
      layout.Valid sub ∧ byteSize layout.packed sub < wire.sizeLimit) :
    (Field.message wire number layout.fields layout.packed blank get
      set).Lawful Valid := by
  -- the size is counted before the message is written
  have hcontent {message : Message} (hvalid : Valid message) {sub : Sub}
      (hsub : get message = some sub) :
      wire.writeVarint (byteSize layout.packed sub) ++
          wire.serialize layout.fields sub =
        wire.writeBytes (wire.serialize layout.fields sub) := by
    rw [writeBytes,
      length_serialize layout (hfits message hvalid sub hsub).1]
  have hlength {message : Message} (hvalid : Valid message) {sub : Sub}
      (hsub : get message = some sub) :
      (wire.serialize layout.fields sub).length < wire.sizeLimit := by
    rw [length_serialize layout (hfits message hvalid sub hsub).1]
    exact (hfits message hvalid sub hsub).2
  refine ⟨(by decide : 2 < 8), ?_, ?_, ?_, ?_, ?_⟩
  · change number * 8 + 2 < 128
    omega
  · intro message hvalid
    dsimp only [Field.message]
    cases hsub : get message with
    | none => rfl
    | some sub =>
        dsimp only [Option.map_some]
        rw [hcontent hvalid hsub, length_writeBytes (hlength hvalid hsub),
          length_serialize layout (hfits message hvalid sub hsub).1]
  · intro base message hnone
    have hsub : get message = none := Option.map_eq_none_iff.mp hnone
    dsimp only [Field.message]
    rw [hsub]
  · intro base message content rest hvalid hsome
    obtain ⟨sub, hsub, rfl⟩ := Option.map_eq_some_iff.mp hsome
    have hparse := @parse_serialize wire _ layout ((get base).getD blank) sub
      (hfits message hvalid sub hsub).1 []
    rw [List.append_nil] at hparse
    dsimp only [Field.message]
    rw [hcontent hvalid hsub, readBytes_write (hlength hvalid hsub), hsub]
    dsimp only
    rw [hparse]
    rfl
  · intro message bytes next rest hread
    dsimp only [Field.message] at hread
    split at hread
    · contradiction
    case h_2 content left hleft =>
      split at hread
      · obtain ⟨-, rfl⟩ := Prod.mk.inj (Option.some.inj hread)
        exact readBytes_shrinks hleft
      · contradiction

end Kinds

end GrpcMtk.Wire
