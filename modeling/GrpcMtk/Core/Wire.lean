import Mathlib.Algebra.Group.Nat.Defs
import Mathlib.Algebra.Group.Basic

/-!
# The wire

Messages go over the wire as numbers and bytes: a number is a varint, and bytes
stand behind their size.  What writes and reads them is a `Wire`, with the laws
that a reader and a writer of messages rely on; `base128` is one.
-/

namespace GrpcMtk.Wire

/-! ## Varints -/

/-- Seven bits in each byte, the lowest first, and a bit on all but the last. -/
def writeWithin : ℕ → ℕ → List UInt8
  | 0, _ => []
  | fuel + 1, n =>
      if n < 128 then [n.toUInt8]
      else (n % 128 + 128).toUInt8 :: writeWithin fuel (n / 128)

def sizeWithin : ℕ → ℕ → ℕ
  | 0, _ => 0
  | fuel + 1, n => if n < 128 then 1 else sizeWithin fuel (n / 128) + 1

/-- The number at the start of the bytes, if it has at most this many. -/
def readWithin : ℕ → List UInt8 → Option (ℕ × List UInt8)
  | 0, _ => none
  | _ + 1, [] => none
  | fuel + 1, byte :: rest =>
      if byte.toNat < 128 then some (byte.toNat, rest)
      else
        (readWithin fuel rest).map fun read =>
          (byte.toNat - 128 + 128 * read.1, read.2)

theorem length_writeWithin (fuel n : ℕ) :
    (writeWithin fuel n).length = sizeWithin fuel n := by
  induction fuel generalizing n with
  | zero => rfl
  | succ fuel ih =>
      rw [writeWithin, sizeWithin]
      split
      · rfl
      · rw [List.length_cons, ih]

theorem toNat_toUInt8 {n : ℕ} (hn : n < 256) : n.toUInt8.toNat = n :=
  Nat.mod_eq_of_lt hn

theorem readWithin_writeWithin {fuel bound n : ℕ}
    (hfuel : n < 128 ^ (fuel + 1)) (hbound : n < 128 ^ (bound + 1))
    (rest : List UInt8) :
    readWithin (bound + 1) (writeWithin (fuel + 1) n ++ rest) =
      some (n, rest) := by
  induction fuel generalizing bound n with
  | zero =>
      have hsmall : n < 128 := hfuel
      have hbyte : n.toUInt8.toNat = n := toNat_toUInt8 (by omega)
      rw [writeWithin, if_pos hsmall, List.singleton_append, readWithin,
        if_pos (by rwa [hbyte]), hbyte]
  | succ fuel ih =>
      rw [writeWithin]
      split
      case isTrue hsmall =>
        have hbyte : n.toUInt8.toNat = n := toNat_toUInt8 (by omega)
        rw [List.singleton_append, readWithin, if_pos (by rwa [hbyte]), hbyte]
      case isFalse hlarge =>
        have hbyte : (n % 128 + 128).toUInt8.toNat = n % 128 + 128 :=
          toNat_toUInt8 (by omega)
        cases bound with
        | zero => exact absurd hbound hlarge
        | succ bound =>
            have hrest := @ih bound (n / 128)
              (Nat.div_lt_of_lt_mul (by rwa [pow_succ'] at hfuel))
              (Nat.div_lt_of_lt_mul (by rwa [pow_succ'] at hbound))
            rw [List.cons_append, readWithin, hbyte, if_neg (by omega), hrest,
              Option.map_some]
            congr 2
            omega

theorem readWithin_shrinks {fuel n : ℕ} {bytes rest : List UInt8}
    (hread : readWithin fuel bytes = some (n, rest)) :
    rest.length < bytes.length := by
  induction fuel generalizing bytes n with
  | zero => exact absurd hread (by simp [readWithin])
  | succ fuel ih =>
      cases bytes with
      | nil => exact absurd hread (by simp [readWithin])
      | cons byte tail =>
          rw [readWithin] at hread
          split at hread
          · obtain ⟨-, rfl⟩ := Prod.mk.inj (Option.some.inj hread)
            exact Nat.lt_succ_self _
          · obtain ⟨read, htail, heq⟩ := Option.map_eq_some_iff.mp hread
            obtain ⟨-, rfl⟩ := Prod.mk.inj heq
            exact Nat.lt_succ_of_lt (ih htail)

end GrpcMtk.Wire

namespace GrpcMtk

/-- What writes and reads the numbers of a message, and what a reader and a
writer of messages rely on. -/
structure Wire where
  writeVarint : ℕ → List UInt8
  varintSize : ℕ → ℕ
  readVarint : List UInt8 → Option (ℕ × List UInt8)
  readTag : List UInt8 → Option (ℕ × List UInt8)
  readSize : List UInt8 → Option (ℕ × List UInt8)
  /-- What is left behind the field with a tag that nobody knows. -/
  skipField : ℕ → List UInt8 → Option (List UInt8)
  /-- The sizes below this can be read. -/
  sizeLimit : ℕ
  sizeLimit_le : sizeLimit ≤ 2 ^ 32
  varintSize_small : ∀ n < 128, varintSize n = 1
  length_writeVarint : ∀ n < 2 ^ 64, (writeVarint n).length = varintSize n
  readVarint_write : ∀ n < 2 ^ 64, ∀ rest,
    readVarint (writeVarint n ++ rest) = some (n, rest)
  readTag_write : ∀ tag < 2 ^ 32, ∀ rest,
    readTag (writeVarint tag ++ rest) = some (tag, rest)
  readSize_write : ∀ size < sizeLimit, ∀ rest,
    readSize (writeVarint size ++ rest) = some (size, rest)
  readVarint_shrinks : ∀ bytes n rest,
    readVarint bytes = some (n, rest) → rest.length ≤ bytes.length
  readTag_shrinks : ∀ bytes n rest,
    readTag bytes = some (n, rest) → rest.length < bytes.length
  readSize_shrinks : ∀ bytes n rest,
    readSize bytes = some (n, rest) → rest.length ≤ bytes.length
  skipField_shrinks : ∀ tag bytes rest,
    skipField tag bytes = some rest → rest.length ≤ bytes.length

namespace Wire

/-- The fields of fixed length, the varints and the bytes behind their size;
groups are not skipped. -/
def skipWithin (tag : ℕ) (bytes : List UInt8) : Option (List UInt8) :=
  let drop (size : ℕ) (bytes : List UInt8) : Option (List UInt8) :=
    if size ≤ bytes.length then some (bytes.drop size) else none
  if tag / 8 = 0 then none
  else if tag % 8 = 0 then (readWithin 10 bytes).map Prod.snd
  else if tag % 8 = 1 then drop 8 bytes
  else if tag % 8 = 2 then
    (readWithin 5 bytes).bind fun read => drop read.1 read.2
  else if tag % 8 = 5 then drop 4 bytes
  else none

theorem skipWithin_shrinks {tag : ℕ} {bytes rest : List UInt8}
    (hskip : skipWithin tag bytes = some rest) :
    rest.length ≤ bytes.length := by
  have hdrop {size : ℕ} {bytes rest : List UInt8}
      (hsome : (if size ≤ bytes.length then some (bytes.drop size)
        else none) = some rest) : rest.length ≤ bytes.length := by
    split at hsome
    · obtain rfl := Option.some.inj hsome
      rw [List.length_drop]
      exact Nat.sub_le _ _
    · contradiction
  unfold skipWithin at hskip
  dsimp only at hskip
  split at hskip
  · contradiction
  split at hskip
  · obtain ⟨⟨n, left⟩, hread, rfl⟩ := Option.map_eq_some_iff.mp hskip
    exact Nat.le_of_lt (readWithin_shrinks hread)
  split at hskip
  · exact hdrop hskip
  split at hskip
  · obtain ⟨⟨n, left⟩, hread, hleft⟩ := Option.bind_eq_some_iff.mp hskip
    exact Nat.le_trans (hdrop hleft) (Nat.le_of_lt (readWithin_shrinks hread))
  split at hskip
  · exact hdrop hskip
  · contradiction

/-- Varints of base 128: of ten bytes at most for 64 bits, and of five for the
tags and the sizes. -/
def base128 : Wire where
  writeVarint := writeWithin 10
  varintSize := sizeWithin 10
  readVarint bytes :=
    (readWithin 10 bytes).map fun read => (read.1 % 2 ^ 64, read.2)
  readTag bytes :=
    (readWithin 5 bytes).map fun read => (read.1 % 2 ^ 32, read.2)
  readSize bytes :=
    (readWithin 5 bytes).filter fun read => read.1 < 2 ^ 31 - 16
  skipField := skipWithin
  sizeLimit := 2 ^ 31 - 16
  sizeLimit_le := by decide
  varintSize_small n hn := if_pos hn
  length_writeVarint n _ := length_writeWithin 10 n
  readVarint_write n hn rest := by
    have hread := @readWithin_writeWithin 9 9 n (by omega) (by omega) rest
    rw [hread, Option.map_some, Nat.mod_eq_of_lt hn]
  readTag_write tag htag rest := by
    have hread := @readWithin_writeWithin 9 4 tag (by omega) (by omega) rest
    rw [hread, Option.map_some, Nat.mod_eq_of_lt htag]
  readSize_write size hsize rest := by
    have hread := @readWithin_writeWithin 9 4 size (by omega) (by omega) rest
    rw [hread, Option.filter_some, if_pos (decide_eq_true hsize)]
  readVarint_shrinks bytes n rest hread := by
    obtain ⟨⟨m, left⟩, hleft, heq⟩ := Option.map_eq_some_iff.mp hread
    obtain ⟨-, rfl⟩ := Prod.mk.inj heq
    exact Nat.le_of_lt (readWithin_shrinks hleft)
  readTag_shrinks bytes n rest hread := by
    obtain ⟨⟨m, left⟩, hleft, heq⟩ := Option.map_eq_some_iff.mp hread
    obtain ⟨-, rfl⟩ := Prod.mk.inj heq
    exact readWithin_shrinks hleft
  readSize_shrinks bytes n rest hread :=
    Nat.le_of_lt (readWithin_shrinks (Option.filter_eq_some_iff.mp hread).1)
  skipField_shrinks _ _ _ := skipWithin_shrinks

section Bytes

variable (wire : Wire)

/-- The bytes behind their size. -/
def writeBytes (bytes : List UInt8) : List UInt8 :=
  wire.writeVarint bytes.length ++ bytes

def readBytes (bytes : List UInt8) : Option (List UInt8 × List UInt8) :=
  match wire.readSize bytes with
  | none => none
  | some (size, rest) =>
      if size ≤ rest.length then some (rest.take size, rest.drop size)
      else none

variable {wire}

theorem length_writeBytes {bytes : List UInt8}
    (hsize : bytes.length < wire.sizeLimit) :
    (wire.writeBytes bytes).length =
      wire.varintSize bytes.length + bytes.length := by
  have hlimit := wire.sizeLimit_le
  rw [writeBytes, List.length_append,
    wire.length_writeVarint _ (by omega)]

theorem readBytes_write {bytes : List UInt8}
    (hsize : bytes.length < wire.sizeLimit) (rest : List UInt8) :
    wire.readBytes (wire.writeBytes bytes ++ rest) = some (bytes, rest) := by
  rw [readBytes, writeBytes, List.append_assoc,
    wire.readSize_write _ hsize]
  dsimp only
  rw [if_pos (by simp), List.take_left, List.drop_left]

theorem readBytes_shrinks {bytes content rest : List UInt8}
    (hread : wire.readBytes bytes = some (content, rest)) :
    rest.length ≤ bytes.length := by
  unfold readBytes at hread
  split at hread
  · contradiction
  case h_2 size left hsize =>
    split at hread
    · obtain ⟨-, rfl⟩ := Prod.mk.inj (Option.some.inj hread)
      have hleft := wire.readSize_shrinks _ _ _ hsize
      rw [List.length_drop]
      omega
    · contradiction

end Bytes

end Wire

end GrpcMtk
