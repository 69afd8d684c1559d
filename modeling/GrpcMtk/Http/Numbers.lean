import Mathlib.Data.List.TakeWhile
import GrpcMtk.Http.Text

/-!
# Texts of digits

What `htoi`, `atoi` and `stoi` make of a text that consists of digits, as long
as the text may be.  Its value is the natural number it denotes; an `int`
keeps it modulo 2^32.
-/

namespace GrpcMtk.Http

open GrpcMtk.Proto

/-- The value of digits behind a number that has been read. -/
def valueFrom (base : ℕ) (digit : UInt8 → Option ℕ) (value : ℕ)
    (text : Bytes) : ℕ :=
  text.foldl (fun value byte => value * base + (digit byte).getD 0) value

def hexValue (text : Bytes) : ℕ := valueFrom 16 hexDigit 0 text

def decimalValue (text : Bytes) : ℕ := valueFrom 10 decimalDigit 0 text

/-- A non-empty text of hex digits of either case. -/
def IsHex (text : Bytes) : Prop :=
  text ≠ [] ∧ ∀ byte ∈ text, (hexDigit byte).isSome

instance (text : Bytes) : Decidable (IsHex text) :=
  @instDecidableAnd _ _ inferInstance
    (List.decidableBAll (fun byte => (hexDigit byte).isSome = true) text)

/-- A non-empty text of decimal digits. -/
def IsDecimal (text : Bytes) : Prop :=
  text ≠ [] ∧ ∀ byte ∈ text, (decimalDigit byte).isSome

instance (text : Bytes) : Decidable (IsDecimal text) :=
  @instDecidableAnd _ _ inferInstance
    (List.decidableBAll (fun byte => (decimalDigit byte).isSome = true) text)

theorem IsHex.not_mem {text : Bytes} (htext : IsHex text) {byte : UInt8}
    (hbyte : hexDigit byte = none) : byte ∉ text := by
  intro hmem
  have hsome := htext.2 byte hmem
  rw [hbyte] at hsome
  contradiction

/-! ## Machine integers -/

theorem toInt_of_lt {value : ℕ} (hvalue : value < 2 ^ 31) :
    toInt value = value :=
  Int.bmod_eq_of_le_mul_two (by omega) (by omega)

theorem toInt_step (value base num : ℤ) :
    toInt (toInt value * base + num) = toInt (value * base + num) := by
  unfold toInt
  rw [← Int.bmod_add_bmod, Int.bmod_mul_bmod, Int.bmod_add_bmod]

theorem toInt_emod (value : ℤ) : toInt value % 2 ^ 32 = value % 2 ^ 32 := by
  have hemod := @Int.bmod_emod value (2 ^ 32)
  rw [Int.natCast_pow] at hemod
  exact_mod_cast hemod

/-- Adding an `int` to a `uint32_t` adds the number it stands for. -/
theorem toUInt32_add_toInt (bl value : ℕ) :
    toUInt32 (bl + toInt value) = (bl + value) % 2 ^ 32 := by
  have hbmod : toInt (bl + toInt value) = toInt ((bl + value : ℕ) : ℤ) := by
    rw [toInt, toInt, toInt, Int.add_bmod_bmod, Int.natCast_add]
  have hemod : ((bl : ℤ) + toInt value) % 2 ^ 32 =
      ((bl + value : ℕ) : ℤ) % 2 ^ 32 := by
    rw [← toInt_emod, hbmod, toInt_emod]
  unfold toUInt32
  rw [hemod]
  omega

/-! ## Digits -/

section Digits

variable {base : ℕ} {digit : UInt8 → Option ℕ} {max : ℕ}

theorem digits_eq {text : Bytes} (htext : ∀ byte ∈ text, (digit byte).isSome)
    {read : ℕ} (hmax : read + text.length < max) (value : ℕ) :
    digits base digit max read (toInt value) text =
      some (toInt (valueFrom base digit value text)) := by
  induction text generalizing read value with
  | nil => rfl
  | cons byte rest ih =>
      rw [List.forall_mem_cons] at htext
      rw [List.length_cons] at hmax
      obtain ⟨num, hnum⟩ := Option.isSome_iff_exists.mp htext.1
      have hread : ¬read + 1 ≥ max := by omega
      have hstep : toInt (toInt value * base + num) =
          toInt ((value * base + num : ℕ) : ℤ) := by
        rw [toInt_step, Int.natCast_add, Int.natCast_mul]
      rw [digits, hnum]
      dsimp only
      rw [if_neg hread, hstep, ih htext.2 (by omega), valueFrom,
        valueFrom, List.foldl_cons, hnum, Option.getD_some]

theorem number_of_ne {text : Bytes} (htext : text.head? ≠ some 45) :
    number base digit max text = digits base digit max 0 0 text := by
  unfold number
  split
  · exact absurd rfl htext
  · rfl

theorem number_eq {text : Bytes} (htext : ∀ byte ∈ text, (digit byte).isSome)
    (hminus : digit 45 = none) (hmax : text.length < max) :
    number base digit max text =
      some (toInt (valueFrom base digit 0 text)) := by
  rw [number_of_ne]
  · exact @digits_eq base digit max text htext 0 (by omega) 0
  · intro hhead
    have hsome := htext 45 (List.mem_of_head? hhead)
    rw [hminus] at hsome
    contradiction

end Digits

theorem htoi_of_isHex {text : Bytes} (htext : IsHex text) {max : ℕ}
    (hmax : text.length < max) :
    htoi text max = some (toInt (hexValue text)) :=
  number_eq htext.2 rfl hmax

/-! ## Decimal numbers -/

section Decimal

variable {byte : UInt8} {text : Bytes}

theorem isSome_decimalDigit : (decimalDigit byte).isSome = isdigit byte := by
  rw [decimalDigit, isdigit]
  split
  case isTrue hdigit => simp [hdigit]
  case isFalse hother => simp only [hother, decide_false, Option.isSome_none]

theorem decimalDigit_eq (hbyte : (decimalDigit byte).isSome) :
    ((decimalDigit byte).getD 0 : ℤ) = byte.toNat - 48 := by
  rw [decimalDigit] at hbyte ⊢
  split at hbyte
  case isTrue hdigit =>
    have hlow : 48 ≤ byte.toNat := UInt8.le_iff_toNat_le.mp hdigit.1
    rw [if_pos hdigit, Option.getD_some]
    omega
  case isFalse => contradiction

theorem foldl_decimal (htext : ∀ byte ∈ text, (decimalDigit byte).isSome)
    (value : ℕ) :
    text.foldl (fun (value : ℤ) byte => value * 10 + (byte.toNat - 48)) value =
      valueFrom 10 decimalDigit value text := by
  induction text generalizing value with
  | nil => rfl
  | cons byte rest ih =>
      rw [List.forall_mem_cons] at htext
      have hstep : (value : ℤ) * 10 + (byte.toNat - 48) =
          ((value * 10 + (decimalDigit byte).getD 0 : ℕ) : ℤ) := by
        rw [Int.natCast_add, Int.natCast_mul, decimalDigit_eq htext.1]
        rfl
      rw [List.foldl_cons, hstep, ih htext.2, valueFrom, valueFrom,
        List.foldl_cons]

theorem sign_of_isDecimal (htext : IsDecimal text) :
    sign text = (false, text) := by
  obtain ⟨first, rest, rfl⟩ := List.exists_cons_of_ne_nil htext.1
  have hfirst := htext.2 first List.mem_cons_self
  unfold sign
  split
  case h_1 heq =>
    obtain ⟨rfl, -⟩ := List.cons.inj heq
    contradiction
  case h_2 heq =>
    obtain ⟨rfl, -⟩ := List.cons.inj heq
    contradiction
  case h_3 => rfl

/-- A digit is no blank. -/
theorem dropWhile_isspace (htext : IsDecimal text) :
    text.dropWhile isspace = text := by
  obtain ⟨first, rest, rfl⟩ := List.exists_cons_of_ne_nil htext.1
  have hfirst := htext.2 first List.mem_cons_self
  rw [isSome_decimalDigit, isdigit, decide_eq_true_eq] at hfirst
  apply List.dropWhile_cons_of_neg
  rw [isspace, decide_eq_true_eq]
  have hlow : 48 ≤ first.toNat := UInt8.le_iff_toNat_le.mp hfirst.1
  rintro (hspace | ⟨-, hhigh⟩)
  · rw [hspace] at hlow
    contradiction
  · have hle : first.toNat ≤ 13 := UInt8.le_iff_toNat_le.mp hhigh
    omega

theorem stoi_eq_of_isDecimal (htext : IsDecimal text) :
    stoi text =
      if decimalValue text < 2 ^ 31 then some ((decimalValue text : ℤ), [])
      else none := by
  have hdigits : ∀ byte ∈ text, isdigit byte = true := by
    intro byte hbyte
    rw [← isSome_decimalDigit]
    exact htext.2 byte hbyte
  have hfold := foldl_decimal htext.2 0
  have hnat : valueFrom 10 decimalDigit 0 text = decimalValue text := rfl
  rw [stoi, dropWhile_isspace htext, sign_of_isDecimal htext]
  dsimp only
  rw [List.takeWhile_eq_self_iff.mpr hdigits,
    List.dropWhile_eq_nil_iff.mpr hdigits, if_neg htext.1]
  simp only [Bool.false_eq_true, if_false]
  rw [show ((0 : ℕ) : ℤ) = 0 from rfl, hnat] at hfold
  rw [hfold]
  by_cases hvalue : decimalValue text < 2 ^ 31
  · rw [if_pos hvalue, if_pos ⟨by omega, by omega⟩]
  · rw [if_neg hvalue, if_neg (fun h => by omega)]

theorem stoi_of_isDecimal (htext : IsDecimal text)
    (hvalue : decimalValue text < 2 ^ 31) :
    stoi text = some ((decimalValue text : ℤ), []) := by
  rw [stoi_eq_of_isDecimal htext, if_pos hvalue]

end Decimal

end GrpcMtk.Http
