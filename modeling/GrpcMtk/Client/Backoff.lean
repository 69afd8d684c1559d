import GrpcMtk.Client.Events
import GrpcMtk.Core.Rounding
import Mathlib.Tactic.Ring

/-!
# Waiting for a reconnect

The wait doubles with each attempt up to 300 seconds.  It is computed as a
shift of an `int`, which is limited only when it has been shifted, and scaled
in `double`.  What C++ leaves undefined is `none`.
-/

namespace GrpcMtk

open GrpcMtk.Rounding

namespace RPCStream

/-- `clock::sec`. -/
def sec (seconds : ℕ) : ℕ := seconds * 1000 * 1000 * 1000 % 2 ^ 64

/-- `value << amount` for an `int`. -/
def shiftLeft (value amount : ℕ) : Option ℕ :=
  if amount < 32 ∧ value * 2 ^ amount < 2 ^ 31 then some (value * 2 ^ amount)
  else none

/-- The `double` nearest to a value, which is far from the ends of the exponent
range here. -/
def double (value : ℚ) : ℚ := roundTo 53 value

/-- `CalcJitter`; `rand` is what `rand()` returns. -/
def calcJitter (base rand : ℕ) : Option ℕ :=
  let factor := double (800 + rand % 500 : ℕ)
  let product := double (factor * double base)
  let wait := ⌈double (product / double (1000 : ℕ))⌉.toNat
  if wait < 2 ^ 64 then some wait else none

/-- `base` in `CalcReconnectWaitDuration`. -/
def reconnectBase (nAttempt : ℕ) : Option ℕ :=
  if nAttempt ≤ 1 then some (sec 5)
  else (shiftLeft 5 (nAttempt - 2)).map fun seconds => sec (min 300 seconds)

def calcReconnectWaitDuration (nAttempt rand : ℕ) : Option ℕ :=
  (reconnectBase nAttempt).bind fun base => calcJitter base rand

/-- `Client::OnCloseStream`, where the `on_close` of the application, if there
is one, has returned `dur`. -/
def onCloseStream (dur nAttempt rand : ℕ) : Option ℕ :=
  if dur ≠ 0 then some dur else calcReconnectWaitDuration nAttempt rand

/-- Between 0.8 times 5 and 1.3 times 300 seconds, in nanoseconds. -/
def InWaitRange (wait : ℕ) : Prop :=
  4 * 10 ^ 9 ≤ wait ∧ wait ≤ 390 * 10 ^ 9

/-- Nothing overflows, the wait is in its range, and the base is at least that
of every earlier attempt and has reached 300 seconds from the eighth on. -/
structure WaitsInRange (nAttempt rand : ℕ) : Prop where
  wait : ∃ wait ∈ calcReconnectWaitDuration nAttempt rand, InWaitRange wait
  mono : ∀ earlier ≤ nAttempt, ∃ least ∈ reconnectBase earlier,
    ∃ base ∈ reconnectBase nAttempt, least ≤ base
  limit : 8 ≤ nAttempt → reconnectBase nAttempt = some (300 * 10 ^ 9)

section Waits

variable {nAttempt rand : ℕ}

theorem double_natCast {value : ℕ} (hvalue : value < 2 ^ 53) :
    double value = value := roundTo_natCast hvalue

/-- Up to the greatest base every result in `CalcJitter` is exact. -/
theorem calcJitter_eq {seconds : ℕ} (hseconds : seconds ≤ 300) (rand : ℕ) :
    calcJitter (seconds * 10 ^ 9) rand =
      some ((800 + rand % 500) * seconds * 10 ^ 6) := by
  have hfactor : 800 + rand % 500 ≤ 1299 := by omega
  rw [calcJitter]
  generalize 800 + rand % 500 = factor at hfactor
  have hbound : factor * seconds ≤ 1299 * 300 :=
    Nat.mul_le_mul hfactor hseconds
  have hproduct : ((factor : ℕ) : ℚ) * ((seconds * 10 ^ 9 : ℕ) : ℚ) =
      ((factor * seconds * 10 ^ 9 : ℕ) : ℚ) := by
    push_cast
    ring
  have hquotient : ((factor * seconds * 10 ^ 9 : ℕ) : ℚ) / ((1000 : ℕ) : ℚ) =
      ((factor * seconds * 10 ^ 6 : ℕ) : ℚ) := by
    have hsplit : factor * seconds * 10 ^ 9 =
        factor * seconds * 10 ^ 6 * 1000 := by omega
    rw [hsplit, Nat.cast_mul _ 1000, mul_div_cancel_right₀ _ (by simp)]
  rw [double_natCast (by omega : factor < 2 ^ 53),
    double_natCast (by omega : seconds * 10 ^ 9 < 2 ^ 53), hproduct,
    double_natCast (by omega : factor * seconds * 10 ^ 9 < 2 ^ 53),
    double_natCast (by norm_num), hquotient,
    double_natCast (by omega : factor * seconds * 10 ^ 6 < 2 ^ 53),
    Int.ceil_natCast, Int.toNat_natCast]
  exact if_pos (by omega)

theorem calcJitter_inWaitRange {seconds : ℕ} (hleast : 5 ≤ seconds)
    (hgreatest : seconds ≤ 300) (rand : ℕ) :
    ∃ wait ∈ calcJitter (seconds * 10 ^ 9) rand, InWaitRange wait := by
  refine ⟨_, calcJitter_eq hgreatest rand, ?_⟩
  have hlow : 800 * 5 ≤ (800 + rand % 500) * seconds :=
    Nat.mul_le_mul (by omega) hleast
  have hhigh : (800 + rand % 500) * seconds ≤ 1299 * 300 :=
    Nat.mul_le_mul (by omega) hgreatest
  rw [InWaitRange]
  omega

theorem sec_eq {seconds : ℕ} (hseconds : seconds ≤ 300) :
    sec seconds = seconds * 10 ^ 9 := by
  rw [sec, Nat.mod_eq_of_lt (by omega)]
  omega

/-- The shift overflows from the 29th place on. -/
theorem shiftLeft_five (amount : ℕ) :
    shiftLeft 5 amount = if amount ≤ 28 then some (5 * 2 ^ amount) else none := by
  rw [shiftLeft]
  congr 1
  rw [eq_iff_iff]
  constructor
  · rintro ⟨-, hfits⟩
    by_contra hlarge
    have hpow : 2 ^ 29 ≤ 2 ^ amount :=
      Nat.pow_le_pow_right two_pos (by omega)
    omega
  · intro hsmall
    have hpow : 2 ^ amount ≤ 2 ^ 28 := Nat.pow_le_pow_right two_pos hsmall
    exact ⟨by omega, by omega⟩

/-- The seconds that the first attempts wait, without the jitter. -/
def baseSeconds (nAttempt : ℕ) : ℕ := min 300 (5 * 2 ^ (nAttempt - 2))

theorem baseSeconds_mono : Monotone baseSeconds := by
  intro earlier later hle
  apply min_le_min_left
  apply Nat.mul_le_mul_left
  exact Nat.pow_le_pow_right two_pos (Nat.sub_le_sub_right hle 2)

theorem five_le_baseSeconds (nAttempt : ℕ) : 5 ≤ baseSeconds nAttempt :=
  le_min (by simp) (Nat.le_mul_of_pos_right 5 (Nat.two_pow_pos _))

theorem baseSeconds_limit (hlate : 8 ≤ nAttempt) :
    baseSeconds nAttempt = 300 := by
  have hpow : 2 ^ 6 ≤ 2 ^ (nAttempt - 2) :=
    Nat.pow_le_pow_right two_pos (by omega)
  exact min_eq_left (by omega)

theorem reconnectBase_eq (nAttempt : ℕ) : reconnectBase nAttempt =
    if nAttempt ≤ 30 then some (baseSeconds nAttempt * 10 ^ 9) else none := by
  have hsec := sec_eq (min_le_left 300 (5 * 2 ^ (nAttempt - 2)))
  rw [reconnectBase]
  split
  case isTrue hfirst =>
    have hzero : nAttempt - 2 = 0 := by omega
    rw [if_pos (by omega), baseSeconds, hzero, sec_eq (by simp)]
    simp
  case isFalse hlater =>
    rw [shiftLeft_five]
    split
    · rw [if_pos (by omega), Option.map_some, hsec, baseSeconds]
    · rw [if_neg (by omega), Option.map_none]

theorem waitsInRange_iff : WaitsInRange nAttempt rand ↔ nAttempt ≤ 30 := by
  constructor
  · intro hwaits
    obtain ⟨-, -, base, hbase, -⟩ := hwaits.mono nAttempt (le_refl nAttempt)
    rw [reconnectBase_eq, Option.mem_def, Option.ite_none_right_eq_some]
      at hbase
    exact hbase.1
  · intro hfew
    have hbase := reconnectBase_eq nAttempt
    rw [if_pos hfew] at hbase
    refine ⟨?_, fun earlier hearlier => ?_, fun hlate => ?_⟩
    · rw [calcReconnectWaitDuration, hbase, Option.bind_some]
      exact calcJitter_inWaitRange (five_le_baseSeconds nAttempt)
        (min_le_left _ _) rand
    · have hleast := reconnectBase_eq earlier
      rw [if_pos (hearlier.trans hfew)] at hleast
      exact ⟨_, hleast, _, hbase,
        Nat.mul_le_mul_right _ (baseSeconds_mono hearlier)⟩
    · rw [hbase, baseSeconds_limit hlate]

end Waits

section Closing

variable {stream next : RPCStream} {input : UpdateInput} {nAttempt rand : ℕ}

/-- `ProcessReply` puts off the next attempt by a wait in the range, if the
application leaves that to the client and there were few attempts. -/
theorem reconnectWhen_of_close
    (hstep : stream.step (.update input) = some next)
    (hclose : nAttempt ∈ stream.closings (.update input))
    (hfew : nAttempt ≤ 30)
    (hdelegate : onCloseStream 0 nAttempt rand = some input.onCloseStream) :
    InWaitRange input.onCloseStream ∧
      next.reconnectWhen = (input.now + input.onCloseStream) % 2 ^ 64 := by
  obtain ⟨wait, hwait, hrange⟩ := (waitsInRange_iff.mpr hfew).wait
  rw [onCloseStream, if_neg (by simp), Option.mem_def.mp hwait,
    Option.some.injEq] at hdelegate
  refine ⟨hdelegate ▸ hrange, ?_⟩
  rw [closings] at hclose
  split at hclose
  case isTrue hupdating =>
    have hact := (step_eq_some.mp hstep).2
    rw [act, update, hupdating] at hact
    rw [← Option.some.inj hact]
    rfl
  · contradiction

end Closing

/-- The wait for a reconnect is as it should be for the first thirty attempts
and no others. -/
theorem reconnect_wait_in_range_iff (nAttempt rand : ℕ) :
    WaitsInRange nAttempt rand ↔ nAttempt ≤ 30 :=
  waitsInRange_iff

/-- The shift for the next attempt overflows. -/
theorem reconnect_wait_in_range_iff_fails : ¬WaitsInRange 31 0 := by
  rintro ⟨⟨wait, hwait, -⟩, -, -⟩
  have hoverflow : calcReconnectWaitDuration 31 0 = none := rfl
  rw [hoverflow] at hwait
  contradiction

end RPCStream

end GrpcMtk
