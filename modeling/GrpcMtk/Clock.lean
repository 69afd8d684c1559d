import Mathlib

/-!
# Sleeping

`sleep` and `pause` call `nanosleep` and differ in what they do when a signal
interrupts it.  The signals are a list: each entry is the time in nanoseconds
that a call of `nanosleep` has slept when the next signal arrives.
-/

namespace GrpcMtk.Clock

/-- `struct timespec`. -/
structure Timespec where
  tvSec : ℕ
  tvNsec : ℕ
  deriving DecidableEq, Repr

def Timespec.nanos (ts : Timespec) : ℕ := ts.tvSec * 10 ^ 9 + ts.tvNsec

def Timespec.ofNanos (nanos : ℕ) : Timespec :=
  { tvSec := nanos / 10 ^ 9, tvNsec := nanos % 10 ^ 9 }

/-- `to_timespec`, a `uint64_t`. -/
def toTimespec (ts : Timespec) : UInt64 := UInt64.ofNat ts.nanos

/-- `nanosleep` when a signal arrives after `slept` nanoseconds: what is left
of the request, or `none` if the request is over before the signal. -/
def nanosleep (request : Timespec) (slept : ℕ) : Option Timespec :=
  if slept ≤ request.nanos then some (.ofNanos (request.nanos - slept))
  else none

/-- A call of `nanosleep`: what it is asked to sleep and what it does sleep. -/
structure Call where
  request : ℕ
  slept : ℕ
  deriving DecidableEq, Repr

/-- The calls of `nanosleep` and the value that is returned after them. -/
structure Sleeping where
  calls : List Call
  returned : UInt64
  deriving DecidableEq, Repr

def Sleeping.behind (call : Call) (sleeping : Sleeping) : Sleeping :=
  { sleeping with calls := call :: sleeping.calls }

/-- `rawsleep` from `resleep` on.  `nanosleep` writes what is left to `*prs`
before anything reads it, so `*prs` is no argument of the loop. -/
def resleep (ignoreIntr : Bool) : List ℕ → Timespec → Sleeping
  | [], pts => { calls := [⟨pts.nanos, pts.nanos⟩], returned := 0 }
  | slept :: later, pts =>
      match nanosleep pts slept with
      | none => { calls := [⟨pts.nanos, pts.nanos⟩], returned := 0 }
      | some left =>
          let call := ⟨pts.nanos, slept⟩
          -- the two pointers change places
          let (pts, prs) := (left, pts)
          if ignoreIntr = false then (resleep ignoreIntr later pts).behind call
          else { calls := [call], returned := toTimespec prs }

def rawsleep (dur : UInt64) (ignoreIntr : Bool) (signals : List ℕ) :
    Sleeping :=
  resleep ignoreIntr signals (.ofNanos dur.toNat)

/-- `clock::sleep`. -/
def sleep (dur : UInt64) (signals : List ℕ) : Sleeping :=
  rawsleep dur true signals

/-- `clock::pause`. -/
def pause (dur : UInt64) (signals : List ℕ) : Sleeping :=
  rawsleep dur false signals

/-! ## What the two are for -/

/-- The calls that sleep a time in spite of the signals: each one asks for what
the one before has left. -/
def resumed (time : ℕ) : List ℕ → List Call
  | [] => [⟨time, time⟩]
  | slept :: later =>
      if slept ≤ time then ⟨time, slept⟩ :: resumed (time - slept) later
      else [⟨time, time⟩]

/-- The whole time is slept, resumed after each signal, before 0 is
returned. -/
structure SleepsThrough (time : ℕ) (signals : List ℕ)
    (sleeping : Sleeping) : Prop where
  calls : sleeping.calls = resumed time signals
  total : (sleeping.calls.map Call.slept).sum = time
  returned : sleeping.returned = 0

/-- The first signal ends the sleep, and what is left of the time is
returned. -/
structure BreaksAtSignal (time : ℕ) (signals : List ℕ)
    (sleeping : Sleeping) : Prop where
  once : sleeping.calls.length = 1
  returned : sleeping.returned.toNat =
    (signals.head?.map fun slept => time - slept).getD 0

/-- No signal arrives while the time is slept. -/
def Undisturbed (time : ℕ) (signals : List ℕ) : Prop :=
  ∀ slept ∈ signals.head?, time < slept

@[simp]
theorem nanos_ofNanos (nanos : ℕ) : (Timespec.ofNanos nanos).nanos = nanos := by
  rw [Timespec.nanos, Timespec.ofNanos]
  exact Nat.div_add_mod' nanos (10 ^ 9)

@[simp]
theorem toTimespec_ofNanos (dur : UInt64) :
    toTimespec (.ofNanos dur.toNat) = dur := by
  rw [toTimespec, nanos_ofNanos, UInt64.ofNat_toNat]

theorem sum_resumed (time : ℕ) (signals : List ℕ) :
    ((resumed time signals).map Call.slept).sum = time := by
  induction signals generalizing time with
  | nil => simp [resumed]
  | cons slept later ih =>
      rw [resumed]
      split
      case isTrue hslept =>
        rw [List.map_cons, List.sum_cons, ih]
        exact Nat.add_sub_of_le hslept
      case isFalse => simp

section Resleep

variable {time slept : ℕ} {signals later : List ℕ}

theorem Undisturbed.resumed_eq (hnone : Undisturbed time signals) :
    resumed time signals = [⟨time, time⟩] := by
  cases signals with
  | nil => rfl
  | cons slept later =>
      rw [resumed, if_neg (Nat.not_le.mpr (hnone slept rfl))]

theorem resleep_of_undisturbed (ignoreIntr : Bool)
    (hnone : Undisturbed time signals) :
    resleep ignoreIntr signals (.ofNanos time) =
      { calls := [⟨time, time⟩], returned := 0 } := by
  cases signals with
  | nil => rw [resleep, nanos_ofNanos]
  | cons slept later =>
      rw [resleep, nanosleep, nanos_ofNanos,
        if_neg (Nat.not_le.mpr (hnone slept rfl))]

/-- Without the flag the loop goes on until the whole time is slept. -/
theorem resleep_false (time : ℕ) (signals : List ℕ) :
    resleep false signals (.ofNanos time) =
      { calls := resumed time signals, returned := 0 } := by
  induction signals generalizing time with
  | nil => rw [resleep, nanos_ofNanos, resumed]
  | cons slept later ih =>
      rw [resleep, nanosleep, nanos_ofNanos, resumed]
      by_cases hslept : slept ≤ time
      · rw [if_pos hslept, if_pos hslept]
        dsimp only
        rw [if_pos rfl, ih, Sleeping.behind]
      · rw [if_neg hslept, if_neg hslept]

/-- With the flag the first signal ends the loop, and the time that was asked
for is returned. -/
theorem resleep_true (hslept : slept ≤ time) :
    resleep true (slept :: later) (.ofNanos time) =
      { calls := [⟨time, slept⟩]
        returned := toTimespec (.ofNanos time) } := by
  rw [resleep, nanosleep, nanos_ofNanos, if_pos hslept]
  rfl

theorem length_resumed_pos (time : ℕ) (signals : List ℕ) :
    0 < (resumed time signals).length := by
  cases signals with
  | nil => exact Nat.one_pos
  | cons slept later =>
      rw [resumed]
      split <;> exact Nat.succ_pos _

theorem not_undisturbed (hnot : ¬Undisturbed time signals) :
    ∃ slept later, signals = slept :: later ∧ slept ≤ time := by
  cases signals with
  | nil => exact absurd nofun hnot
  | cons slept later =>
      refine ⟨slept, later, rfl, Nat.le_of_not_lt fun hlate => hnot ?_⟩
      rintro other hother
      rwa [← Option.some.inj hother]

/-- One call is not enough to sleep through a signal. -/
theorem one_lt_length_resumed (hslept : slept ≤ time) :
    1 < (resumed time (slept :: later)).length := by
  rw [resumed, if_pos hslept, List.length_cons]
  exact Nat.succ_lt_succ (length_resumed_pos _ _)

end Resleep

section Clock

variable (dur : UInt64) (signals : List ℕ)

theorem sleepsThrough_sleep :
    SleepsThrough dur.toNat signals (sleep dur signals) ↔
      Undisturbed dur.toNat signals := by
  constructor
  · intro hsleeps
    by_contra hnot
    obtain ⟨slept, later, rfl, hslept⟩ := not_undisturbed hnot
    have hcalls := hsleeps.calls
    rw [sleep, rawsleep, resleep_true hslept] at hcalls
    have hlength : [Call.mk dur.toNat slept].length = _ :=
      congrArg List.length hcalls
    exact absurd hlength (Nat.ne_of_lt (one_lt_length_resumed hslept))
  · intro hnone
    rw [sleep, rawsleep, resleep_of_undisturbed true hnone]
    exact ⟨hnone.resumed_eq.symm, Nat.add_zero _, rfl⟩

theorem breaksAtSignal_pause :
    BreaksAtSignal dur.toNat signals (pause dur signals) ↔
      Undisturbed dur.toNat signals := by
  constructor
  · intro hbreaks
    by_contra hnot
    obtain ⟨slept, later, rfl, hslept⟩ := not_undisturbed hnot
    have honce := hbreaks.once
    rw [pause, rawsleep, resleep_false] at honce
    exact absurd honce (Nat.ne_of_gt (one_lt_length_resumed hslept))
  · intro hnone
    rw [pause, rawsleep, resleep_of_undisturbed false hnone]
    refine ⟨rfl, ?_⟩
    cases signals with
    | nil => rfl
    | cons slept later =>
        exact (Nat.sub_eq_zero_of_le (Nat.le_of_lt (hnone slept rfl))).symm

/-- It is `pause` that sleeps through every signal. -/
theorem sleepsThrough_pause :
    SleepsThrough dur.toNat signals (pause dur signals) := by
  rw [pause, rawsleep, resleep_false]
  exact ⟨rfl, sum_resumed dur.toNat signals, rfl⟩

/-- `sleep` and `pause` do what they are for exactly if no signal arrives: the
flag that tells them apart is tested the wrong way round. -/
theorem sleep_and_pause_iff :
    SleepsThrough dur.toNat signals (sleep dur signals) ∧
        BreaksAtSignal dur.toNat signals (pause dur signals) ↔
      Undisturbed dur.toNat signals := by
  rw [sleepsThrough_sleep, breaksAtSignal_pause, and_self_iff]

/-- One second, with a signal after 0.4 seconds: `sleep` returns the whole
second after them, and `pause` sleeps on and returns 0. -/
theorem sleep_and_pause_iff_fails :
    (sleep 1000000000 [400000000] =
        { calls := [⟨1000000000, 400000000⟩], returned := 1000000000 } ∧
      pause 1000000000 [400000000] =
        { calls := [⟨1000000000, 400000000⟩, ⟨600000000, 600000000⟩]
          returned := 0 }) ∧
      ¬(SleepsThrough 1000000000 [400000000]
          (sleep 1000000000 [400000000]) ∧
        BreaksAtSignal 1000000000 [400000000]
          (pause 1000000000 [400000000])) := by
  refine ⟨⟨by decide +kernel, by decide +kernel⟩, fun h => ?_⟩
  have hreturned : (sleep 1000000000 [400000000]).returned = 1000000000 := by
    decide +kernel
  rw [h.1.returned] at hreturned
  exact absurd hreturned (by decide)

end Clock

end GrpcMtk.Clock
