import Mathlib.Data.List.Perm.Basic
import Mathlib.Logic.Function.Basic
import GrpcMtk.Client.Steps

/-!
# Requested durations

`mtk_conn_timeout` stores a duration, one overload of `Call` chooses between it
and the one it was given, and the overload that this one calls ignores the
choice: `ProcessTimeout` has only `TIMEOUT_DURATION` to compare with.

Here the duration that each call was issued with is recorded beside the client.
-/

namespace GrpcMtk

open GrpcMtk.Proto
open GrpcMtk.Runs

/-- A client with `default_timeout_`, and the durations of its calls. -/
structure Timed where
  stream : RPCStream
  defaultTimeout : ℕ
  requested : CallId → ℕ

namespace Timed

/-- `USE_DEFAULT`. -/
def useDefault : ℕ := 0

def new : Timed where
  stream := .new
  defaultTimeout := RPCStream.timeoutDuration
  requested _ := RPCStream.timeoutDuration

inductive Action where
  /-- `SetDefaultTimeout`, from `mtk_conn_timeout`. -/
  | setDefaultTimeout (duration : ℕ)
  /-- `Call` for a buffer; `mtk_conn_send` leaves the duration to the default
  argument. -/
  | call (type : ℕ) (payload : Bytes) (timeoutMsec : ℕ)
  /-- `Call` for a system payload. -/
  | callSystem (kind : Kind) (payload : Bytes)
  /-- Anything else that the client does. -/
  | client (action : RPCStream.Action)
  deriving DecidableEq, Repr

/-- `Call` for a Request. -/
def callRequest (msg : Request) (timeoutMsec : ℕ) (timed : Timed) :
    Option Timed :=
  (timed.stream.step (.callBegin msg)).map fun stream =>
    { timed with
      stream
      requested :=
        Function.update timed.requested timed.stream.next timeoutMsec }

def step (timed : Timed) : Action → Option Timed
  | .setDefaultTimeout duration =>
      some { timed with defaultTimeout := duration }
  | .call type payload timeoutMsec =>
      timed.callRequest { type, msgid := 0, kind := .normal, payload }
        (if timeoutMsec = useDefault then timed.defaultTimeout
        else timeoutMsec)
  | .callSystem kind payload =>
      timed.callRequest { type := 0, msgid := 0, kind, payload }
        RPCStream.timeoutDuration
  | .client (.callBegin _) => none
  | .client action =>
      -- The only call among these is that of `StartWrite`.
      (timed.stream.step action).map fun stream =>
        { timed with
          stream
          requested := Function.update timed.requested timed.stream.next
            RPCStream.timeoutDuration }

/-- The time that `ProcessTimeout` is called with, if the action is that. -/
def scans (timed : Timed) : Action → Option ℕ
  | .client (.update _) =>
      match timed.stream.updating with
      | .processTimeout now => some now
      | _ => none
  | _ => none

/-- The call has lasted longer than it was to. -/
def Overdue (timed : Timed) (now : ℕ) (entry : SEntry) : Prop :=
  entry.startAt + timed.requested entry.call < now

instance (timed : Timed) (now : ℕ) (entry : SEntry) :
    Decidable (timed.Overdue now entry) :=
  inferInstanceAs (Decidable (_ < _))

/-- `ProcessTimeout` removes the overdue calls and no others, and completes
each of them once with `TIMEOUT_ERROR`. -/
def Honoured (timed : Timed) (action : Action) (next : Timed) : Prop :=
  ∀ now ∈ timed.scans action,
    next.stream.reqmap.entries =
        (timed.stream.reqmap.entries.filter fun entry =>
          ¬timed.Overdue now entry.2) ∧
      next.stream.invoked.Perm
        ((timed.stream.reqmap.entries.filter fun entry =>
            timed.Overdue now entry.2).map
              (fun entry => (entry.2.call, .timeoutError)) ++
          timed.stream.invoked)

instance (timed : Timed) (action : Action) (next : Timed) :
    Decidable (timed.Honoured action next) :=
  inferInstanceAs (Decidable (∀ _ ∈ _, _ ∧ _))

/-- The deadline that the code has for an entry. -/
def measured (entry : SEntry) : ℕ :=
  (entry.startAt + RPCStream.timeoutDuration) % 2 ^ 64

/-- `ProcessTimeout` is not called between the deadline that an outstanding
call asked for and the one that the code has for it. -/
def Unambiguous (timed : Timed) (action : Action) : Prop :=
  ∀ now ∈ timed.scans action, ∀ entry ∈ timed.stream.reqmap.entries,
    ¬(min (entry.2.startAt + timed.requested entry.2.call)
          (measured entry.2) < now ∧
        now ≤ max (entry.2.startAt + timed.requested entry.2.call)
          (measured entry.2))

/-- No duration but `TIMEOUT_DURATION` is asked for, and the clock is not close
to its end. -/
def Standard (timed : Timed) : Action → Prop
  | .setDefaultTimeout duration => duration = RPCStream.timeoutDuration
  | .call _ _ timeoutMsec =>
      timeoutMsec = useDefault ∨ timeoutMsec = RPCStream.timeoutDuration
  | action =>
      timed.scans action ≠ none →
        ∀ entry ∈ timed.stream.reqmap.entries,
          entry.2.startAt + RPCStream.timeoutDuration < 2 ^ 64

section Steps

variable {timed next : Timed} {action : Action}

theorem step_client_eq_some {act : RPCStream.Action}
    (hstep : timed.step (.client act) = some next) :
    timed.stream.step act = some next.stream := by
  rw [step] at hstep
  · obtain ⟨stream, hstream, rfl⟩ := Option.map_eq_some_iff.mp hstep
    exact hstream
  · rintro msg rfl
    contradiction

theorem scans_eq_some {now : ℕ} (hscans : timed.scans action = some now) :
    ∃ input, action = .client (.update input) ∧
      timed.stream.updating = .processTimeout now := by
  unfold scans at hscans
  split at hscans
  case h_1 input =>
    split at hscans
    case h_1 now hupdating =>
      obtain rfl := Option.some.inj hscans
      exact ⟨input, rfl, hupdating⟩
    · contradiction
  · contradiction

/-- What `ProcessTimeout` removes and completes. -/
theorem processTimeout_of_scans {now : ℕ}
    (hstep : timed.step action = some next)
    (hscans : timed.scans action = some now) :
    next.stream.reqmap.entries =
        (timed.stream.reqmap.entries.filter fun entry =>
          ¬measured entry.2 < now) ∧
      next.stream.invoked =
        ((timed.stream.reqmap.entries.filter fun entry =>
            measured entry.2 < now).map
              (fun entry => (entry.2.call, Outcome.timeoutError))).reverse ++
          timed.stream.invoked := by
  obtain ⟨input, rfl, hupdating⟩ := scans_eq_some hscans
  have hact := (RPCStream.step_eq_some.mp (step_client_eq_some hstep)).2
  rw [RPCStream.act, RPCStream.update, hupdating] at hact
  obtain ⟨status, replys, heq⟩ := RPCStream.processTimeout_eq
    { timed.stream with updating := .start } now input.onOpenStream
  rw [← Option.some.inj hact, heq]
  refine ⟨?_, rfl⟩
  rw [RPCStream.expired, OrdMap.entries_foldl_erase_filter]
  exact List.filter_congr fun entry _ => by rw [← decide_not]; rfl

/-- No `now` lies between two deadlines exactly if it comes behind both or
neither. -/
theorem not_between_iff (first second now : ℕ) :
    ¬(min first second < now ∧ now ≤ max first second) ↔
      (second < now ↔ first < now) := by
  omega

theorem honoured_iff (hstep : timed.step action = some next) :
    timed.Honoured action next ↔ timed.Unambiguous action := by
  refine forall_congr' fun now => forall_congr' fun hscans => ?_
  obtain ⟨hentries, hinvoked⟩ := processTimeout_of_scans hstep hscans
  simp only [not_between_iff]
  rw [hentries, hinvoked]
  constructor
  · rintro ⟨hsame, -⟩ entry hentry
    have hkept := congrArg (entry ∈ ·) hsame
    simp only [List.mem_filter, hentry, true_and, decide_eq_true_eq] at hkept
    exact not_iff_not.mp (Iff.of_eq hkept)
  · intro hagree
    constructor
    · apply List.filter_congr
      intro entry hentry
      rw [decide_eq_decide, hagree entry hentry]
      rfl
    · have hremoved : (timed.stream.reqmap.entries.filter fun entry =>
          measured entry.2 < now) =
            timed.stream.reqmap.entries.filter fun entry =>
              timed.Overdue now entry.2 := by
        apply List.filter_congr
        intro entry hentry
        rw [decide_eq_decide, hagree entry hentry]
        rfl
      rw [hremoved]
      exact (List.reverse_perm _).append_right _

/-- Every duration recorded is `TIMEOUT_DURATION`. -/
structure Uniform (timed : Timed) : Prop where
  defaultTimeout : timed.defaultTimeout = RPCStream.timeoutDuration
  requested : ∀ call, timed.requested call = RPCStream.timeoutDuration

theorem uniform_new : Uniform new := ⟨rfl, fun _ => rfl⟩

theorem Uniform.update (huniform : timed.Uniform) (stream : RPCStream)
    {timeoutMsec : ℕ} (htimeout : timeoutMsec = RPCStream.timeoutDuration) :
    Uniform { timed with
      stream
      requested :=
        Function.update timed.requested timed.stream.next timeoutMsec } where
  defaultTimeout := huniform.defaultTimeout
  requested call := by
    dsimp only
    by_cases hcall : call = timed.stream.next
    · rw [hcall, Function.update_self, htimeout]
    · rw [Function.update_of_ne hcall, huniform.requested]

theorem Uniform.step (huniform : timed.Uniform)
    (hstep : timed.step action = some next)
    (hstandard : timed.Standard action) : next.Uniform := by
  unfold Timed.step at hstep
  split at hstep
  case h_1 duration =>
    obtain rfl := Option.some.inj hstep
    exact ⟨hstandard, huniform.requested⟩
  case h_2 type payload timeoutMsec =>
    obtain ⟨stream, -, rfl⟩ := Option.map_eq_some_iff.mp hstep
    apply huniform.update
    split
    · exact huniform.defaultTimeout
    case isFalse hother => exact hstandard.resolve_left hother
  case h_4 => contradiction
  all_goals
    obtain ⟨stream, -, rfl⟩ := Option.map_eq_some_iff.mp hstep
    exact huniform.update stream rfl

theorem Uniform.unambiguous (huniform : timed.Uniform)
    (hstandard : timed.Standard action) : timed.Unambiguous action := by
  intro now hscans entry hentry
  obtain ⟨input, rfl, -⟩ := scans_eq_some hscans
  have hbound := hstandard (by rw [Option.mem_def.mp hscans]; simp) entry hentry
  rw [not_between_iff, measured, Nat.mod_eq_of_lt hbound, huniform.requested]

/-- Where nobody asks for another duration the one that the code has is the
right one. -/
theorem honoured_of_standard {actions : List Action}
    (hstandard : AllSteps step (fun timed action _ => timed.Standard action)
      new actions) : AllSteps step Honoured new actions :=
  hstandard.of_invariant
    (fun _ _ _ huniform hstep hstandard => huniform.step hstep hstandard)
    (fun _ _ _ huniform hstep hstandard =>
      (honoured_iff hstep).mpr (huniform.unambiguous hstandard))
    uniform_new

end Steps

/-- Every call that times out does so by its own duration exactly if
`ProcessTimeout` never finds one of which only one deadline is over. -/
theorem timeouts_honoured_iff (timed : Timed) (actions : List Action) :
    AllSteps step Honoured timed actions ↔
      AllSteps step (fun timed action _ => timed.Unambiguous action) timed
        actions := by
  apply allSteps_congr
  intro timed action next hstep
  exact honoured_iff hstep

private def answered (now : ℕ) : Action :=
  .client (.update
    { ready := true
      onOpenStream := true
      onCloseStream := 0
      addPayload := []
      now })

private def blank : Reply :=
  { type := 0, msgid := 0, error := none, payload := [] }

/-- A call for which `mtk_conn_timeout` has set five seconds is still
outstanding after ten. -/
theorem timeouts_honoured_iff_fails :
    ¬AllSteps step Honoured new
      (List.replicate 3 (answered 1) ++
        [.client .ioTimeout, .client (.ioEvent 0 true blank)] ++
        List.replicate 7 (answered 1) ++
        [.setDefaultTimeout 5000000000, .call 1 [] useDefault,
          .client (.callNumber 1 1), .client (.callEnqueue 1),
          .client (.callInsert 1)] ++
        List.replicate 4 (answered 10000000001)) := by
  decide

end Timed

end GrpcMtk
