import GrpcMtk.Client.Callbacks

/-!
# The completion of calls

A reply and a timeout take an entry out of `reqmap_` and run its callback.
`DrainQueue` deletes the entries and runs nothing, and so does `Call` with an
entry whose msgid it uses again.  Entries are completed in exactly the runs in
which `DrainQueue` only ever finds an empty map and no msgid in use is
assigned.
-/

namespace GrpcMtk

open GrpcMtk.Proto
open GrpcMtk.Runs
open GrpcMtk.CallTable

namespace RPCStream

/-- The call has an entry in `reqmap_`. -/
def Outstanding (stream : RPCStream) (call : CallId) : Prop :=
  ∃ entry ∈ stream.reqmap.entries, entry.2.call = call

instance (stream : RPCStream) (call : CallId) :
    Decidable (stream.Outstanding call) :=
  inferInstanceAs (Decidable (∃ entry ∈ _, _))

/-- A call that was put into `reqmap_` and is no longer there has had its
callback run exactly once. -/
def AllCompleted (stream : RPCStream) : Prop :=
  ∀ call ∈ stream.inserted, ¬stream.Outstanding call →
    stream.invocations call = 1

instance (stream : RPCStream) : Decidable stream.AllCompleted :=
  inferInstanceAs (Decidable (∀ call ∈ stream.inserted, _ → _))

/-- No entry is deleted without its callback having run. -/
def KeepsEntries (stream : RPCStream) (action : Action) : Prop :=
  stream.InsertsFree action ∧ stream.ClearsEmpty action

theorem outstanding_iff {stream : RPCStream} {call : CallId} :
    stream.Outstanding call ↔
      ∃ msgid, stream.calls.table msgid = some call := by
  constructor
  · rintro ⟨⟨msgid, entry⟩, hentry, rfl⟩
    exact ⟨msgid, table_of_reqmap (OrdMap.find?_eq_some.mpr hentry)⟩
  · rintro ⟨msgid, htable⟩
    obtain ⟨entry, hentry, hcall⟩ :=
      (OrdMap.lookup_eq_some SEntry.call).mp htable
    exact ⟨(msgid, entry), hentry, hcall⟩

/-- Completion is the completeness of the table of calls. -/
theorem allCompleted_iff {stream : RPCStream}
    (hcalls : Consistent stream.calls) :
    stream.AllCompleted ↔ Complete stream.calls := by
  constructor
  · rintro hcompleted call ⟨hregistered, habsent, hunsettled⟩
    have hone := hcompleted call hregistered fun houtstanding => by
      obtain ⟨msgid, htable⟩ := outstanding_iff.mp houtstanding
      exact habsent msgid htable
    rw [invocations_eq_zero.mpr hunsettled] at hone
    contradiction
  · intro hcomplete call hinserted hgone
    apply Nat.le_antisymm (invocations_le_one hcalls call)
    apply invocations_pos.mpr
    by_contra hunsettled
    apply hcomplete call
    refine ⟨hinserted, fun msgid htable => ?_, hunsettled⟩
    exact hgone (outstanding_iff.mpr ⟨msgid, htable⟩)

theorem allCompleted_step_iff {stream next : RPCStream} {action : Action}
    (hcalls : Consistent stream.calls) (hcompleted : stream.AllCompleted)
    (hstep : stream.step action = some next) :
    next.AllCompleted ↔ stream.KeepsEntries action := by
  have hdid := did_of_step hstep
  rw [allCompleted_iff (consistent_step hcalls hstep),
    complete_exec_iff hcalls ((allCompleted_iff hcalls).mp hcompleted)
      (did_calls hcalls hdid)]
  exact moves_keep_iff hdid

/-- In every run of the client, the callback of an entry that has left
`reqmap_` has run exactly once if and only if no step deletes an entry whose
callback has not run. -/
theorem all_completed (actions : List Action) :
    AllSteps step (fun _ _ next => next.AllCompleted) RPCStream.new actions ↔
      AllSteps step (fun stream action _ => stream.KeepsEntries action)
        RPCStream.new actions := by
  apply @allSteps_iff_of_invariant _ _ step
    (fun stream => Consistent stream.calls ∧ stream.AllCompleted)
  · rintro stream action next ⟨hcalls, hcompleted⟩ hstep hkeeps
    exact ⟨consistent_step hcalls hstep,
      (allCompleted_step_iff hcalls hcompleted hstep).mpr hkeeps⟩
  · rintro stream action next ⟨hcalls, hcompleted⟩ hstep
    exact allCompleted_step_iff hcalls hcompleted hstep
  · exact ⟨consistent_new, fun call hcall => absurd hcall List.not_mem_nil⟩

private def polled (ready : Bool) : UpdateInput where
  ready
  onOpenStream := true
  onCloseStream := 0
  addPayload := []
  now := 1

private def noReply : Reply :=
  { type := 0, msgid := 0, error := none, payload := [] }

private def plainRequest : Request :=
  { type := 1, msgid := 0, kind := .normal, payload := [] }

/-- The client connects, the application calls, and then `Ready()` turns
false: the callbacks of `StartWrite` and of the call are dropped with their
entries. -/
theorem all_completed_fails :
    ¬AllSteps step (fun _ _ next => next.AllCompleted) RPCStream.new
      (List.replicate 3 (.update (polled true)) ++
        [.ioTimeout, .ioEvent 0 true noReply] ++
        List.replicate 7 (.update (polled true)) ++
        [.callBegin plainRequest, .callNumber 1 1, .callEnqueue 1,
          .callInsert 1] ++
        List.replicate 6 (.update (polled false))) := by
  decide

end RPCStream

end GrpcMtk
