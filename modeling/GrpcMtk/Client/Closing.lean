import GrpcMtk.Client.Events
import GrpcMtk.Client.Status
import Mathlib.Data.List.Chain

/-!
# One close for each connection attempt

A `DISCONNECT_EVENT` comes from a rejected login, from `Release`, or from a
failed read, and does not say which connection it is about.  `ProcessReply`
handles it in every status, so what is late for one attempt closes the client
again.

The attempt under way is recorded beside the client.
-/

namespace GrpcMtk

open GrpcMtk.Proto
open GrpcMtk.Runs

/-- What a step shows: the status goes from DISCONNECT to CONNECTING, or
`OnCloseStream` is called. -/
inductive Mark where
  | attempt
  | close
  deriving DecidableEq, Repr

/-- Behind the first attempt no two closes come without an attempt between
them. -/
def OncePerAttempt (marks : List Mark) : Prop :=
  (marks.dropWhile (· = .close)).IsChain
    fun first second => first = .attempt ∨ second = .attempt

instance (marks : List Mark) : Decidable (OncePerAttempt marks) :=
  inferInstanceAs (Decidable (List.IsChain _ _))

/-- What has come of the latest connection attempt. -/
inductive Attempt where
  | idle
  | begun
  | closed
  deriving DecidableEq, Repr

def Attempt.advance : Attempt → Mark → Attempt
  | _, .attempt => .begun
  | .idle, .close => .idle
  | .begun, .close => .closed
  | .closed, .close => .closed

namespace RPCStream

def marks (stream : RPCStream) (action : Action) : List Mark :=
  (match stream.step action with
    | none => []
    | some next =>
        if stream.status = .disconnect ∧ next.status = .connecting then
          [.attempt]
        else []) ++
    (stream.closings action).map fun _ => .close

/-- What `ProcessReply` takes from `replys_` and calls `DrainQueue` for. -/
def taken (stream : RPCStream) : Action → Option DrainReason
  | .update _ =>
      match stream.updating, stream.replys.head? with
      | .processReply, some .disconnectEvent => some .disconnectEvent
      | .processReply, some .establishedEvent => some .establishedEvent
      | _, _ => none
  | _ => none

/-- `ProcessReply` takes a connection event only while the status is not
DISCONNECT. -/
def Timely (stream : RPCStream) (action : Action) : Prop :=
  stream.taken action ≠ none → stream.status ≠ .disconnect

instance (stream : RPCStream) (action : Action) :
    Decidable (stream.Timely action) :=
  inferInstanceAs (Decidable (_ → _))

end RPCStream

/-- A client, with the connection attempt that it has begun last. -/
structure Attempting where
  stream : RPCStream
  attempt : Attempt

namespace Attempting

def new : Attempting := ⟨.new, .idle⟩

def step (client : Attempting) (action : RPCStream.Action) :
    Option Attempting :=
  (client.stream.step action).map fun next =>
    ⟨next, (client.stream.marks action).foldl Attempt.advance client.attempt⟩

/-- `ProcessReply` takes no DISCONNECT_EVENT after the attempt is closed. -/
def Fresh (client : Attempting) (action : RPCStream.Action) : Prop :=
  client.stream.taken action = some .disconnectEvent →
    client.attempt ≠ .closed

instance (client : Attempting) (action : RPCStream.Action) :
    Decidable (client.Fresh action) :=
  inferInstanceAs (Decidable (_ → _))

end Attempting

namespace RPCStream

section Steps

variable {stream next : RPCStream} {action : Action}

theorem marks_eq (hstep : stream.step action = some next) :
    stream.marks action =
      (if stream.status = .disconnect ∧ next.status = .connecting then
        [.attempt] else []) ++
      (stream.closings action).map fun _ => .close := by
  rw [marks, hstep]

theorem marks_of_quiet (hstep : stream.step action = some next)
    (hstatus : next.status = stream.status)
    (hclosings : stream.closings action = []) : stream.marks action = [] := by
  rw [marks_eq hstep, hclosings, hstatus, if_neg]
  · rfl
  · rintro ⟨hdisconnect, hconnecting⟩
    rw [hdisconnect] at hconnecting
    contradiction

/-- `OnCloseStream` is called at the end of the `DrainQueue` that a
DISCONNECT_EVENT has started. -/
theorem close_mem_marks (hstep : stream.step action = some next)
    (hclose : .close ∈ stream.marks action) :
    stream.updating = .drainReqmap .disconnectEvent ∧
      next.status = .disconnect ∧ stream.marks action = [.close] := by
  have hclosings : stream.closings action ≠ [] := by
    intro hnone
    rw [marks_eq hstep, hnone] at hclose
    split at hclose <;> simp at hclose
  cases action with
  | update input =>
      by_cases hupdating : stream.updating = .drainReqmap .disconnectEvent
      · have hupdate := (step_eq_some.mp hstep).2
        rw [act, update, hupdating] at hupdate
        obtain rfl := Option.some.inj hupdate
        refine ⟨hupdating, rfl, ?_⟩
        rw [marks_eq hstep, closings, if_pos hupdating, if_neg (by simp [settle])]
        rfl
      · rw [closings, if_neg hupdating] at hclosings
        contradiction
  | _ => exact absurd rfl hclosings

theorem drainReason_switchStatus (input : UpdateInput) (stream : RPCStream) :
    drainReason (stream.switchStatus input).updating = none := by
  rw [switchStatus]
  split
  · split <;> rfl
  all_goals rfl

/-- `DrainQueue` goes on, or it starts for the event that was taken. -/
theorem drain_of_update {input : UpdateInput} {reason : DrainReason}
    (hreason : reason ≠ .notReady)
    (hupdate : stream.update input = some next)
    (hdrain : drainReason next.updating = some reason) :
    (drainReason stream.updating = some reason ∨
        stream.taken (.update input) = some reason) ∧
      next.status = stream.status ∧ stream.closings (.update input) = [] := by
  rw [update] at hupdate
  split at hupdate
  case h_1 hupdating =>
    split at hupdate <;> obtain rfl := Option.some.inj hupdate
    · contradiction
    · exact absurd (Option.some.inj hdrain).symm hreason
  case h_2 hupdating =>
    have hclosings : stream.closings (.update input) = [] := by
      simp [closings, hupdating]
    split at hupdate
    case h_1 hreplys =>
      obtain rfl := Option.some.inj hupdate
      contradiction
    case h_4 reply rest hreplys =>
      obtain rfl := Option.some.inj hupdate
      obtain ⟨reqmap, invoked, status, replys, notified, heq⟩ :=
        processReply_eq { stream with replys := rest } reply input.onOpenStream
      rw [heq] at hdrain
      simp [hupdating, drainReason] at hdrain
    all_goals
      rename_i rest hreplys
      obtain rfl := Option.some.inj hupdate
      refine ⟨Or.inr ?_, rfl, hclosings⟩
      rw [taken, hupdating, hreplys]
      exact hdrain
  case h_3 drained hupdating =>
    have hclosings : stream.closings (.update input) = [] := by
      simp [closings, hupdating]
    split at hupdate <;> obtain rfl := Option.some.inj hupdate
    · refine ⟨Or.inl ?_, rfl, hclosings⟩
      rw [hupdating]
      exact hdrain
    · exact ⟨Or.inl hdrain, rfl, hclosings⟩
  case h_4 drained hupdating =>
    have hclosings : stream.closings (.update input) = [] := by
      simp [closings, hupdating]
    split at hupdate
    · obtain rfl := Option.some.inj hupdate
      refine ⟨Or.inl ?_, rfl, hclosings⟩
      rw [hupdating]
      exact hdrain
    case h_2 item rest hrequests =>
      obtain rfl := Option.some.inj hupdate
      obtain ⟨consumed, drained, crashed, heq⟩ :=
        deleteRequest_eq { stream with requests := rest } item
      rw [heq] at hdrain ⊢
      exact ⟨Or.inl hdrain, rfl, hclosings⟩
  case h_5 drained hupdating =>
    obtain rfl := Option.some.inj hupdate
    cases drained <;> contradiction
  case h_6 hupdating =>
    obtain rfl := Option.some.inj hupdate
    rw [drainReason_switchStatus] at hdrain
    contradiction
  case h_7 now hupdating =>
    obtain rfl := Option.some.inj hupdate
    obtain ⟨status, replys, heq⟩ := processTimeout_eq
      { stream with updating := .start } now input.onOpenStream
    rw [heq] at hdrain
    contradiction
  case h_8 => contradiction

theorem drain_of_step {reason : DrainReason} (hreason : reason ≠ .notReady)
    (hstep : stream.step action = some next)
    (hdrain : drainReason next.updating = some reason) :
    (drainReason stream.updating = some reason ∨
        stream.taken action = some reason) ∧
      stream.marks action = [] := by
  by_cases hupdate : ∃ input, action = .update input
  · obtain ⟨input, rfl⟩ := hupdate
    obtain ⟨hbefore, hstatus, hclosings⟩ :=
      drain_of_update hreason (step_eq_some.mp hstep).2 hdrain
    exact ⟨hbefore, marks_of_quiet hstep hstatus hclosings⟩
  · have hdid := did_of_step hstep
    by_cases hstop : action = .stop
    · subst hstop
      have hstopped : next.updating = .stop := by
        cases hdid
        obtain ⟨iothr, -, -, -, heq | heq⟩ := stop_eq stream <;> rw [heq]
        rfl
      rw [hstopped] at hdrain
      contradiction
    · obtain ⟨hupdating, hstatus⟩ :=
        did_elsewhere hdid (not_exists.mp hupdate) hstop
      refine ⟨Or.inl (hupdating ▸ hdrain), marks_of_quiet hstep hstatus ?_⟩
      cases action with
      | update input => exact absurd ⟨input, rfl⟩ hupdate
      | _ => rfl

/-- A step shows one mark at most. -/
theorem marks_cases (hstep : stream.step action = some next) :
    stream.marks action = [] ∨ stream.marks action = [.attempt] ∨
      stream.marks action = [.close] := by
  by_cases hclose : .close ∈ stream.marks action
  · exact Or.inr (Or.inr (close_mem_marks hstep hclose).2.2)
  · rw [marks_eq hstep] at hclose ⊢
    cases hclosings : stream.closings action with
    | nil =>
        rw [List.map_nil, List.append_nil]
        split
        · exact Or.inr (Or.inl rfl)
        · exact Or.inl rfl
    | cons attempt rest =>
        rw [hclosings] at hclose
        exact absurd (List.mem_append_right _ List.mem_cons_self) hclose

/-- Only a close or an establishment touches `reconnect_when_`, and only a
close puts it off. -/
theorem reconnectWhen_of_step (hstep : stream.step action = some next)
    (hclosings : stream.closings action = []) :
    next.reconnectWhen ≤ stream.reconnectWhen := by
  have hdid := did_of_step hstep
  by_cases hio : action.onIOThread
  · obtain ⟨replys, requests, iothr, consumed, drained, crashed, rfl⟩ :=
      did_onIOThread hdid hio
    exact Nat.le_refl _
  · cases hdid with
    | callBegin request =>
        rcases callBegin_eq stream request with ⟨-, heq⟩ | heq <;> rw [heq]
    | @update input next hupdated =>
        cases hupdated with
        | move => exact Nat.le_refl _
        | @processReply reply rest hupdating hreplys =>
            obtain ⟨reqmap, invoked, status, replys, notified, heq⟩ :=
              processReply_eq { stream with replys := rest } reply
                input.onOpenStream
            rw [heq]
        | @drainRequest reason item rest hupdating hrequests =>
            obtain ⟨consumed, drained, crashed, heq⟩ :=
              deleteRequest_eq { stream with requests := rest } item
            rw [heq]
        | @drainReqmap reason hupdating =>
            cases reason with
            | notReady => exact Nat.le_refl _
            | disconnectEvent =>
                rw [closings, if_pos hupdating] at hclosings
                contradiction
            | establishedEvent => exact Nat.zero_le _
        | switch hupdating =>
            rcases switchStatus_eq stream input with
              ⟨updating, heq⟩ | ⟨status, attempt, iothr, -, heq⟩ | ⟨-, heq⟩
            · rw [heq]
            · rw [heq]
            · rw [heq]
              exact Nat.le_refl _
        | @processTimeout now hupdating =>
            obtain ⟨status, replys, heq⟩ := processTimeout_eq
              { stream with updating := .start } now input.onOpenStream
            rw [heq]
    | stop =>
        obtain ⟨iothr, -, -, -, heq | heq⟩ := stop_eq stream
        · rw [heq]
        · rw [heq]
          exact Nat.le_refl _
    | stopTimeout | ioTimeout | ioEvent | ioShutdown | ioDrain =>
        exact absurd trivial hio
    | _ => exact Nat.le_refl _

/-- In DISCONNECT there is no Connect request to be answered. -/
def OnlyUser (stream : RPCStream) : Prop :=
  stream.status = .disconnect →
    ∀ msgid entry, (msgid, entry) ∈ stream.reqmap.entries → entry.cb = .user

theorem OnlyUser.of_subset (honly : stream.OnlyUser)
    (hstatus : next.status = stream.status)
    (hreqmap : next.reqmap.entries ⊆ stream.reqmap.entries) :
    next.OnlyUser :=
  fun hdisconnect msgid entry hmem =>
    honly (hstatus ▸ hdisconnect) msgid entry (hreqmap hmem)

theorem OnlyUser.update {input : UpdateInput} (honly : stream.OnlyUser)
    (hupdated : Updated stream input next) : next.OnlyUser := by
  cases hupdated with
  | move => exact honly
  | @processReply reply rest hupdating hreplys =>
      rcases status_processReply { stream with replys := rest } reply
        input.onOpenStream with
        ⟨hstatus, hreqmap⟩ | ⟨entry, -, -, -, -, hstatus, -⟩
      · exact honly.of_subset hstatus hreqmap
      · intro hdisconnect
        rw [hstatus] at hdisconnect
        contradiction
  | @drainRequest reason item rest hupdating hrequests =>
      obtain ⟨consumed, drained, crashed, heq⟩ :=
        deleteRequest_eq { stream with requests := rest } item
      rw [heq]
      exact honly
  | @drainReqmap reason hupdating =>
      intro _ msgid entry hmem
      cases reason <;> exact absurd hmem List.not_mem_nil
  | switch hupdating =>
      rw [switchStatus]
      split
      · split
        · exact honly
        · exact fun hdisconnect => NetworkStatus.noConfusion hdisconnect
      case h_3 => exact fun hdisconnect => NetworkStatus.noConfusion hdisconnect
      all_goals exact honly
  | @processTimeout now hupdating =>
      refine honly.of_subset (status_processTimeout _ now _) ?_
      obtain ⟨status, replys, heq⟩ := processTimeout_eq
        { stream with updating := .start } now input.onOpenStream
      rw [heq]
      exact fun entry hmem => (OrdMap.mem_foldl_erase.mp hmem).1

theorem OnlyUser.step (honly : stream.OnlyUser)
    (hstep : stream.step action = some next) : next.OnlyUser := by
  have hdid := did_of_step hstep
  by_cases hio : action.onIOThread
  · obtain ⟨replys, requests, iothr, consumed, drained, crashed, rfl⟩ :=
      did_onIOThread hdid hio
    exact honly
  · cases hdid with
    | callBegin request =>
        rcases callBegin_eq stream request with ⟨-, heq⟩ | heq
        all_goals
          rw [heq]
          exact honly
    | @callInsert call msgid startAt hcalling =>
        intro hdisconnect other entry hmem
        rcases OrdMap.mem_assign.mp hmem with hnew | ⟨hold, -⟩
        · exact congrArg (fun entry => entry.2.cb) hnew
        · exact honly hdisconnect other entry hold
    | update hupdated => exact honly.update hupdated
    | stop =>
        obtain ⟨iothr, -, -, -, heq | heq⟩ := stop_eq stream
        all_goals
          rw [heq]
          exact honly
    | stopTimeout | ioTimeout | ioEvent | ioShutdown | ioDrain =>
        exact absurd trivial hio
    | _ => exact honly

/-- The status leaves DISCONNECT with an attempt or behind an
ESTABLISHED_EVENT. -/
theorem OnlyUser.disconnect (honly : stream.OnlyUser)
    (hstep : stream.step action = some next)
    (hdisconnect : stream.status = .disconnect) :
    next.status = .disconnect ∨ next.status = .connecting ∨
      stream.updating = .drainReqmap .establishedEvent := by
  have hdid := did_of_step hstep
  cases hdid with
  | @update input next hupdated =>
      cases hupdated with
      | move => exact Or.inl hdisconnect
      | @processReply reply rest hupdating hreplys =>
          rcases status_processReply { stream with replys := rest } reply
            input.onOpenStream with
            ⟨hstatus, -⟩ | ⟨entry, hfound, hcb, -⟩
          · exact Or.inl (hstatus.trans hdisconnect)
          · have huser := honly hdisconnect reply.msgid entry
              (OrdMap.find?_eq_some.mp hfound)
            rw [hcb] at huser
            contradiction
      | @drainRequest reason item rest hupdating hrequests =>
          obtain ⟨consumed, drained, crashed, heq⟩ :=
            deleteRequest_eq { stream with requests := rest } item
          rw [heq]
          exact Or.inl hdisconnect
      | @drainReqmap reason hupdating =>
          cases reason with
          | notReady => exact Or.inl rfl
          | disconnectEvent => exact Or.inl rfl
          | establishedEvent => exact Or.inr (Or.inr hupdating)
      | switch hupdating =>
          rw [switchStatus, hdisconnect]
          dsimp only
          split
          · exact Or.inl rfl
          · exact Or.inr (Or.inl rfl)
      | @processTimeout now hupdating =>
          rw [status_processTimeout]
          exact Or.inl hdisconnect
  | stop =>
      obtain ⟨iothr, -, -, -, heq | heq⟩ := stop_eq stream
      all_goals
        rw [heq]
        exact Or.inl hdisconnect
  | _ =>
      have hsame := (did_elsewhere (did_of_step hstep) (by simp) (by simp)).2
      exact Or.inl (hsame.trans hdisconnect)

end Steps

end RPCStream

/-! ## Closing once -/

/-- Nothing that comes behind this closes an attempt twice. -/
def Attempt.Continues (marks : List Mark) : Attempt → Prop
  | .idle => OncePerAttempt marks
  | .begun => (.attempt :: marks).IsChain
      fun first second => first = .attempt ∨ second = .attempt
  | .closed => (.close :: marks).IsChain
      fun first second => first = .attempt ∨ second = .attempt

theorem Attempt.continues_nil (attempt : Attempt) : attempt.Continues [] := by
  cases attempt with
  | idle => exact List.isChain_nil
  | begun => exact List.isChain_singleton _
  | closed => exact List.isChain_singleton _

theorem Attempt.Continues.attempt {marks : List Mark}
    (hcontinues : Attempt.begun.Continues marks) (attempt : Attempt) :
    attempt.Continues (.attempt :: marks) := by
  cases attempt with
  | idle => exact hcontinues
  | begun => exact List.isChain_cons_cons.mpr ⟨Or.inl rfl, hcontinues⟩
  | closed => exact List.isChain_cons_cons.mpr ⟨Or.inr rfl, hcontinues⟩

theorem Attempt.Continues.close {marks : List Mark} {attempt : Attempt}
    (hcontinues : (attempt.advance .close).Continues marks)
    (hopen : attempt ≠ .closed) : attempt.Continues (.close :: marks) := by
  cases attempt with
  | idle => exact hcontinues
  | begun => exact List.isChain_cons_cons.mpr ⟨Or.inl rfl, hcontinues⟩
  | closed => contradiction

theorem Attempt.foldl_eq_closed {attempt : Attempt} {marks : List Mark}
    (hclosed : marks.foldl advance attempt = .closed) :
    attempt = .closed ∨ .close ∈ marks := by
  induction marks generalizing attempt with
  | nil => exact Or.inl hclosed
  | cons mark rest ih =>
      rcases ih hclosed with hadvance | hmem
      · cases mark with
        | close => exact Or.inr List.mem_cons_self
        | attempt => contradiction
      · exact Or.inr (List.mem_cons_of_mem _ hmem)

namespace Attempting

section Steps

variable {client next : Attempting} {action : RPCStream.Action}

theorem step_eq_some : client.step action = some next ↔
    client.stream.step action = some next.stream ∧
      (client.stream.marks action).foldl Attempt.advance client.attempt =
        next.attempt := by
  rw [step, Option.map_eq_some_iff]
  constructor
  · rintro ⟨stream, hstream, rfl⟩
    exact ⟨hstream, rfl⟩
  · rintro ⟨hstream, hattempt⟩
    exact ⟨next.stream, hstream, by rw [hattempt]⟩

/-- While `DrainQueue` runs for a DISCONNECT_EVENT the attempt is not closed. -/
def Draining (client : Attempting) : Prop :=
  RPCStream.drainReason client.stream.updating = some .disconnectEvent →
    client.attempt ≠ .closed

theorem draining_step (hdraining : client.Draining)
    (hstep : client.step action = some next) (hfresh : client.Fresh action) :
    next.Draining := by
  intro hdrain
  obtain ⟨hstream, hattempt⟩ := step_eq_some.mp hstep
  obtain ⟨hbefore, hmarks⟩ := RPCStream.drain_of_step (by simp) hstream hdrain
  rw [hmarks, List.foldl_nil] at hattempt
  rw [← hattempt]
  rcases hbefore with hgoes | htaken
  · exact hdraining hgoes
  · exact hfresh htaken

/-- A step that calls `OnCloseStream` finds the attempt open. -/
theorem Draining.close (hdraining : client.Draining)
    (hstep : client.step action = some next)
    (hclose : .close ∈ client.stream.marks action) :
    client.attempt ≠ .closed := by
  have hupdating :=
    (RPCStream.close_mem_marks (step_eq_some.mp hstep).1 hclose).1
  exact hdraining (by rw [hupdating]; rfl)

/-- If every close finds its attempt open, no attempt is closed twice. -/
theorem continues_of_allSteps {actions : List RPCStream.Action}
    (hopen : AllSteps step (fun client action _ =>
      .close ∈ client.stream.marks action → client.attempt ≠ .closed)
        client actions) :
    client.attempt.Continues
      (observed RPCStream.step RPCStream.marks client.stream actions) := by
  induction actions generalizing client with
  | nil => exact client.attempt.continues_nil
  | cons action rest ih =>
      cases hstream : client.stream.step action with
      | none =>
          rw [observed, hstream]
          exact client.attempt.continues_nil
      | some stream =>
          have hstep : client.step action =
              some ⟨stream, (client.stream.marks action).foldl
                Attempt.advance client.attempt⟩ := by
            rw [step, hstream, Option.map_some]
          rw [allSteps_cons_of_step hstep] at hopen
          have hrest := ih hopen.2
          rw [observed_cons_of_step hstream]
          rcases RPCStream.marks_cases hstream with hnone | hattempt | hclose
          · rwa [hnone] at hrest ⊢
          · rw [hattempt] at hrest ⊢
            exact hrest.attempt client.attempt
          · rw [hclose] at hrest hopen ⊢
            exact hrest.close (hopen.1 List.mem_cons_self)

theorem once_of_fresh {actions : List RPCStream.Action}
    (hfresh : AllSteps step (fun client action _ => client.Fresh action) new
      actions) :
    OncePerAttempt
      (observed RPCStream.step RPCStream.marks RPCStream.new actions) := by
  refine @continues_of_allSteps new actions ?_
  refine AllSteps.of_invariant (fun client action next => draining_step)
    (fun client action next hdraining hstep _ => hdraining.close hstep) ?_
    hfresh
  intro hdrain
  contradiction

/-- A closed attempt has left the client in DISCONNECT. -/
structure Settled (client : Attempting) : Prop where
  status : client.attempt = .closed → client.stream.status = .disconnect
  draining : ∀ reason, reason ≠ .notReady →
    RPCStream.drainReason client.stream.updating = some reason →
      client.attempt ≠ .closed
  onlyUser : client.stream.OnlyUser

theorem settled_new : Settled new where
  status hclosed := by contradiction
  draining _ _ hdrain := by contradiction
  onlyUser _ _ _ hmem := absurd hmem List.not_mem_nil

theorem Settled.fresh (hsettled : client.Settled)
    (htimely : client.stream.Timely action) : client.Fresh action :=
  fun htaken hclosed => htimely (by simp [htaken]) (hsettled.status hclosed)

theorem settled_step (hsettled : client.Settled)
    (hstep : client.step action = some next)
    (htimely : client.stream.Timely action) : next.Settled := by
  obtain ⟨hstream, hattempt⟩ := step_eq_some.mp hstep
  refine ⟨fun hclosed => ?_, fun reason hreason hdrain => ?_,
    hsettled.onlyUser.step hstream⟩
  · rw [← hattempt] at hclosed
    rcases Attempt.foldl_eq_closed hclosed with hbefore | hclose
    · have hdisconnect := hsettled.status hbefore
      rcases hsettled.onlyUser.disconnect hstream hdisconnect with
        hstays | hconnecting | hestablished
      · exact hstays
      · have hmarks : .attempt ∈ client.stream.marks action := by
          rw [RPCStream.marks_eq hstream, if_pos ⟨hdisconnect, hconnecting⟩]
          exact List.mem_cons_self
        rcases RPCStream.marks_cases hstream with hnone | hbegun | hclose
        · rw [hnone] at hmarks
          contradiction
        · rw [hbegun] at hclosed
          contradiction
        · rw [hclose] at hmarks
          contradiction
      · refine absurd hbefore (hsettled.draining .establishedEvent (by simp) ?_)
        rw [hestablished]
        rfl
    · exact (RPCStream.close_mem_marks hstream hclose).2.1
  · obtain ⟨hbefore, hmarks⟩ := RPCStream.drain_of_step hreason hstream hdrain
    rw [hmarks, List.foldl_nil] at hattempt
    rw [← hattempt]
    rcases hbefore with hgoes | htaken
    · exact hsettled.draining reason hreason hgoes
    · intro hclosed
      exact htimely (by simp [htaken]) (hsettled.status hclosed)

theorem fresh_of_timely {actions : List RPCStream.Action}
    (htimely : AllSteps step
      (fun client action _ => client.stream.Timely action) new actions) :
    AllSteps step (fun client action _ => client.Fresh action) new actions :=
  AllSteps.of_invariant (fun _ _ _ => settled_step)
    (fun _ _ _ hsettled _ => hsettled.fresh) settled_new htimely

end Steps

/-- A connection attempt is closed at most once in every run in which
`ProcessReply` takes no DISCONNECT_EVENT after the attempt is closed; that is
so if it takes connection events only while the status is not DISCONNECT.
Without a close `reconnect_when_` is not put off. -/
theorem closed_once (actions : List RPCStream.Action) :
    (AllSteps step (fun client action _ => client.Fresh action) new actions →
        OncePerAttempt
          (observed RPCStream.step RPCStream.marks RPCStream.new actions)) ∧
      (AllSteps step (fun client action _ => client.stream.Timely action) new
          actions →
        OncePerAttempt
          (observed RPCStream.step RPCStream.marks RPCStream.new actions)) ∧
      AllSteps RPCStream.step
        (fun stream action next => stream.closings action = [] →
          next.reconnectWhen ≤ stream.reconnectWhen) RPCStream.new actions := by
  refine ⟨once_of_fresh, fun htimely => once_of_fresh (fresh_of_timely htimely),
    ?_⟩
  apply allSteps_of_forall
  intro stream action next hstep
  exact RPCStream.reconnectWhen_of_step hstep

private def polled : RPCStream.UpdateInput where
  ready := true
  onOpenStream := true
  onCloseStream := 5 * 1000 * 1000 * 1000
  addPayload := []
  now := 1

private def noReply : Reply :=
  { type := 0, msgid := 0, error := none, payload := [] }

/-- The application resets the client while the start of its stream is
outstanding. -/
theorem closed_once_reset :
    OncePerAttempt (observed RPCStream.step RPCStream.marks RPCStream.new
      (List.replicate 3 (.update polled) ++
        [.ioTimeout, .release, .releaseEnqueue] ++
        List.replicate 6 (.update polled))) :=
  (closed_once
    (List.replicate 3 (.update polled) ++
      [.ioTimeout, .release, .releaseEnqueue] ++
      List.replicate 6 (.update polled))).1 (by decide)

/-- Afterwards the start fails, which closes the attempt again. -/
theorem closed_once_fails :
    ¬OncePerAttempt (observed RPCStream.step RPCStream.marks RPCStream.new
      (List.replicate 3 (.update polled) ++
        [.ioTimeout, .release, .releaseEnqueue] ++
        List.replicate 6 (.update polled) ++
        [.ioEvent 0 false noReply, .ioDrain] ++
        List.replicate 5 (.update polled))) := by
  decide

end Attempting

end GrpcMtk
