import GrpcMtk.Client.Stream

/-!
# Login replies

`OnOpenStream` unpacks a login reply into the member `crep_`, which lives as
long as the client, and reports what `crep_` then holds.  protobuf merges: a
field that is not on the wire keeps the value it had.  A proto3 encoder leaves
out every field with its default value, so what a client reports of a login can
be left from an earlier one.

What protobuf makes of the bytes of a message is a parameter.
-/

namespace GrpcMtk

open GrpcMtk.Proto
open GrpcMtk.Runs

/-- The fields of a Connect that are on the wire, each with the last value it
has there. -/
structure Fields where
  id : Option ℕ
  payload : Option Bytes
  deriving DecidableEq, Repr

/-- A Connect without any field. -/
def blankConnect : SystemPayload.Connect where
  id := 0
  payload := []

/-- The fields on the wire replace those of the message. -/
def Fields.merge (fields : Fields) (message : SystemPayload.Connect) :
    SystemPayload.Connect where
  id := fields.id.getD message.id
  payload := fields.payload.getD message.payload

/-- protobuf's reader: whether the bytes are a message, and the fields it comes
across before it has read them all or fails. -/
abbrev Reader := Bytes → Bool × Fields

/-- `Codec::Unpack`, by `MergePartialFromCodedStream`: whether the result is
not negative, and the message it leaves. -/
def unpack (reader : Reader) (bytes : Bytes)
    (message : SystemPayload.Connect) : Bool × SystemPayload.Connect :=
  ((reader bytes).1, (reader bytes).2.merge message)

/-- What the bytes of a message encode. -/
def encoded (reader : Reader) (bytes : Bytes) : SystemPayload.Connect :=
  (unpack reader bytes blankConnect).2

/-- `Client`, with the calls of `on_connect` so far, newest first. -/
structure Client where
  stream : RPCStream
  cid : ℕ
  crep : SystemPayload.Connect
  connects : List (ℕ × Bytes)

namespace Client

/-- `Client::Client`. -/
def new : Client where
  stream := .new
  cid := 0
  crep := blankConnect
  connects := []

/-- `Client::OnOpenStream`, with the answer of `on_connect`. -/
def onOpenStream (reader : Reader) (r : ℤ) (p : Bytes) (answer : Bool)
    (client : Client) : Bool × Client :=
  if r < 0 then
    (answer, { client with connects := (0, []) :: client.connects })
  else
    let (unpacked, crep) := unpack reader p client.crep
    let client := { client with crep }
    if unpacked then
      (answer, { client with
        cid := crep.id
        connects := (crep.id, crep.payload) :: client.connects })
    else (false, client)

/-- The reply for which `StartWrite`'s callback calls `OnOpenStream`, if the
action is a step of `ProcessReply` that gets there, with the answer of
`on_connect`. -/
def opening (client : Client) : RPCStream.Action → Option (Reply × Bool)
  | .update input =>
      match client.stream.updating, client.stream.replys with
      | .processReply, .reply reply :: _ =>
          if client.stream.restarting ∨ reply.msgid = 0 then none
          else
            match client.stream.reqmap.find? reply.msgid with
            | some { cb := .startWrite, .. } =>
                if 0 ≤ (Outcome.replied reply).result then
                  some (reply, input.onOpenStream)
                else none
            | _ => none
      | _, _ => none
  | _ => none

/-- The action, with what `OnOpenStream` returns in it. -/
def returning (opened : Bool) : RPCStream.Action → RPCStream.Action
  | .update input => .update { input with onOpenStream := opened }
  | action => action

section System

variable (reader : Reader)

/-- A step of a client. -/
def step (client : Client) (action : RPCStream.Action) : Option Client :=
  match client.opening action with
  | none =>
      (client.stream.step action).map fun stream => { client with stream }
  | some (reply, answer) =>
      let outcome := Outcome.replied reply
      let (opened, next) := client.onOpenStream reader outcome.result
        outcome.payload answer
      (client.stream.step (returning opened action)).map
        fun stream => { next with stream }

/-- The payloads handed to `OnOpenStream`. -/
def opened (client : Client) (action : RPCStream.Action) : List Bytes :=
  ((client.opening action).map fun opening =>
    (Outcome.replied opening.1).payload).toList

/-- A login reply is reported as it was sent: `on_connect` gets the id and the
payload it encodes, and `Id()` is this id. -/
def Reported (client : Client) (action : RPCStream.Action) (next : Client) :
    Prop :=
  ∀ p ∈ client.opened action, (reader p).1 = true →
    next.connects =
        ((encoded reader p).id, (encoded reader p).payload) ::
          client.connects ∧
      next.cid = (encoded reader p).id

instance (client : Client) (action : RPCStream.Action) (next : Client) :
    Decidable (client.Reported reader action next) :=
  inferInstanceAs (Decidable (∀ _ ∈ _, _ → _ ∧ _))

/-- The value of a field that was last on the wire. -/
def latest {Value : Type} (field : Fields → Option Value)
    (replies : List Bytes) : Option Value :=
  (replies.filterMap fun p => field (reader p).2).getLast?

/-- A reply leaves no field out that the ones before it left with a value
other than the default. -/
def Fresh (earlier : List Bytes) (p : Bytes) : Prop :=
  (reader p).1 = true →
    ((reader p).2.id = none → (latest reader Fields.id earlier).getD 0 = 0) ∧
      ((reader p).2.payload = none →
        (latest reader Fields.payload earlier).getD [] = [])

/-- The replies handed to `OnOpenStream` along a run. -/
def openedAlong (client : Client) (actions : List RPCStream.Action) :
    List Bytes :=
  observed (step reader) opened client actions

end System

section Steps

variable {reader : Reader} {client next : Client}
variable {action : RPCStream.Action}

theorem opening_result {reply : Reply} {answer : Bool}
    (hopening : client.opening action = some (reply, answer)) :
    0 ≤ (Outcome.replied reply).result := by
  unfold opening at hopening
  split at hopening
  case h_2 => contradiction
  case h_1 =>
    split at hopening
    case h_2 => contradiction
    case h_1 =>
      split at hopening
      case isTrue => contradiction
      case isFalse =>
        split at hopening
        case h_2 => contradiction
        case h_1 =>
          split at hopening
          case isFalse => contradiction
          case isTrue hresult =>
            obtain ⟨rfl, -⟩ := Prod.mk.inj (Option.some.inj hopening)
            exact hresult

/-- What `OnOpenStream` makes of a reply without an error. -/
theorem onOpenStream_of_nonneg {r : ℤ} (hresult : 0 ≤ r) (p : Bytes)
    (answer : Bool) :
    ∃ opened left, client.onOpenStream reader r p answer = (opened, left) ∧
      left.crep = (reader p).2.merge client.crep ∧
      ((reader p).1 = true →
        left.connects = (left.crep.id, left.crep.payload) ::
            client.connects ∧
          left.cid = left.crep.id) := by
  unfold onOpenStream
  rw [if_neg (not_lt.mpr hresult)]
  dsimp only [unpack]
  cases (reader p).1 with
  | false => exact ⟨_, _, rfl, rfl, nofun⟩
  | true => exact ⟨_, _, rfl, rfl, fun _ => ⟨rfl, rfl⟩⟩

/-- Either `OnOpenStream` is not called, or it unpacks one reply into
`crep_`. -/
theorem step_cases (hstep : client.step reader action = some next) :
    client.opened action = [] ∧ next.crep = client.crep ∨
      ∃ p, client.opened action = [p] ∧
        next.crep = (reader p).2.merge client.crep ∧
        ((reader p).1 = true →
          next.connects =
              (next.crep.id, next.crep.payload) :: client.connects ∧
            next.cid = next.crep.id) := by
  unfold step at hstep
  rw [opened]
  cases hopening : client.opening action with
  | none =>
      rw [hopening] at hstep
      obtain ⟨stream, -, rfl⟩ := Option.map_eq_some_iff.mp hstep
      exact .inl ⟨rfl, rfl⟩
  | some opening =>
      obtain ⟨reply, answer⟩ := opening
      obtain ⟨opened, left, hleft, hcrep, hread⟩ :=
        @onOpenStream_of_nonneg reader client _ (opening_result hopening)
          (Outcome.replied reply).payload answer
      rw [hopening] at hstep
      dsimp only at hstep
      rw [hleft] at hstep
      obtain ⟨stream, -, rfl⟩ := Option.map_eq_some_iff.mp hstep
      exact .inr ⟨_, rfl, hcrep, hread⟩

/-- What a merge into a message leaves is what is on the wire if and only if
the message has no value where the wire has none. -/
theorem merge_eq_blank_iff (fields : Fields)
    (message : SystemPayload.Connect) :
    fields.merge message = fields.merge blankConnect ↔
      (fields.id = none → message.id = 0) ∧
        (fields.payload = none → message.payload = []) := by
  rw [Fields.merge, Fields.merge, SystemPayload.Connect.mk.injEq]
  cases fields.id <;> cases fields.payload <;> simp [blankConnect]

theorem reported_iff (hstep : client.step reader action = some next) :
    client.Reported reader action next ↔
      ∀ p ∈ client.opened action, (reader p).1 = true →
        ((reader p).2.id = none → client.crep.id = 0) ∧
          ((reader p).2.payload = none → client.crep.payload = []) := by
  refine forall_congr' fun p => forall_congr' fun hp => ?_
  refine forall_congr' fun hread => ?_
  rw [← merge_eq_blank_iff]
  obtain ⟨hnone, -⟩ | ⟨other, hother, hcrep, hconnects⟩ := step_cases hstep
  · rw [hnone] at hp
    exact absurd hp List.not_mem_nil
  · rw [hother, List.mem_singleton] at hp
    obtain rfl := hp
    obtain ⟨hreported, hcid⟩ := hconnects hread
    rw [hreported, hcid, hcrep]
    constructor
    · rintro ⟨hhead, -⟩
      obtain ⟨hid, hpayload⟩ := Prod.mk.inj (List.cons.inj hhead).1
      exact congrArg₂ SystemPayload.Connect.mk hid hpayload
    · intro hsame
      rw [hsame]
      exact ⟨rfl, rfl⟩

theorem latest_concat {Value : Type} (field : Fields → Option Value)
    (earlier : List Bytes) (p : Bytes) :
    latest reader field (earlier ++ [p]) =
      (field (reader p).2).or (latest reader field earlier) := by
  rw [latest, List.filterMap_append, List.getLast?_append]
  cases hfield : field (reader p).2 <;> simp [hfield, latest]

/-- `crep_` holds of each field the value that was last on the wire. -/
structure Holds (reader : Reader) (earlier : List Bytes) (client : Client) :
    Prop where
  id : client.crep.id = (latest reader Fields.id earlier).getD 0
  payload : client.crep.payload =
    (latest reader Fields.payload earlier).getD []

theorem holds_new : Holds reader [] new := ⟨rfl, rfl⟩

theorem Holds.step {earlier : List Bytes} (hholds : Holds reader earlier client)
    (hstep : client.step reader action = some next) :
    Holds reader (earlier ++ client.opened action) next := by
  obtain ⟨hnone, hcrep⟩ | ⟨p, hp, hcrep, -⟩ := step_cases hstep
  · rw [hnone, List.append_nil]
    exact ⟨hcrep ▸ hholds.id, hcrep ▸ hholds.payload⟩
  · rw [hp]
    constructor
    · rw [hcrep, latest_concat, Fields.merge, hholds.id]
      cases (reader p).2.id <;> rfl
    · rw [hcrep, latest_concat, Fields.merge, hholds.payload]
      cases (reader p).2.payload <;> rfl

theorem Holds.reported_iff {earlier : List Bytes}
    (hholds : Holds reader earlier client)
    (hstep : client.step reader action = some next) :
    client.Reported reader action next ↔
      ∀ p ∈ client.opened action, Fresh reader earlier p := by
  rw [Client.reported_iff hstep, hholds.id, hholds.payload]
  rfl

theorem Holds.reported_along {earlier : List Bytes}
    (hholds : Holds reader earlier client)
    (actions : List RPCStream.Action) :
    AllSteps (Client.step reader) (Reported reader) client actions ↔
      ∀ before p after,
        openedAlong reader client actions = before ++ p :: after →
          Fresh reader (earlier ++ before) p := by
  induction actions generalizing client earlier with
  | nil =>
      refine iff_of_true trivial fun before p after hsplit => ?_
      exact absurd hsplit.symm (List.append_ne_nil_of_right_ne_nil before
        (List.cons_ne_nil p after))
  | cons action rest ih =>
      cases hnext : client.step reader action with
      | none =>
          refine iff_of_true (allSteps_cons_of_stuck hnext)
            fun before p after hsplit => ?_
          rw [openedAlong, observed, hnext] at hsplit
          exact absurd hsplit.symm (List.append_ne_nil_of_right_ne_nil before
            (List.cons_ne_nil p after))
      | some next =>
          have halong : openedAlong reader client (action :: rest) =
              client.opened action ++ openedAlong reader next rest :=
            observed_cons_of_step hnext rest
          rw [allSteps_cons_of_step hnext, hholds.reported_iff hnext,
            ih (hholds.step hnext), halong]
          obtain ⟨hnone, -⟩ | ⟨p, hp, -⟩ := step_cases hnext
          · simp only [hnone, List.not_mem_nil, false_imp_iff, implies_true,
              true_and, List.append_nil, List.nil_append]
          · simp only [hp, List.forall_mem_singleton, List.singleton_append,
              List.append_assoc]
            rw [forall_split_cons, List.append_nil]

end Steps

/-- Along every run each login reply is reported as sent exactly if none
leaves out a field for which an earlier one left a value. -/
theorem login_reported_iff (reader : Reader)
    (actions : List RPCStream.Action) :
    AllSteps (step reader) (Reported reader) new actions ↔
      ∀ before p after,
        openedAlong reader new actions = before ++ p :: after →
          Fresh reader before p :=
  holds_new.reported_along actions

/-- The wire format for an id and a payload of one byte each. -/
private def tiny : Reader
  | [] => (true, { id := none, payload := none })
  | [0x08, id] =>
      (decide (id < 0x80), { id := some id.toNat, payload := none })
  | [0x08, id, 0x12, 0x01, byte] =>
      (decide (id < 0x80), { id := some id.toNat, payload := some [byte] })
  | _ => (false, { id := none, payload := none })

private def polled : RPCStream.Action :=
  .update
    { ready := true
      onOpenStream := true
      onCloseStream := 0
      addPayload := []
      now := 1 }

private def received (msgid : ℕ) (payload : Bytes) : RPCStream.Action :=
  .ioEvent 0 true { type := 0, msgid, error := none, payload }

/-- A stream is established, and its login answered. -/
private def loggedIn (msgid : ℕ) (payload : Bytes) : List RPCStream.Action :=
  [.ioTimeout, received 0 []] ++ List.replicate 7 polled ++
    [received msgid payload] ++ List.replicate 5 polled

/-- The second login has an empty payload; the payload of the first is reported
with its id. -/
theorem login_reported_iff_fails :
    ¬AllSteps (step tiny) (Reported tiny) new
      (List.replicate 3 polled ++
        loggedIn 1 [0x08, 7, 0x12, 0x01, 97] ++
        [.ioEvent 0 false
          { type := 0, msgid := 0, error := none, payload := [] }, .ioDrain, .ioDrain] ++
        List.replicate 6 polled ++
        loggedIn 2 [0x08, 9]) := by
  decide

end Client

end GrpcMtk
