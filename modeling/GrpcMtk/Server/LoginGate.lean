import GrpcMtk.Server.Methods
import GrpcMtk.Server.System

/-!
# The login gate

A connection reads requests, or is found in `cmap_`, only after its login was
accepted with a cid that is not zero.  The deferred path checks the cid in
`AcceptLogin`; on the immediate path `Step` looks at the status and not at the
cid that `Login` returned.  The gate is proved of every run in which an
immediate login that returns 0 also leaves the LOGIN state, and no Login task
that accepts waits behind a denial.
-/

namespace GrpcMtk

open GrpcMtk.Proto
open GrpcMtk.Runs

/-- Every Register directly follows an acceptance under its cid, and no denial
comes before it.  The newest event is the head. -/
def Gated : List ConnEvent → Prop
  | [] => True
  | .registered cid :: older =>
      (cid ≠ 0 ∧ .denied ∉ older ∧
        (older.head? = some (.loginReturned cid) ∨
          older.head? = some (.loginTask cid))) ∧ Gated older
  | _ :: older => Gated older

/-- The login was accepted, at once or by a Login task. -/
def Accepted (history : List ConnEvent) : Prop :=
  ∃ cid, cid ≠ 0 ∧
    (.loginReturned cid ∈ history ∨ .loginTask cid ∈ history)

/-- The gate for one connection, filed under `conn`. -/
structure Conn.Gate (reg : Registry) (conn : ConnId) (state : Conn) :
    Prop where
  gated : Gated state.history
  accepted : (state.status = .read ∨ ∃ cid, reg.cmap cid = some conn) →
    Accepted state.history
  /-- Once denied, the connection is closed and stays so. -/
  denied : .denied ∈ state.history → state.status = .close

/-- No Login task that accepts the login comes after a denial, where `denied`
says that there has been one already. -/
def acceptable : Bool → List Task → Bool
  | _, [] => true
  | denied, .login (some request) :: rest =>
      if request.id = 0 then acceptable true rest
      else !denied && acceptable denied rest
  | denied, _ :: rest => acceptable denied rest

def Conn.Clean (self : Conn) : Prop :=
  acceptable (decide (.denied ∈ self.history)) self.stream.tasks = true

instance (self : Conn) : Decidable self.Clean :=
  inferInstanceAs (Decidable (_ = true))

theorem Accepted.mono {history : List ConnEvent} (haccepted : Accepted history)
    (event : ConnEvent) : Accepted (event :: history) := by
  obtain ⟨cid, hcid, hevent⟩ := haccepted
  refine ⟨cid, hcid, ?_⟩
  rcases hevent with hreturned | htask
  · exact Or.inl (List.mem_cons_of_mem _ hreturned)
  · exact Or.inr (List.mem_cons_of_mem _ htask)

namespace World

/-! ## One connection -/

def Gate (world : World) : Prop :=
  world.self.Gate world.reg world.self.self

/-- An event other than Register and a denial keeps the gate. -/
theorem Gate.record {world : World} (hgate : world.Gate) (event : ConnEvent)
    (hregistered : ∀ cid, event ≠ .registered cid)
    (hdenied : event ≠ .denied) : (world.record event).Gate where
  gated := by
    cases event with
    | registered cid => exact absurd rfl (hregistered cid)
    | _ => exact hgate.gated
  accepted hopen := (hgate.accepted hopen).mono event
  denied hmem := by
    apply hgate.denied
    rcases List.mem_cons.mp hmem with hnew | hold
    · exact absurd hnew.symm hdenied
    · exact hold

/-- A change that keeps the history, opens nothing and keeps CLOSE keeps the
gate. -/
theorem Gate.of_history_eq {before after : World} (hgate : before.Gate)
    (hhistory : after.self.history = before.self.history)
    (hself : after.self.self = before.self.self)
    (hread : after.self.status = .read → before.self.status = .read)
    (hclose : before.self.status = .close → after.self.status = .close)
    (hcmap : ∀ cid, after.reg.cmap cid = some before.self.self →
      before.reg.cmap cid = some before.self.self) : after.Gate where
  gated := by
    rw [hhistory]
    exact hgate.gated
  accepted hopen := by
    rw [hhistory]
    apply hgate.accepted
    rcases hopen with hstatus | ⟨cid, hentry⟩
    · exact Or.inl (hread hstatus)
    · rw [hself] at hentry
      exact Or.inr ⟨cid, hcmap cid hentry⟩
  denied hmem := by
    rw [hhistory] at hmem
    exact hclose (hgate.denied hmem)

theorem Gate.closed {world after : World} (hgate : world.Gate)
    (hhistory : after.self.history = world.self.history)
    (hself : after.self.self = world.self.self)
    (hstatus : after.self.status = .close) (hreg : after.reg = world.reg) :
    after.Gate := by
  apply hgate.of_history_eq hhistory hself
  · intro hread
    rw [hstatus] at hread
    contradiction
  · intro _
    exact hstatus
  · intro _ hentry
    rwa [hreg] at hentry

/-- An undenied connection may go to any status but READ. -/
theorem Gate.opening {world after : World} (hgate : world.Gate)
    (hstatus : world.self.status ≠ .close)
    (hhistory : after.self.history = world.self.history)
    (hself : after.self.self = world.self.self)
    (hread : after.self.status ≠ .read) (hreg : after.reg = world.reg) :
    after.Gate := by
  apply hgate.of_history_eq hhistory hself
  · intro hopened
    contradiction
  · intro hclose
    contradiction
  · intro _ hentry
    rwa [hreg] at hentry

/-- Register after an acceptance that no denial precedes opens the gate. -/
theorem gate_register {world : World} {cid : ℕ} (hgate : world.Gate)
    (hcid : cid ≠ 0) (hdenied : .denied ∉ world.self.history)
    (hhead : world.self.history.head? = some (.loginReturned cid) ∨
      world.self.history.head? = some (.loginTask cid))
    {after : World}
    (hhistory : after.self.history =
      .registered cid :: world.self.history) : after.Gate where
  gated := by
    rw [hhistory]
    exact ⟨⟨hcid, hdenied, hhead⟩, hgate.gated⟩
  accepted _ := by
    rw [hhistory]
    apply Accepted.mono
    refine ⟨cid, hcid, ?_⟩
    rcases hhead with hreturned | htask
    · exact Or.inl (List.mem_of_mem_head? hreturned)
    · exact Or.inr (List.mem_of_mem_head? htask)
  denied hmem := by
    rw [hhistory] at hmem
    rcases List.mem_cons.mp hmem with hnew | hold
    · simp at hnew
    · exact absurd hold hdenied

@[simp]
theorem register_history (cid : ℕ) (world : World) :
    (world.register cid).self.history =
      .registered cid :: world.self.history := by
  simp [register, record]

theorem unregister_cmap {world : World} {cid : ℕ} {conn : ConnId}
    (hentry : world.unregister.reg.cmap cid = some conn) :
    world.reg.cmap cid = some conn := by
  simp only [unregister, Registry.onUnregister, Registry.unregister,
    clearLoginCid_cmap] at hentry
  split at hentry
  · by_cases hcid : cid = world.clearLoginCid.self.cid
    · simp [hcid] at hentry
    · simpa [hcid] using hentry
  · simpa using hentry

theorem Gate.unregister {world : World} (hgate : world.Gate) :
    world.unregister.Gate := by
  apply hgate.of_history_eq
  · exact clearLoginCid_history world
  · exact (Frame.unregister world).self
  · intro hread
    rwa [← clearLoginCid_status world]
  · intro hclose
    exact (clearLoginCid_status world).trans hclose
  · intro _ hentry
    exact unregister_cmap hentry

variable {codec : Codec}

theorem Gate.dequeue {world : World} (hgate : world.Gate)
    (rest : List Task) : (world.dequeue rest).Gate :=
  hgate.of_history_eq rfl rfl id id fun _ => id

theorem dequeue_history (world : World) (rest : List Task) :
    (world.dequeue rest).self.history = world.self.history := rfl

theorem handle_history (request : Request) (world : World) :
    (world.handle request).2.self.history =
      .handled request :: world.self.history := by
  rw [(handle_spec request world).2]

theorem Gate.handle {world : World} (hgate : world.Gate)
    (request : Request) : (world.handle request).2.Gate := by
  have hrecord := hgate.record (.handled request) (by simp) (by simp)
  dsimp only [World.handle]
  split
  · exact hrecord.closed rfl rfl rfl rfl
  · exact hrecord.of_history_eq rfl rfl id id fun _ => id

variable (codec) in
/-- A Login task that accepts opens the gate, if there was no denial. -/
theorem Gate.accept {world : World} (hgate : world.Gate)
    {request : SystemPayload.Login} (hid : request.id ≠ 0)
    (hdenied : .denied ∉ world.self.history) :
    (world.acceptLogin codec request).2.Gate ∧
      (world.acceptLogin codec request).2.self.history =
        .registered request.id :: .loginTask request.id ::
          world.self.history := by
  have hhistory : (world.acceptLogin codec request).2.self.history =
      .registered request.id :: .loginTask request.id ::
        world.self.history := by
    simp only [acceptLogin, hid, if_false]
    exact register_history request.id (world.record (.loginTask request.id))
  refine ⟨?_, hhistory⟩
  have hrecord := hgate.record (.loginTask request.id) (by simp) (by simp)
  apply gate_register hrecord hid
  · simpa [World.record] using hdenied
  · exact Or.inr rfl
  · exact hhistory

variable (codec) in
/-- The denial of a Login task closes the connection. -/
theorem Gate.refuse {world : World} (hgate : world.Gate)
    {request : SystemPayload.Login} (hid : request.id = 0) :
    (world.acceptLogin codec request).2.closeByTask.Gate ∧
      (world.acceptLogin codec request).2.closeByTask.self.history =
        .denied :: .loginTask request.id :: world.self.history := by
  have hhistory :
      (world.acceptLogin codec request).2.closeByTask.self.history =
        .denied :: .loginTask request.id :: world.self.history := by
    simp only [acceptLogin, hid, if_true]
    rfl
  have hreg : (world.acceptLogin codec request).2.closeByTask.reg =
      world.reg := by
    simp only [acceptLogin, hid, if_true]
    rfl
  have hself : (world.acceptLogin codec request).2.closeByTask.self.self =
      world.self.self := by
    simp only [acceptLogin, hid, if_true]
    rfl
  refine ⟨⟨?_, ?_, fun _ => rfl⟩, hhistory⟩
  · rw [hhistory]
    exact hgate.gated
  · intro hopen
    rw [hhistory]
    apply Accepted.mono
    apply Accepted.mono
    apply hgate.accepted
    rcases hopen with hstatus | hentry
    · contradiction
    · rw [hreg, hself] at hentry
      exact Or.inr hentry

/-- Under the gate and a clean queue, both stay. -/
def GateKept (before after : World) : Prop :=
  before.Gate ∧ before.self.Clean → after.Gate ∧ after.self.Clean

theorem gate_kept : Kept codec GateKept where
  refl _ hbefore := hbefore
  trans hfirst hsecond hbefore := hsecond (hfirst hbefore)
  normal world request rest htasks := by
    rintro ⟨hgate, hclean⟩
    refine ⟨(hgate.dequeue rest).handle request, ?_⟩
    have hdenied : .denied ∈ ((world.dequeue rest).handle
        request).2.self.history ↔ .denied ∈ world.self.history := by
      rw [handle_history, dequeue_history]
      simp
    unfold Conn.Clean at hclean ⊢
    rw [htasks] at hclean
    simp only [hdenied, handle_stream]
    exact hclean
  accept world request rest htasks hid := by
    rintro ⟨hgate, hclean⟩
    unfold Conn.Clean at hclean
    simp only [htasks, acceptable, hid, if_false, Bool.and_eq_true,
      Bool.not_eq_true', decide_eq_false_iff_not] at hclean
    obtain ⟨haccepted, hhistory⟩ :=
      (hgate.dequeue rest).accept codec hid hclean.1
    refine ⟨haccepted, ?_⟩
    unfold Conn.Clean
    rw [hhistory, acceptLogin_tasks]
    simpa [dequeue] using hclean.2
  refuse world request rest htasks hid := by
    rintro ⟨hgate, hclean⟩
    unfold Conn.Clean at hclean
    simp only [htasks, acceptable, hid, if_true] at hclean
    obtain ⟨hrefused, hhistory⟩ := (hgate.dequeue rest).refuse codec hid
    refine ⟨hrefused, ?_⟩
    unfold Conn.Clean
    rw [hhistory, closeByTask_tasks, acceptLogin_tasks]
    simpa [dequeue] using hclean
  closing world task rest htasks hcloses := by
    rintro ⟨hgate, hclean⟩
    refine ⟨hgate.closed rfl rfl rfl rfl, ?_⟩
    unfold Conn.Clean at hclean ⊢
    rw [htasks] at hclean
    cases task with
    | normal request => exact hclean
    | login payload =>
        cases payload with
        | none => exact hclean
        | some request => exact absurd hcloses id
    | close => exact hclean
    | other kind => exact hclean
  dying world _ _ := by
    rintro ⟨hgate, hclean⟩
    exact ⟨hgate.closed rfl rfl rfl rfl, hclean⟩
  usedAfterDelete world _ := by
    rintro ⟨hgate, hclean⟩
    refine ⟨hgate.record _ (by simp) (by simp), ?_⟩
    simpa [Conn.Clean, record] using hclean
  close world := by
    rintro ⟨hgate, hclean⟩
    have hrecord := hgate.record .closed (by simp) (by simp)
    refine ⟨hrecord.unregister, ?_⟩
    simpa [Conn.Clean, record, unregister] using hclean
  delete world := by
    rintro ⟨hgate, hclean⟩
    have hrecord := hgate.record .deleted (by simp) (by simp)
    refine ⟨hrecord.of_history_eq rfl rfl id id fun _ => id, ?_⟩
    simpa [Conn.Clean, record, delete] using hclean

/-! ## Step and Process -/

/-- What the calls of the acceptor change: the status, the login cid and the
registry of pending logins. -/
theorem acceptorCalls_spec (calls : List AcceptorCall) (world : World) :
    (calls.foldl acceptorCall world).self =
        { world.self with
          status := (calls.foldl acceptorCall world).self.status
          lcid := (calls.foldl acceptorCall world).self.lcid } ∧
      (calls.foldl acceptorCall world).reg.cmap = world.reg.cmap ∧
      (calls = [] ∨ (calls.foldl acceptorCall world).self.status = .close ∨
        (calls.foldl acceptorCall world).self.status = .waitLogin) := by
  induction calls generalizing world with
  | nil => exact ⟨rfl, rfl, Or.inl rfl⟩
  | cons call rest ih =>
      obtain ⟨hself, hcmap, hstatus⟩ := ih (world.acceptorCall call)
      simp only [List.foldl_cons]
      refine ⟨?_, ?_, Or.inr ?_⟩
      · rw [hself]
        cases call <;> rfl
      · rw [hcmap]
        cases call <;> rfl
      · rcases hstatus with hlast | hclosed
        · subst hlast
          cases call with
          | close => exact Or.inl rfl
          | deferLogin => exact Or.inr rfl
        · exact hclosed

/-- The immediate login is judged by its cid: a payload that unpacks, and an
acceptor that returns a cid or takes the connection out of LOGIN. -/
def LoginJudged (codec : Codec) (payload : Bytes) (acceptor : AcceptorResult) :
    Prop :=
  (codec.unpackConnect payload).isSome = true ∧
    (acceptor.cid ≠ 0 ∨ acceptor.calls ≠ [])

instance (codec : Codec) (payload : Bytes) (acceptor : AcceptorResult) :
    Decidable (LoginJudged codec payload acceptor) :=
  inferInstanceAs (Decidable (_ ∧ _))

variable (codec) in
theorem login_spec (acceptor : AcceptorResult) (world : World) :
    (world.login codec acceptor).2.self.self = world.self.self ∧
      (world.login codec acceptor).2.reg.cmap = world.reg.cmap ∧
      ((world.login codec acceptor).2.self.history =
          .loginReturned (world.login codec acceptor).1 ::
            world.self.history ∧
        ((world.login codec acceptor).2.self.status = .waitLogin ∨
          (world.login codec acceptor).1 ≠ 0) ∨
      (world.login codec acceptor).2.self.history =
          .denied :: .loginReturned 0 :: world.self.history ∧
        (world.login codec acceptor).2.self.status ≠ .waitLogin ∧
        (world.login codec acceptor).1 = 0) := by
  obtain ⟨hself, hcmap, -⟩ := acceptorCalls_spec acceptor.calls world
  have hhandler :
      (world.handlerLogin codec acceptor).2.2.self.self = world.self.self ∧
        (world.handlerLogin codec acceptor).2.2.reg.cmap = world.reg.cmap ∧
        (world.handlerLogin codec acceptor).2.2.self.history =
          world.self.history := by
    unfold handlerLogin
    split
    · exact ⟨rfl, rfl, rfl⟩
    · dsimp only
      exact ⟨by rw [hself], hcmap, by rw [hself]⟩
  obtain ⟨hid, hreg, hhistory⟩ := hhandler
  dsimp only [login]
  split
  case isTrue hwait =>
    exact ⟨hid, hreg, Or.inl ⟨congrArg _ hhistory, Or.inl hwait⟩⟩
  case isFalse hopen =>
    split
    case isTrue hcid =>
      exact ⟨hid, hreg, Or.inl ⟨congrArg _ hhistory, Or.inr hcid⟩⟩
    case isFalse hzero =>
      have hzero := not_not.mp hzero
      refine ⟨hid, hreg, Or.inr ⟨?_, hopen, hzero⟩⟩
      rw [← hhistory, ← hzero]
      rfl

/-- When the login leaves the connection in LOGIN, its cid is what the handler
judged. -/
theorem login_immediate {acceptor : AcceptorResult} {world : World}
    (hstatus : world.self.status = .login)
    (hclose : (world.login codec acceptor).2.self.status ≠ .close)
    (hwait : (world.login codec acceptor).2.self.status ≠ .waitLogin) :
    (world.login codec acceptor).1 ≠ 0 ↔
      LoginJudged codec world.self.req.payload acceptor := by
  obtain ⟨-, -, hcalls⟩ := acceptorCalls_spec acceptor.calls world
  unfold LoginJudged
  cases hunpack : codec.unpackConnect world.self.req.payload with
  | none =>
      simp [login, handlerLogin, hunpack, record, hstatus]
  | some connect =>
      have hstays : (world.login codec acceptor).2.self.status =
          (acceptor.calls.foldl acceptorCall world).self.status := by
        dsimp only [login]
        simp only [handlerLogin, hunpack]
        split
        · rfl
        · split <;> rfl
      have hcid : (world.login codec acceptor).1 = acceptor.cid := by
        dsimp only [login]
        simp only [handlerLogin, hunpack]
        split
        · rfl
        · split <;> rfl
      rw [hstays] at hclose hwait
      rcases hcalls with hnone | hclosed | hwaits
      · simp [hcid, hnone]
      · exact absurd hclosed hclose
      · exact absurd hwaits hwait

/-- A login that is not judged leaves the connection in LOGIN. -/
theorem login_unjudged {acceptor : AcceptorResult} {world : World}
    (hstatus : world.self.status = .login)
    (hjudged : ¬LoginJudged codec world.self.req.payload acceptor) :
    (world.login codec acceptor).2.self.status = .login := by
  have hhandler :
      (world.handlerLogin codec acceptor).2.2.self.status = .login := by
    unfold handlerLogin
    cases hunpack : codec.unpackConnect world.self.req.payload with
    | none => exact hstatus
    | some connect =>
        have hcalls : acceptor.calls = [] := by
          by_contra hcalls
          exact hjudged ⟨by simp [hunpack], Or.inr hcalls⟩
        simpa [hcalls] using hstatus
  dsimp only [login]
  split
  · exact hhandler
  · split <;> exact hhandler

theorem Gate.login_closed {world : World} (hgate : world.Gate)
    (acceptor : AcceptorResult) {after : World}
    (hself : after.self.self = world.self.self)
    (hhistory : after.self.history =
      (world.login codec acceptor).2.self.history)
    (hreg : after.reg.cmap = (world.login codec acceptor).2.reg.cmap)
    (hstatus : after.self.status = .close ∨
      after.self.status = .waitLogin ∧
        (world.login codec acceptor).2.self.status = .waitLogin)
    (hlogin : world.self.status = .login) : after.Gate := by
  obtain ⟨-, hcmap, hevents⟩ := login_spec codec acceptor world
  have haccepted : (∃ cid, after.reg.cmap cid = some after.self.self) →
      Accepted world.self.history := by
    rintro ⟨cid, hentry⟩
    rw [hreg, hcmap, hself] at hentry
    exact hgate.accepted (Or.inr ⟨cid, hentry⟩)
  have hentry : (after.self.status = .read ∨
      ∃ cid, after.reg.cmap cid = some after.self.self) →
        Accepted world.self.history := by
    rintro (hread | hentry)
    · rcases hstatus with hclose | hwait
      · rw [hclose] at hread
        contradiction
      · rw [hwait.1] at hread
        contradiction
    · exact haccepted hentry
  have hundenied : .denied ∉ world.self.history := by
    intro hdenied
    rw [hgate.denied hdenied] at hlogin
    contradiction
  rcases hevents with ⟨hevents, -⟩ | ⟨hevents, hopen, -⟩
  · rw [hevents] at hhistory
    refine ⟨?_, ?_, ?_⟩
    · rw [hhistory]
      exact hgate.gated
    · intro hread
      rw [hhistory]
      exact (hentry hread).mono _
    · intro hdenied
      rw [hhistory] at hdenied
      simp [hundenied] at hdenied
  · rw [hevents] at hhistory
    refine ⟨?_, ?_, ?_⟩
    · rw [hhistory]
      exact hgate.gated
    · intro hread
      rw [hhistory]
      exact ((hentry hread).mono _).mono _
    · intro _
      rcases hstatus with hclose | hwait
      · exact hclose
      · exact absurd hwait.2 hopen

theorem Gate.finish {world : World} (hgate : world.Gate)
    (destroy : World → World) : (world.finish destroy false).Gate :=
  hgate.closed rfl rfl rfl rfl

theorem login_dying (acceptor : AcceptorResult) (world : World) :
    (world.login codec acceptor).2.dying = world.dying := by
  have hframe := @Frame.login codec acceptor world
  rw [dying, hframe.dying, hframe.worker]
  rfl

/-- The gate after a successful completion, if the immediate login is judged
by its cid and nothing accepts behind a denial. -/
theorem Gate.step {world : World} (hgate : world.Gate)
    {acceptor : AcceptorResult}
    (hjudged : world.self.status = .login → world.self.req.kind ≠ .close →
      world.dying = true ∨
        LoginJudged codec world.self.req.payload acceptor)
    (hclean : world.self.status = .close → world.self.Clean) :
    (world.step codec acceptor).Gate := by
  have hsilent : world.self.status ≠ .close → .denied ∉ world.self.history :=
    fun hopen hdenied => hopen (hgate.denied hdenied)
  unfold World.step
  cases hstatus : world.self.status with
  | init => exact hgate.opening (by simp [hstatus]) rfl rfl nofun rfl
  | accept => exact hgate.opening (by simp [hstatus]) rfl rfl nofun rfl
  | login =>
      by_cases hkind : world.self.req.kind = .close
      · simp only [hkind, if_true]
        exact hgate.finish _
      simp only [hkind, if_false]
      obtain ⟨hself, hcmap, hevents⟩ := login_spec codec acceptor world
      split
      case isTrue hfinish =>
        exact hgate.login_closed acceptor hself rfl rfl (Or.inl rfl) hstatus
      case isFalse hgo =>
        simp only [not_or] at hgo
        split
        case isTrue hwait =>
          exact hgate.login_closed acceptor hself rfl rfl
            (Or.inr ⟨hwait, hwait⟩) hstatus
        case isFalse hopen =>
          have hcid : (world.login codec acceptor).1 ≠ 0 := by
            apply (login_immediate hstatus hgo.1 hopen).mpr
            rcases hjudged hstatus hkind with hdying | hjudged
            · rw [login_dying] at hgo
              exact absurd hdying hgo.2
            · exact hjudged
          have hhistory := register_history (world.login codec acceptor).1
            (world.login codec acceptor).2
          rcases hevents with ⟨hevents, -⟩ | ⟨-, -, hzero⟩
          · have hlogin : (world.login codec acceptor).2.Gate := by
              refine ⟨?_, ?_, ?_⟩
              · rw [hevents]
                exact hgate.gated
              · intro _
                rw [hevents]
                exact ⟨_, hcid, Or.inl List.mem_cons_self⟩
              · intro hdenied
                rw [hevents] at hdenied
                simp [hsilent (by simp [hstatus])] at hdenied
            apply gate_register hlogin hcid
            · rw [hevents]
              simp [hsilent (by simp [hstatus])]
            · rw [hevents]
              exact Or.inl rfl
            · exact hhistory
          · exact absurd hzero hcid
  | read =>
      by_cases hkind : world.self.req.kind = .close
      · simp only [hkind, if_true]
        exact hgate.finish _
      simp only [hkind, if_false]
      have hhandle := hgate.handle world.self.req
      split
      · exact hhandle.of_history_eq rfl rfl id id fun _ => id
      · exact hhandle.finish _
  | close => exact (gate_kept.destroy world ⟨hgate, hclean hstatus⟩).1
  | waitLogin => exact hgate.finish _
  | write => exact hgate.finish _

/-- A login that is not judged registers the cid 0. -/
theorem step_unjudged {world : World} {acceptor : AcceptorResult}
    (hstatus : world.self.status = .login)
    (hkind : world.self.req.kind ≠ .close) (hdying : world.dying = false)
    (hjudged : ¬LoginJudged codec world.self.req.payload acceptor) :
    (world.step codec acceptor).self.history =
      .registered 0 :: (world.login codec acceptor).2.self.history := by
  have hstays := login_unjudged hstatus hjudged
  have hcid : (world.login codec acceptor).1 = 0 := by
    by_contra hcid
    exact hjudged ((login_immediate hstatus (by simp [hstays])
      (by simp [hstays])).mp hcid)
  have hdying : (world.login codec acceptor).2.dying = false := by
    rwa [login_dying]
  simp only [World.step, hstatus, hkind, if_false, hstays, hdying, hcid,
    reduceCtorEq, Bool.false_eq_true, or_self]
  exact register_history 0 _

theorem Gate.process {world : World} (hgate : world.Gate) {ok : Bool}
    {request : Request} {acceptor : AcceptorResult}
    (hjudged : ok = true → world.self.status = .login →
      request.kind ≠ .close → world.dying = true ∨
        LoginJudged codec request.payload acceptor)
    (hclean : ok = false ∨ world.self.status = .close → world.self.Clean) :
    (world.process codec ok request acceptor).Gate := by
  have hpopped : Gate { world with self.pending := world.self.pending - 1 } :=
    hgate.of_history_eq rfl rfl id id fun _ => id
  unfold World.process
  cases ok with
  | false =>
      exact (gate_kept.destroy _ ⟨hpopped, hclean (Or.inl rfl)⟩).1
  | true =>
      simp only [if_true]
      split
      case isTrue haccept =>
        apply hpopped.step
        · intro hlogin
          rw [haccept] at hlogin
          contradiction
        · intro hclose
          rw [haccept] at hclose
          contradiction
      case isFalse =>
        have hread : Gate
            { world with
              self.pending := world.self.pending - 1
              self.req := request } :=
          hgate.of_history_eq rfl rfl id id fun _ => id
        exact hread.step (hjudged rfl) fun hclose => hclean (Or.inr hclose)

end World

/-! ## The server -/

namespace Server

def LoginGate (server : Server) : Prop :=
  server.EachConn fun reg conn self => self.Gate reg conn

/-- The condition on one action: an immediate login is judged by its cid, and
no Login task that accepts comes after a denial in a queue about to be
consumed. -/
def LoginChecked (codec : Codec) (server : Server) : Action → Prop
  | .complete conn ok request acceptor _ =>
      ∀ self ∈ server.conns conn,
        (ok = true → self.status = .login → request.kind ≠ .close →
          server.reg.dying self.worker = true ∨
            World.LoginJudged codec request.payload acceptor) ∧
        (ok = false ∨ self.status = .close → self.Clean)
  | .consume conn _ => ∀ self ∈ server.conns conn, self.Clean
  | .shutdown worker _ =>
      ∀ conn ∈ server.reg.connections worker,
        ∀ self ∈ server.conns conn, self.Clean
  | _ => True

instance (codec : Codec) (server : Server) :
    ∀ action, Decidable (LoginChecked codec server action)
  | .complete conn ok request acceptor _ =>
      inferInstanceAs (Decidable (∀ self ∈ server.conns conn,
        (ok = true → self.status = .login → request.kind ≠ .close →
          server.reg.dying self.worker = true ∨
            World.LoginJudged codec request.payload acceptor) ∧
        (ok = false ∨ self.status = .close → self.Clean)))
  | .consume conn _ =>
      inferInstanceAs (Decidable (∀ self ∈ server.conns conn, self.Clean))
  | .shutdown worker _ =>
      inferInstanceAs (Decidable (∀ conn ∈ server.reg.connections worker,
        ∀ self ∈ server.conns conn, self.Clean))
  | .launch _ | .prepareShutdown _ | .finishLogin .. | .postLogin ..
  | .getStream _ | .closeStream _ | .addTask .. | .send .. | .writeDone ..
  | .closerDone .. => isTrue trivial

variable {codec : Codec}

theorem gate_stable :
    Stable fun reg conn self => self.Gate reg conn := by
  intro before after hframe conn self hother hgate
  refine ⟨hgate.gated, ?_, hgate.denied⟩
  rintro (hread | ⟨cid, hentry⟩)
  · exact hgate.accepted (Or.inl hread)
  · have hold := (hframe.cmap cid conn hentry).resolve_right hother
    exact hgate.accepted (Or.inr ⟨cid, hold⟩)

/-- A method that keeps the gate of its world keeps it in the server. -/
theorem gate_runConn {server : Server} (hwf : WellFormed server)
    (hgate : server.LoginGate) (conn : ConnId) (results : List HandlerResult)
    {method : World → World} (hframe : ∀ world, Frame world (method world))
    (hkept : ∀ self, server.conns conn = some self →
      World.Gate ⟨self, server.reg, results⟩ →
        (method ⟨self, server.reg, results⟩).Gate) :
    (server.runConn conn results method).LoginGate := by
  apply EachConn.runConn hwf gate_stable hgate conn results hframe
  intro self hconn hself
  have hid := (hwf.known conn self hconn).1
  subst hid
  have hafter := hkept self hconn hself
  rwa [World.Gate, (hframe _).self] at hafter

theorem gate_newConn {server : Server} (hwf : WellFormed server)
    (hgate : server.LoginGate) (worker : WorkerId) :
    (server.newConn codec worker).LoginGate := by
  apply EachConn.newConn hgate
  refine ⟨trivial, ?_, by simp [waiter, Conn.new]⟩
  rintro (hread | ⟨cid, hentry⟩)
  · contradiction
  · exact absurd (hwf.cmap cid _ hentry) (lt_irrefl _)

theorem gate_complete {server : Server} (hwf : WellFormed server)
    (hgate : server.LoginGate) {conn : ConnId} {ok : Bool} {request : Request}
    {acceptor : AcceptorResult} {results : List HandlerResult}
    (hchecked : LoginChecked codec server
      (.complete conn ok request acceptor results)) :
    (server.complete codec conn ok request acceptor results).LoginGate := by
  unfold Server.complete
  split
  · exact hgate
  case h_2 self hconn =>
    obtain ⟨hjudged, hclean⟩ := hchecked self hconn
    dsimp only
    split
    case isTrue haccept =>
      have hnew := @gate_newConn codec server hwf hgate self.worker
      apply gate_runConn (hwf.newConn _) hnew _ _
        (Frame.process ok request acceptor)
      intro state hstate hworld
      have hold : state = self := by
        rw [newConn_eq] at hstate
        dsimp only at hstate
        rw [Function.update_of_ne, hconn] at hstate
        · exact (Option.some.inj hstate).symm
        · exact Nat.ne_of_lt (hwf.known conn self hconn).2
      subst hold
      exact hworld.process hjudged hclean
    case isFalse =>
      apply gate_runConn hwf hgate _ _ (Frame.process ok request acceptor)
      intro state hstate hworld
      rw [hconn] at hstate
      obtain rfl := Option.some.inj hstate
      exact hworld.process hjudged hclean

theorem gate_shutdown {server : Server} (hwf : WellFormed server)
    (hgate : server.LoginGate) {worker : WorkerId}
    {results : ℕ → List HandlerResult}
    (hchecked : LoginChecked codec server (.shutdown worker results))
    (fuel index : ℕ) :
    (server.shutdownLoop codec worker results fuel index).LoginGate := by
  have hstable : Stable fun reg conn self => self.Gate reg conn ∧
      (conn ∈ reg.connections worker → self.Clean) := by
    rintro before after hframe conn self hother ⟨hconn, hclean⟩
    refine ⟨gate_stable before after hframe conn self hother hconn, ?_⟩
    intro hmember
    apply hclean
    rw [← List.count_pos_iff] at hmember ⊢
    rwa [hframe.members worker conn hother] at hmember
  have hboth : EachConn (fun reg conn self => self.Gate reg conn ∧
      (conn ∈ reg.connections worker → self.Clean)) server :=
    fun conn self hconn => ⟨hgate conn self hconn,
      fun hmember => hchecked conn hmember self hconn⟩
  have hkept : Kept codec World.GateKept := World.gate_kept
  have hframe : Kept codec Frame := Frame.kept
  have hafter := EachConn.shutdownLoop hwf hstable hboth worker results
    (fun world hmember hfact => by
      have hdestroyed := hkept.destroy world ⟨hfact.1, hfact.2 hmember⟩
      rw [World.Gate, (hframe.destroy world).self] at hdestroyed
      exact ⟨hdestroyed.1, fun _ => hdestroyed.2⟩)
    fuel index
  exact fun conn self hconn => (hafter conn self hconn).1

theorem gate_onStream {server : Server} (hgate : server.LoginGate)
    (conn : ConnId) (change : SVStream → SVStream) :
    (server.onStream conn change).LoginGate :=
  EachConn.onStream hgate conn change
    fun _ _ hself => ⟨hself.gated, hself.accepted, hself.denied⟩

theorem gate_step {server next : Server} {action : Action}
    (hwf : WellFormed server) (hgate : server.LoginGate)
    (hstep : server.step codec action = some next)
    (hchecked : LoginChecked codec server action) : next.LoginGate := by
  cases action with
  | launch worker =>
      obtain rfl := Option.some.inj hstep
      exact gate_newConn hwf hgate worker
  | complete conn ok request acceptor results =>
      obtain ⟨-, -, -, rfl⟩ := step_complete hstep
      exact gate_complete hwf hgate hchecked
  | consume conn results =>
      obtain ⟨-, -, -, rfl⟩ := step_consume hstep
      have hkept : Kept codec World.GateKept := World.gate_kept
      apply gate_runConn hwf hgate
      · exact Frame.kept.consumeTask Frame.kept.destroyKept 3
      · intro self hconn hworld
        exact (hkept.consumeTask hkept.destroyKept 3 _
          ⟨hworld, hchecked self hconn⟩).1
  | shutdown worker results =>
      obtain ⟨-, -, rfl⟩ := step_shutdown hstep
      exact gate_shutdown hwf hgate hchecked _ _
  | prepareShutdown worker =>
      obtain rfl := Option.some.inj hstep
      exact fun conn self hconn => ⟨(hgate conn self hconn).gated,
        (hgate conn self hconn).accepted, (hgate conn self hconn).denied⟩
  | finishLogin lcid cid msgid data =>
      rcases step_finishLogin hstep with ⟨-, rfl⟩ | ⟨-, -, rfl⟩
      · exact hgate
      · exact fun conn self hconn => ⟨(hgate conn self hconn).gated,
          (hgate conn self hconn).accepted, (hgate conn self hconn).denied⟩
  | postLogin conn request =>
      obtain ⟨-, rfl⟩ := step_postLogin hstep
      apply gate_onStream
      exact hgate
  | getStream cid =>
      rcases step_getStream hstep with ⟨-, rfl⟩ | ⟨-, -, rfl⟩
      · exact hgate
      · apply gate_onStream
        exact hgate
  | closeStream conn =>
      obtain ⟨-, rfl⟩ := step_closeStream hstep
      exact gate_onStream hgate _ _
  | addTask conn request =>
      obtain rfl := Option.some.inj hstep
      exact gate_onStream hgate _ _
  | send conn reply =>
      obtain rfl := Option.some.inj hstep
      exact gate_onStream hgate _ _
  | writeDone conn ok =>
      obtain rfl := step_writeDone hstep
      exact gate_onStream hgate _ _
  | closerDone conn ok =>
      obtain rfl := step_closerDone hstep
      exact gate_onStream hgate _ _

/-- The check of the cid is what `Step` misses: an immediate login that fails
it opens the gate. -/
theorem not_gate_of_unjudged {server next : Server} {conn : ConnId}
    {self : Conn} {request : Request} {acceptor : AcceptorResult}
    {results : List HandlerResult} (hconn : server.conns conn = some self)
    (hstatus : self.status = .login) (hkind : request.kind ≠ .close)
    (hdying : server.reg.dying self.worker = false)
    (hjudged : ¬World.LoginJudged codec request.payload acceptor)
    (hstep : server.step codec (.complete conn true request acceptor results) =
      some next) : ¬next.LoginGate := by
  obtain ⟨-, -, -, rfl⟩ := step_complete hstep
  have hnot : ¬(true = true ∧ self.status = .accept) := by simp [hstatus]
  rw [complete_of_not_accept hconn hnot, runConn_of_some hconn]
  obtain ⟨older, hhistory⟩ :
      ∃ older, (World.process codec true request acceptor
        ⟨self, server.reg, results⟩).self.history =
          .registered 0 :: older := by
    simp only [World.process, if_true, hstatus, reduceCtorEq, if_false]
    exact ⟨_, World.step_unjudged rfl hkind hdying hjudged⟩
  intro hgate
  have hgated := (hgate conn _ (Function.update_self _ _ _)).gated
  rw [hhistory] at hgated
  exact hgated.1.1 rfl

theorem login_gate (codec : Codec) {actions : List Action} {final : Server}
    (hchecked : AllSteps (step codec)
      (fun server action _ => LoginChecked codec server action) init actions)
    (hrun : exec (step codec) init actions = some final) :
    final.LoginGate := by
  have hstep : ∀ server action next, WellFormed server ∧ server.LoginGate →
      server.step codec action = some next →
        LoginChecked codec server action →
          WellFormed next ∧ next.LoginGate := by
    rintro server action next ⟨hwf, hgate⟩ hstep hchecked
    exact ⟨wellFormed_step hwf hstep, gate_step hwf hgate hstep hchecked⟩
  have hinit : WellFormed init ∧ init.LoginGate := by
    refine ⟨wellFormed_init, ?_⟩
    intro conn self hconn
    simp [init] at hconn
  exact (exec_invariant_of_allSteps hstep hinit hchecked hrun).2

/-- A client connects and the acceptor answers with `cid`. -/
def connecting (cid : ℕ) : List Action :=
  [.launch 0,
    .complete 0 true { type := 0, msgid := 0, kind := .normal, payload := [] }
      { cid := 0, calls := [], slice := [] } [],
    .complete 0 true { type := 0, msgid := 1, kind := .connect, payload := [] }
      { cid, calls := [], slice := [] } []]

theorem login_gate_connecting :
    ∃ final, exec (step Codec.small) init (connecting 7) = some final ∧
      final.LoginGate := by
  have hchecked : AllSteps (step Codec.small)
      (fun server action _ => LoginChecked Codec.small server action) init
      (connecting 7) := by decide
  exact ⟨_, rfl, login_gate Codec.small hchecked rfl⟩

theorem login_gate_fails :
    ¬∀ actions final, exec (step Codec.small) init actions = some final →
      final.LoginGate := by
  intro hgate
  have hopened := hgate (connecting 0) _ rfl 0 _ rfl
  exact hopened.gated.1.1 rfl

end Server

end GrpcMtk
