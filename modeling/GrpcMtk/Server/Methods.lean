import GrpcMtk.Server.Frame
import Mathlib.Data.List.Count
import Mathlib.Data.List.Induction

/-!
# What a method leaves behind

The record, the stream and the own entries of the registries after each method
of a connection, in terms of the ones before it.
-/

namespace GrpcMtk

open GrpcMtk.Proto

/-- An event that a login records. -/
def ConnEvent.OfLogin : ConnEvent → Prop
  | .loginReturned _ | .denied => True
  | .loginTask _ | .registered _ | .handled _ | .closed | .deleted
  | .usedAfterDelete => False

section Deleted

variable {before after : Conn}

theorem isDeleted_of_history {event : ConnEvent}
    (hhistory : after.history = event :: before.history)
    (hevent : event ≠ .deleted) : after.isDeleted = before.isDeleted := by
  rw [Conn.isDeleted, Conn.isDeleted, decide_eq_decide, hhistory,
    List.mem_cons]
  exact or_iff_right hevent.symm

theorem isDeleted_of_subset (hlive : before.isDeleted = false)
    (hhistory : .deleted ∈ after.history → .deleted ∈ before.history) :
    after.isDeleted = false := by
  simp only [Conn.isDeleted, decide_eq_false_iff_not] at hlive ⊢
  exact fun hmem => hlive (hhistory hmem)

end Deleted

namespace World

variable {codec : Codec}

/-! ## Handling a request -/

theorem handle_spec (request : Request) (world : World) :
    (world.handle request).2.reg = world.reg ∧
      (world.handle request).2.self =
        { world.self with
          status := (world.handle request).2.self.status
          history := .handled request :: world.self.history } := by
  dsimp only [handle]
  split <;> exact ⟨rfl, rfl⟩

theorem handle_of_open {request : Request} {world : World}
    (hopen : (world.results.headD
      { ok := true, close := false }).close = false) :
    (world.handle request).2 =
      { world with results := world.results.tail }.record
        (.handled request) := by
  dsimp only [handle]
  rw [if_neg (by simp only [hopen, Bool.false_eq_true, not_false_eq_true])]

theorem handle_results (request : Request) (world : World) :
    (world.handle request).2.results = world.results.tail := by
  dsimp only [handle]
  split <;> rfl

theorem handle_status_eq (request : Request) (world : World) :
    (world.handle request).2.self.status =
      if (world.results.headD { ok := true, close := false }).close then .close
      else world.self.status := by
  dsimp only [handle]
  split <;> rfl

theorem handle_isDeleted (request : Request) (world : World) :
    (world.handle request).2.self.isDeleted = world.self.isDeleted := by
  have hhistory := congrArg Conn.history (handle_spec request world).2
  exact isDeleted_of_history hhistory nofun

theorem handle_settled (request : Request) {world : World}
    (hsettled : world.self.status ≠ .waitLogin) :
    (world.handle request).2.self.status ≠ .waitLogin := by
  rcases handle_status request world with hsame | hclose
  · rw [hsame]
    exact hsettled
  · rw [hclose]
    nofun

/-! ## Registering -/

@[simp]
theorem clearLoginCid_history (world : World) :
    world.clearLoginCid.self.history = world.self.history := by
  unfold clearLoginCid
  split <;> rfl

@[simp]
theorem clearLoginCid_status (world : World) :
    world.clearLoginCid.self.status = world.self.status := by
  unfold clearLoginCid
  split <;> rfl

theorem clearLoginCid_results (world : World) :
    world.clearLoginCid.results = world.results := by
  unfold clearLoginCid
  split <;> rfl

@[simp]
theorem clearLoginCid_cmap (world : World) :
    world.clearLoginCid.reg.cmap = world.reg.cmap := by
  unfold clearLoginCid
  split <;> rfl

theorem clearLoginCid_pmap (world : World) (lcid : ℕ) :
    world.clearLoginCid.reg.pmap lcid =
      if world.self.lcid ≠ 0 ∧ lcid = world.self.lcid then none
      else world.reg.pmap lcid := by
  unfold clearLoginCid
  by_cases hzero : world.self.lcid = 0
  · simp [hzero]
  · by_cases hkey : lcid = world.self.lcid
    · simp [hzero, hkey, Registry.onUnregister]
    · simp [hzero, hkey, Registry.onUnregister]

/-- Without its deferred login a connection has no entry in `pmap_`. -/
theorem clearLoginCid_free {world : World}
    (hpmap : ∀ lcid, world.reg.pmap lcid = some world.self.self →
      lcid = world.self.lcid ∧ lcid ≠ 0) (lcid : ℕ) :
    world.clearLoginCid.reg.pmap lcid ≠ some world.self.self := by
  intro hentry
  rw [clearLoginCid_pmap] at hentry
  split at hentry
  · contradiction
  case isFalse hkey =>
    obtain ⟨hlcid, hnonzero⟩ := hpmap lcid hentry
    exact hkey ⟨hlcid ▸ hnonzero, hlcid⟩

theorem clearLoginCid_lcid (world : World) :
    world.clearLoginCid.self.lcid = 0 := by
  unfold clearLoginCid
  split
  case isTrue hzero => exact hzero
  case isFalse => rfl

theorem clearLoginCid_members {world : World}
    (hmembers : world.self.lcid ≠ 0 ∧
        (world.reg.connections world.self.worker).count world.self.self ≤ 1 ∨
      world.self.self ∉ world.reg.connections world.self.worker) :
    (world.clearLoginCid.reg.connections world.self.worker).count
      world.self.self = 0 := by
  rcases hmembers with ⟨hlcid, hcount⟩ | habsent
  · simp only [clearLoginCid, hlcid, if_false, Registry.onUnregister,
      Function.update_self, List.count_erase_self]
    omega
  · unfold clearLoginCid
    split
    · exact List.count_eq_zero.mpr habsent
    · simp only [Registry.onUnregister, Function.update_self,
        List.count_erase_self, List.count_eq_zero.mpr habsent]

theorem register_self (cid : ℕ) (world : World) :
    (world.register cid).self =
      { world.self with
        cid := cid
        lcid := 0
        history := .registered cid :: world.self.history } := by
  unfold World.register clearLoginCid
  by_cases hlcid : world.self.lcid = 0
  · simp [hlcid, record]
  · simp [hlcid, record]

theorem register_isDeleted (cid : ℕ) (world : World) :
    (world.register cid).self.isDeleted = world.self.isDeleted :=
  isDeleted_of_history (congrArg Conn.history (register_self cid world)) nofun

theorem register_connections (cid : ℕ) (world : World) :
    (world.register cid).reg.connections world.self.worker =
      world.clearLoginCid.reg.connections world.self.worker ++
        [world.self.self] := by
  have hframe := Frame.clearLoginCid world
  rw [← hframe.worker, ← hframe.self]
  exact Function.update_self _ _ _

theorem unregister_pmap (world : World) :
    world.unregister.reg.pmap = world.clearLoginCid.reg.pmap :=
  Registry.unregister_pmap _ _ _

theorem unregister_lcid (world : World) : world.unregister.self.lcid = 0 :=
  clearLoginCid_lcid world

theorem unregister_members {world : World}
    (hmembers : (world.reg.connections world.self.worker).count
      world.self.self ≤ 1) :
    world.self.self ∉
      world.unregister.reg.connections world.self.worker := by
  have hclear :
      (world.clearLoginCid.reg.connections world.self.worker).count
        world.self.self ≤ 1 := by
    unfold clearLoginCid
    split
    · exact hmembers
    · simp only [Registry.onUnregister, Function.update_self,
        List.count_erase_self]
      omega
  have hself := (Frame.clearLoginCid world).self
  have hworker := (Frame.clearLoginCid world).worker
  have hcmap := Registry.unregister_connections world.clearLoginCid.reg
    world.clearLoginCid.self.cid world.clearLoginCid.self.self
  rw [← List.count_eq_zero]
  simp only [unregister, Registry.onUnregister, hself, hworker,
    Function.update_self, List.count_erase_self] at hcmap ⊢
  rw [hcmap]
  omega

theorem unregister_history (world : World) :
    world.unregister.self.history = world.self.history :=
  clearLoginCid_history world

theorem unregister_status (world : World) :
    world.unregister.self.status = world.self.status :=
  clearLoginCid_status world

theorem unregister_pending (world : World) :
    world.unregister.self.pending = world.self.pending := by
  unfold unregister clearLoginCid
  split <;> rfl

theorem unregister_stream (world : World) :
    world.unregister.self.stream = world.self.stream := by
  rw [unregister]
  exact clearLoginCid_stream world

/-! ## Accepting a deferred login -/

theorem acceptLogin_accepts {request : SystemPayload.Login} {world : World}
    (hid : request.id ≠ 0) :
    ∃ stream, stream.tasks = world.self.stream.tasks ∧
      (world.acceptLogin codec request).2 =
        { (world.record (.loginTask request.id)).register request.id with
          self := { world.self with
            stream := stream
            status := .read
            cid := request.id
            lcid := 0
            pending := world.self.pending + 1
            history := .registered request.id :: .loginTask request.id ::
              world.self.history } } := by
  refine ⟨_, acceptLogin_tasks codec request world, ?_⟩
  simp only [acceptLogin, hid, if_false]
  simp [sysRep, recv, startOperation, register_self, record]

theorem acceptLogin_opened {request : SystemPayload.Login}
    (hid : request.id ≠ 0) (world : World) :
    (world.acceptLogin codec request).2.self.status = .read := by
  rw [acceptLogin, if_neg hid]
  rfl

theorem acceptLogin_settled (request : SystemPayload.Login) {world : World}
    (hsettled : world.self.status ≠ .waitLogin) :
    (world.acceptLogin codec request).2.self.status ≠ .waitLogin := by
  rcases @acceptLogin_status codec request world with hsame | hread
  · rw [hsame]
    exact hsettled
  · rw [hread]
    nofun

theorem acceptLogin_isDeleted (request : SystemPayload.Login)
    (world : World) :
    (world.acceptLogin codec request).2.self.isDeleted =
      world.self.isDeleted := by
  have htask : (world.record (.loginTask request.id)).self.isDeleted =
      world.self.isDeleted := isDeleted_of_history rfl nofun
  dsimp only [acceptLogin]
  split
  · exact (@isDeleted_of_history (world.record (.loginTask request.id)).self _
      .denied rfl nofun).trans htask
  · exact (register_isDeleted request.id
      (world.record (.loginTask request.id))).trans htask

theorem acceptLogin_finishes (request : SystemPayload.Login) (world : World) :
    (world.acceptLogin codec request).2.self.stream.finishes =
      world.self.stream.finishes := by
  dsimp only [acceptLogin]
  split
  · exact SVStream.send_finishes _ _
  · apply (SVStream.send_finishes _ _).trans
    exact congrArg SVStream.finishes (clearLoginCid_stream _)

theorem consumeTask_of_not_dying {world : World}
    (hdying : world.dying = false) (destroy : World → World) (count : ℤ) :
    world.consumeTask codec destroy count =
      world.consumeLoop codec destroy world.self.stream.tasks count := by
  simp [World.consumeTask, hdying]

/-! ## The login -/

/-- The acceptor may defer the login once. -/
theorem acceptorCalls_none {calls : List AcceptorCall} {world : World}
    (hnone : .deferLogin ∉ calls) :
    (calls.foldl acceptorCall world).reg = world.reg ∧
      (calls.foldl acceptorCall world).self =
        { world.self with
          status := (calls.foldl acceptorCall world).self.status } ∧
      ((calls.foldl acceptorCall world).self.status = world.self.status ∨
        (calls.foldl acceptorCall world).self.status = .close) := by
  induction calls generalizing world with
  | nil => exact ⟨rfl, rfl, Or.inl rfl⟩
  | cons call rest ih =>
      cases call with
      | close =>
          obtain ⟨hreg, hself, hstatus⟩ :=
            @ih world.internalClose (fun hmem => hnone (by simp [hmem]))
          refine ⟨hreg, hself, Or.inr ?_⟩
          rcases hstatus with hsame | hclose
          · exact hsame
          · exact hclose
      | deferLogin => simp at hnone

theorem acceptorCalls_once {calls : List AcceptorCall} {world : World}
    (honce : calls.count .deferLogin = 1) :
    (calls.foldl acceptorCall world).reg = world.newLoginCid.reg ∧
      (calls.foldl acceptorCall world).self =
        { world.self with
          lcid := world.newLoginCid.self.lcid
          status := (calls.foldl acceptorCall world).self.status } ∧
      ((calls.foldl acceptorCall world).self.status = .waitLogin ∨
        (calls.foldl acceptorCall world).self.status = .close) := by
  induction calls generalizing world with
  | nil => simp at honce
  | cons call rest ih =>
      cases call with
      | close =>
          have hrest : rest.count .deferLogin = 1 := by simpa using honce
          exact @ih world.internalClose hrest
      | deferLogin =>
          have hrest : .deferLogin ∉ rest := by
            rw [← List.count_eq_zero]
            simpa using honce
          exact @acceptorCalls_none rest world.deferLogin hrest

theorem acceptorCalls_stream (calls : List AcceptorCall) (world : World) :
    (calls.foldl acceptorCall world).self.stream = world.self.stream := by
  induction calls generalizing world with
  | nil => rfl
  | cons call rest ih =>
      rw [List.foldl_cons, ih]
      cases call <;> rfl

/-- The last call of the acceptor decides the status. -/
theorem acceptorCalls_status (calls : List AcceptorCall) (world : World) :
    (calls.foldl acceptorCall world).self.status =
      match calls.getLast? with
      | none => world.self.status
      | some .close => .close
      | some .deferLogin => .waitLogin := by
  induction calls using List.reverseRecOn with
  | nil => rfl
  | append_singleton calls last =>
      rw [List.foldl_append, List.getLast?_concat]
      cases last <;> rfl

theorem mem_of_login {events history : List ConnEvent} {event : ConnEvent}
    (hevents : ∀ event ∈ events, event.OfLogin) (hevent : ¬event.OfLogin)
    (hmem : event ∈ events ++ history) : event ∈ history :=
  (List.mem_append.mp hmem).resolve_left fun hnew =>
    hevent (hevents event hnew)

/-- What the login leaves of the stream and the history. -/
theorem login_eq (acceptor : AcceptorResult) (world : World) :
    ∃ stream events,
      stream.tasks = world.self.stream.tasks ∧
        stream.finishes = world.self.stream.finishes ∧
        (∀ event ∈ events, event.OfLogin) ∧
        (world.login codec acceptor).2 =
          { (world.handlerLogin codec acceptor).2.2 with
            self.stream := stream
            self.history := events ++
              (world.handlerLogin codec acceptor).2.2.self.history } := by
  have hstream : (world.handlerLogin codec acceptor).2.2.self.stream =
      world.self.stream := by
    rw [handlerLogin]
    split
    · rfl
    · exact acceptorCalls_stream _ _
  rw [← hstream]
  dsimp only [login]
  split
  · exact ⟨_, [.loginReturned _], rfl, rfl, by simp [ConnEvent.OfLogin], rfl⟩
  · split
    · exact ⟨_, [.loginReturned _], SVStream.send_tasks _ _,
        SVStream.send_finishes _ _, by simp [ConnEvent.OfLogin], rfl⟩
    · exact ⟨_, [.denied, .loginReturned _], SVStream.send_tasks _ _,
        SVStream.send_finishes _ _, by simp [ConnEvent.OfLogin], rfl⟩

/-- The condition for the login of a connection: one deferral at most, and a
login cid for it. -/
def DefersOnce (acceptor : AcceptorResult) (reg : Registry) : Prop :=
  acceptor.calls.count .deferLogin ≤ 1 ∧
    (.deferLogin ∈ acceptor.calls → reg.loginCidSeed + 1 < 2 ^ 64)

instance (acceptor : AcceptorResult) (reg : Registry) :
    Decidable (DefersOnce acceptor reg) :=
  inferInstanceAs (Decidable (_ ∧ _))

/-- The registries and the record after the login: nothing but the status has
changed, or the login is deferred. -/
theorem login_cases {acceptor : AcceptorResult} {world : World}
    (honce : DefersOnce acceptor world.reg) :
    ∃ stream events,
      stream.tasks = world.self.stream.tasks ∧
        (∀ event ∈ events, event.OfLogin) ∧
        ((world.login codec acceptor).2.reg = world.reg ∧
            (world.login codec acceptor).2.self =
              { world.self with
                stream := stream
                history := events ++ world.self.history
                status := (world.login codec acceptor).2.self.status } ∧
            ((world.login codec acceptor).2.self.status = world.self.status ∨
              (world.login codec acceptor).2.self.status = .close) ∨
          (world.login codec acceptor).2.reg = world.newLoginCid.reg ∧
            (world.login codec acceptor).2.self =
              { world.self with
                stream := stream
                history := events ++ world.self.history
                lcid := world.newLoginCid.self.lcid
                status := (world.login codec acceptor).2.self.status } ∧
            ((world.login codec acceptor).2.self.status = .waitLogin ∨
              (world.login codec acceptor).2.self.status = .close) ∧
            world.reg.loginCidSeed + 1 < 2 ^ 64) := by
  obtain ⟨stream, events, htasks, -, hevents, hlogin⟩ :=
    @login_eq codec acceptor world
  refine ⟨stream, events, htasks, hevents, ?_⟩
  rw [hlogin]
  cases hunpack : codec.unpackConnect world.self.req.payload with
  | none =>
      have hhandler : (world.handlerLogin codec acceptor).2.2 = world := by
        simp only [handlerLogin, hunpack]
      rw [hhandler]
      exact Or.inl ⟨rfl, rfl, Or.inl rfl⟩
  | some connect =>
      have hhandler : (world.handlerLogin codec acceptor).2.2 =
          acceptor.calls.foldl acceptorCall world := by
        simp only [handlerLogin, hunpack]
      rw [hhandler]
      by_cases hdefer : .deferLogin ∈ acceptor.calls
      · have hcount : acceptor.calls.count .deferLogin = 1 := by
          have hpos := List.count_pos_iff.mpr hdefer
          have hle := honce.1
          omega
        obtain ⟨hreg, hself, hstatus⟩ := @acceptorCalls_once _ world hcount
        refine Or.inr ⟨hreg, ?_, hstatus, honce.2 hdefer⟩
        dsimp only
        rw [hself]
      · obtain ⟨hreg, hself, hstatus⟩ := @acceptorCalls_none _ world hdefer
        refine Or.inl ⟨hreg, ?_, hstatus⟩
        dsimp only
        rw [hself]

end World

end GrpcMtk
