import GrpcMtk.Server.Methods
import GrpcMtk.Server.System

/-!
# Ownership of completion-queue operations

A connection is freed by the completion of the one operation it is the tag of,
or by a task while it waits for its login and has none.  So a live connection
must have exactly one operation in the queue, and none exactly in WAIT_LOGIN.

The code breaks this where a Login task reaches a connection that no longer
waits for it, where the handler closes one that still does, and where the
shutdown loop meets one.  The invariant follows the Login task: it is created
from the entry of `pmap_` a deferral makes, so a connection has at most one.
-/

namespace GrpcMtk

open GrpcMtk.Proto
open GrpcMtk.Runs

namespace Task

def isLogin : Task → Bool
  | .login _ => true
  | .normal _ | .close | .other _ => false

/-- A Login task that `AcceptLogin` accepts. -/
def accepts : Task → Bool
  | .login (some request) => request.id ≠ 0
  | .login none | .normal _ | .close | .other _ => false

end Task

/-- No Login task in the queue would be accepted. -/
def Conn.Unaccepted (state : Conn) : Prop :=
  ∀ task ∈ state.stream.tasks, task.accepts = false

instance (state : Conn) : Decidable state.Unaccepted :=
  inferInstanceAs (Decidable (∀ task ∈ state.stream.tasks, _ = false))

theorem Conn.unaccepted_of_no_login {state : Conn}
    (hnone : state.stream.tasks.countP Task.isLogin = 0) :
    state.Unaccepted := by
  intro task htask
  have hnot := List.countP_eq_zero.mp hnone task htask
  cases task with
  | login payload => simp [Task.isLogin] at hnot
  | _ => rfl

/-- One operation for a live connection, none while it waits for its login and
none once it is deleted; `delete` and `handler_->Close` run at most once. -/
structure Conn.Owned (state : Conn) : Prop where
  live : state.isDeleted = false →
    state.pending = if state.status = .waitLogin then 0 else 1
  dead : state.isDeleted = true → state.pending = 0
  deleted : state.history.count .deleted ≤ 1
  closed : state.history.count .closed ≤ 1

def Server.Owned (server : Server) : Prop :=
  ∀ conn self, server.conns conn = some self → self.Owned

def StreamStatus.early : StreamStatus → Bool
  | .init | .accept | .login => true
  | .waitLogin | .read | .write | .close => false

/-- What the threads outside the workers hold. -/
structure Outside where
  finishing : List (ConnId × SystemPayload.Login)
  handles : List ConnId

/-- The deferred login of a connection, wherever it is on its way: in `pmap_`,
in a `FinishLogin` call or in the task queue. -/
def Conn.tokens (outside : Outside) (reg : Registry) (conn : ConnId)
    (state : Conn) : ℕ :=
  (if reg.pmap state.lcid = some conn then 1 else 0) +
    outside.finishing.countP (fun entry => entry.1 = conn) +
    state.stream.tasks.countP Task.isLogin

/-- What holds of a live connection apart from its operations. -/
structure Conn.Sound (outside : Outside) (reg : Registry) (conn : ConnId)
    (state : Conn) : Prop where
  closed : .closed ∉ state.history
  members : (reg.connections state.worker).count conn ≤ 1
  early : state.status.early = true →
    state.lcid = 0 ∧ conn ∉ reg.connections state.worker
  waiting : state.status = .waitLogin → state.lcid ≠ 0
  pmap : ∀ lcid, reg.pmap lcid = some conn → lcid = state.lcid
  tokens : state.tokens outside reg conn ≤ 1
  spent : state.status ≠ .waitLogin → state.status ≠ .close →
    state.tokens outside reg conn = 0
  /-- Only a registered connection can be closed through a stream handle. -/
  opened : (∃ task ∈ state.stream.tasks, task.Closes) ∨
      conn ∈ outside.handles ∨ (∃ cid, reg.cmap cid = some conn) →
    state.status = .read ∨ state.status = .close

/-- What holds of a deleted connection. -/
structure Conn.Gone (reg : Registry) (conn : ConnId) (state : Conn) :
    Prop where
  deleted : state.history.count .deleted ≤ 1
  closed : state.history.count .closed ≤ 1
  members : conn ∉ reg.connections state.worker

/-- The invariant of one connection. -/
structure Conn.Held (outside : Outside) (reg : Registry) (conn : ConnId)
    (state : Conn) : Prop where
  live : state.isDeleted = false →
    state.pending = (if state.status = .waitLogin then 0 else 1) ∧
      state.Sound outside reg conn
  dead : state.isDeleted = true → state.pending = 0 ∧ state.Gone reg conn

theorem Conn.Held.owned {outside : Outside} {reg : Registry} {conn : ConnId}
    {state : Conn} (hheld : state.Held outside reg conn) : state.Owned where
  live hlive := (hheld.live hlive).1
  dead hdead := (hheld.dead hdead).1
  deleted := by
    cases hdeleted : state.isDeleted with
    | false =>
        have habsent : .deleted ∉ state.history := by
          simpa [Conn.isDeleted] using hdeleted
        rw [List.count_eq_zero.mpr habsent]
        exact Nat.zero_le 1
    | true => exact (hheld.dead hdeleted).2.deleted
  closed := by
    cases hdeleted : state.isDeleted with
    | false =>
        rw [List.count_eq_zero.mpr (hheld.live hdeleted).2.closed]
        exact Nat.zero_le 1
    | true => exact (hheld.dead hdeleted).2.closed

namespace Conn.Sound

variable {outside : Outside} {reg : Registry} {conn : ConnId}
variable {state after : Conn}

/-- What is under way to a connection only gets less, and its status stays or
becomes CLOSE. -/
theorem mono {outside' : Outside} {reg' : Registry}
    (hsound : state.Sound outside reg conn)
    (hclosed : .closed ∈ after.history → .closed ∈ state.history)
    (hmembers : (reg'.connections after.worker).count conn =
      (reg.connections state.worker).count conn)
    (hlcid : after.lcid = state.lcid)
    (hpmap : ∀ lcid, reg'.pmap lcid = some conn → reg.pmap lcid = some conn)
    (htokens : after.tokens outside' reg' conn ≤ state.tokens outside reg conn)
    (hopened : (∃ task ∈ after.stream.tasks, task.Closes) ∨
        conn ∈ outside'.handles ∨ (∃ cid, reg'.cmap cid = some conn) →
      state.status = .read ∨ state.status = .close)
    (hstatus : after.status = state.status ∨ after.status = .close) :
    after.Sound outside' reg' conn := by
  have hopen : after.status ≠ .close → after.status = state.status :=
    hstatus.resolve_right
  refine ⟨fun hmem => hsound.closed (hclosed hmem), ?_, ?_, ?_, ?_, ?_, ?_, ?_⟩
  · rw [hmembers]
    exact hsound.members
  · intro hearly
    rw [hopen (by intro hclose; rw [hclose] at hearly; contradiction)]
      at hearly
    obtain ⟨hzero, hmember⟩ := hsound.early hearly
    refine ⟨hlcid.trans hzero, ?_⟩
    rwa [← List.count_eq_zero, hmembers, List.count_eq_zero]
  · intro hwait
    rw [hopen (by simp [hwait])] at hwait
    rw [hlcid]
    exact hsound.waiting hwait
  · intro lcid hentry
    rw [hlcid]
    exact hsound.pmap lcid (hpmap lcid hentry)
  · exact Nat.le_trans htokens hsound.tokens
  · intro hwait hclose
    rw [hopen hclose] at hwait hclose
    rw [hsound.spent hwait hclose] at htokens
    exact Nat.le_zero.mp htokens
  · intro hcloses
    rcases hstatus with hsame | hclose
    · rw [hsame]
      exact hopened hcloses
    · exact Or.inr hclose

/-- Tasks are taken off, and the status stays or becomes CLOSE. -/
theorem shrink (hsound : state.Sound outside reg conn)
    (hworker : after.worker = state.worker) (hlcid : after.lcid = state.lcid)
    (htasks : after.stream.tasks.Sublist state.stream.tasks)
    (hclosed : .closed ∈ after.history → .closed ∈ state.history)
    (hstatus : after.status = state.status ∨ after.status = .close) :
    after.Sound outside reg conn := by
  apply hsound.mono hclosed (by rw [hworker]) hlcid (fun _ => id) ?_ ?_ hstatus
  · unfold Conn.tokens
    rw [hlcid]
    exact Nat.add_le_add_left htasks.countP_le _
  · rintro (⟨task, htask, hcloses⟩ | hrest)
    · exact hsound.opened (Or.inl ⟨task, htasks.subset htask, hcloses⟩)
    · exact hsound.opened (Or.inr hrest)

/-- Before its login a connection has no deferred login under way. -/
theorem free (hsound : state.Sound outside reg conn)
    (hearly : state.status.early = true) :
    (∀ lcid, reg.pmap lcid ≠ some conn) ∧
      outside.finishing.countP (fun entry => entry.1 = conn) = 0 ∧
      state.stream.tasks.countP Task.isLogin = 0 := by
  have hspent := hsound.spent
    (by intro hwait; rw [hwait] at hearly; contradiction)
    (by intro hclose; rw [hclose] at hearly; contradiction)
  unfold Conn.tokens at hspent
  refine ⟨?_, by omega, by omega⟩
  intro lcid hentry
  rw [hsound.pmap lcid hentry] at hentry
  rw [if_pos hentry] at hspent
  omega

/-- Up to its login a connection only waits for the next completion. -/
theorem advance (hsound : state.Sound outside reg conn)
    (hearly : state.status.early = true) {status : StreamStatus}
    (hnext : status.early = true) {pending : ℕ} :
    { state with status := status, pending := pending }.Sound outside reg
      conn := by
  have hspent : state.tokens outside reg conn = 0 := by
    apply hsound.spent
    · intro hwait
      rw [hwait] at hearly
      contradiction
    · intro hclose
      rw [hclose] at hearly
      contradiction
  refine ⟨hsound.closed, hsound.members, fun _ => hsound.early hearly, ?_,
    hsound.pmap, hsound.tokens, fun _ _ => hspent, ?_⟩
  · intro hwait
    have hwait : status = .waitLogin := hwait
    rw [hwait] at hnext
    contradiction
  · intro hopen
    exfalso
    rcases hsound.opened hopen with hread | hclose
    · rw [hread] at hearly
      contradiction
    · rw [hclose] at hearly
      contradiction

/-- Methods of other connections only take entries of `pmap_` and `cmap_`
away. -/
theorem of_reg {reg' : Registry} (hsound : state.Sound outside reg conn)
    (hmembers : (reg'.connections state.worker).count conn =
      (reg.connections state.worker).count conn)
    (hpmap : ∀ lcid, reg'.pmap lcid = some conn → reg.pmap lcid = some conn)
    (hcmap : ∀ cid, reg'.cmap cid = some conn → reg.cmap cid = some conn) :
    state.Sound outside reg' conn := by
  apply hsound.mono id hmembers rfl hpmap ?_ ?_ (Or.inl rfl)
  · have hentry := hpmap state.lcid
    unfold Conn.tokens
    split
    case isTrue hnew => simp [hentry hnew]
    case isFalse => split <;> omega
  · rintro (hclosing | hhandle | ⟨cid, hentry⟩)
    · exact hsound.opened (Or.inl hclosing)
    · exact hsound.opened (Or.inr (Or.inl hhandle))
    · exact hsound.opened (Or.inr (Or.inr ⟨cid, hcmap cid hentry⟩))

end Conn.Sound

namespace World

/-! ## Consuming tasks without a Login task that accepts -/

variable {codec : Codec} {outside : Outside}

/-- A live connection that does not wait for its login and has no Login task
that accepts. -/
structure Quiet (outside : Outside) (world : World) : Prop where
  live : world.self.isDeleted = false
  sound : world.self.Sound outside world.reg world.self.self
  settled : world.self.status ≠ .waitLogin
  refused : world.self.Unaccepted

theorem Quiet.shrink {before after : World} (hquiet : before.Quiet outside)
    (hreg : after.reg = before.reg)
    (hself : after.self.self = before.self.self)
    (hworker : after.self.worker = before.self.worker)
    (hlcid : after.self.lcid = before.self.lcid)
    (htasks : after.self.stream.tasks.Sublist before.self.stream.tasks)
    (hhistory : ∀ event, event = .closed ∨ event = .deleted →
      event ∈ after.self.history → event ∈ before.self.history)
    (hstatus : after.self.status = before.self.status ∨
      after.self.status = .close) : after.Quiet outside := by
  refine ⟨?_, ?_, ?_, ?_⟩
  · have hlive := hquiet.live
    simp only [Conn.isDeleted, decide_eq_false_iff_not] at hlive ⊢
    exact fun hmem => hlive (hhistory .deleted (Or.inr rfl) hmem)
  · rw [hreg, hself]
    exact hquiet.sound.shrink hworker hlcid htasks
      (hhistory .closed (Or.inl rfl)) hstatus
  · rcases hstatus with hsame | hclose
    · rw [hsame]
      exact hquiet.settled
    · simp [hclose]
  · exact fun task htask => hquiet.refused task (htasks.subset htask)

/-- A quiet world stays quiet, and starts no operation tagged with the
connection. -/
def QuietKept (outside : Outside) (before after : World) : Prop :=
  before.Quiet outside →
    after.Quiet outside ∧ after.self.pending = before.self.pending

theorem quiet_kept : TaskKept codec (QuietKept outside) where
  refl _ hquiet := ⟨hquiet, rfl⟩
  trans hfirst hsecond hquiet := by
    obtain ⟨hmiddle, hpending⟩ := hfirst hquiet
    obtain ⟨hlast, hpending'⟩ := hsecond hmiddle
    exact ⟨hlast, hpending'.trans hpending⟩
  normal world request rest htasks hquiet := by
    obtain ⟨hreg, hself⟩ := handle_spec request (world.dequeue rest)
    constructor
    · apply hquiet.shrink hreg
      · rw [hself]
        rfl
      · rw [hself]
        rfl
      · rw [hself]
        rfl
      · rw [hself, htasks]
        exact List.sublist_cons_self _ _
      · intro event hevent hmem
        rw [hself] at hmem
        rcases hevent with rfl | rfl <;> simpa [dequeue] using hmem
      · exact handle_status request (world.dequeue rest)
    · rw [hself]
      rfl
  accept world request rest htasks hid hquiet := by
    have hrefused := hquiet.refused (.login (some request)) (by simp [htasks])
    simp [Task.accepts, hid] at hrefused
  refuse world request rest htasks hid hquiet := by
    simp only [acceptLogin, hid, if_true]
    constructor
    · refine hquiet.shrink rfl rfl rfl rfl ?_ ?_ (Or.inr rfl)
      · rw [htasks, closeByTask_tasks]
        simp [deny, record, dequeue, SVStream.throw]
      · intro event hevent hmem
        rcases hevent with rfl | rfl <;>
          simpa [deny, record, dequeue, closeByTask] using hmem
    · rfl
  closing world task rest htasks _ hquiet := by
    constructor
    · refine hquiet.shrink rfl rfl rfl rfl ?_ (fun _ _ hmem => hmem)
        (Or.inr rfl)
      rw [htasks]
      exact List.sublist_cons_self _ _
    · rfl
  dying world _ _ hquiet := by
    exact ⟨hquiet.shrink rfl rfl rfl rfl (List.Sublist.refl _)
      (fun _ _ hmem => hmem) (Or.inr rfl), rfl⟩
  usedAfterDelete world hdeleted hquiet := by
    rw [hquiet.live] at hdeleted
    contradiction

theorem Quiet.consumeTask {world : World} (hquiet : world.Quiet outside)
    (destroy : World → World) (count : ℤ) :
    (world.consumeTask codec destroy count).Quiet outside ∧
      (world.consumeTask codec destroy count).self.pending =
        world.self.pending := by
  have hkept : TaskKept codec (QuietKept outside) := quiet_kept
  rw [consumeTask_of_not_waiting destroy id count hquiet.settled]
  exact hkept.consumeTask
    (fun world _ => ⟨hkept.refl world, Or.inr rfl⟩) count world hquiet

/-! ## Destroy -/

/-- Destroying a quiet connection deletes it once and closes it once. -/
theorem Quiet.destroy {world : World} (hquiet : world.Quiet outside) :
    (world.destroy codec).self.isDeleted = true ∧
      (world.destroy codec).self.pending = world.self.pending ∧
      (world.destroy codec).self.Gone (world.destroy codec).reg
        world.self.self := by
  have hlive : .deleted ∉ world.self.history := by
    simpa [Conn.isDeleted] using hquiet.live
  refine ⟨delete_isDeleted _, ?_⟩
  rw [World.destroy, destroyWithin]
  split
  case isTrue hpeer =>
    obtain ⟨hafter, hpending⟩ :=
      @Quiet.consumeTask codec outside world hquiet
        (destroyWithin codec 1) (-1)
    generalize hconsumed : world.consumeTask codec
      (destroyWithin codec 1) (-1) = consumed at hafter hpending ⊢
    have hframe : Frame world consumed := by
      rw [← hconsumed]
      exact Frame.kept.consumeTask
        (fun world _ => Frame.kept.destroyWithin 1 world) (-1) world
    have hundeleted : .deleted ∉ consumed.self.history := by
      simpa [Conn.isDeleted] using hafter.live
    have hhistory : (consumed.record .closed).unregister.delete.self.history =
        .deleted :: .closed :: consumed.self.history := by
      simp [delete, record, unregister_history]
    refine ⟨?_, ?_, ?_, ?_⟩
    · rw [← hpending]
      exact unregister_pending _
    · rw [hhistory]
      simp [List.count_eq_zero.mpr hundeleted]
    · rw [hhistory]
      simp [List.count_eq_zero.mpr hafter.sound.closed]
    · have hunregister := (Frame.unregister (consumed.record .closed))
      have hmembers := @unregister_members (consumed.record .closed)
        hafter.sound.members
      have hself : (consumed.record .closed).self.self = world.self.self :=
        hframe.self
      rw [hself] at hmembers
      have hworker :
          (consumed.record .closed).unregister.delete.self.worker =
            (consumed.record .closed).self.worker := hunregister.worker
      rw [hworker]
      exact hmembers
  case isFalse hpeer =>
    have hearly : world.self.status.early = true := by
      cases hstatus : world.self.status <;>
        simp [hstatus, StreamStatus.hasPeer, StreamStatus.early] at hpeer ⊢
    refine ⟨rfl, ?_, ?_, ?_⟩
    · simp [delete, record, List.count_eq_zero.mpr hlive]
    · simp [delete, record, List.count_eq_zero.mpr hquiet.sound.closed]
    · exact (hquiet.sound.early hearly).2

/-! ## Registering -/

/-- Registering a connection whose deferred login is used up. -/
theorem sound_register {world : World} (cid : ℕ)
    (hclosed : .closed ∉ world.self.history)
    (hmembers : world.self.lcid ≠ 0 ∧
        (world.reg.connections world.self.worker).count world.self.self ≤ 1 ∨
      world.self.self ∉ world.reg.connections world.self.worker)
    (hpmap : ∀ lcid, world.reg.pmap lcid = some world.self.self →
      lcid = world.self.lcid ∧ world.self.lcid ≠ 0)
    (hfinishing : outside.finishing.countP
      (fun entry => entry.1 = world.self.self) = 0)
    (htasks : world.self.stream.tasks.countP Task.isLogin = 0)
    {after : Conn} (hworker : after.worker = world.self.worker)
    (hstream : after.stream.tasks = world.self.stream.tasks)
    (hstatus : after.status = .read)
    (hhistory : after.history = .registered cid :: world.self.history) :
    after.Sound outside (world.register cid).reg world.self.self := by
  have hfree : ∀ lcid,
      (world.register cid).reg.pmap lcid ≠ some world.self.self := by
    apply clearLoginCid_free
    intro lcid hentry
    obtain ⟨rfl, hzero⟩ := hpmap lcid hentry
    exact ⟨rfl, hzero⟩
  have htokens : after.tokens outside (world.register cid).reg
      world.self.self = 0 := by
    unfold Conn.tokens
    rw [if_neg (hfree _), hfinishing, hstream, htasks]
  refine ⟨?_, ?_, ?_, ?_, ?_, ?_, ?_, ?_⟩
  · rw [hhistory]
    simpa using hclosed
  · rw [hworker, register_connections, List.count_append,
      clearLoginCid_members hmembers, List.count_singleton_self]
  · intro hearly
    rw [hstatus] at hearly
    contradiction
  · intro hwait
    rw [hstatus] at hwait
    contradiction
  · exact fun lcid hentry => absurd hentry (hfree lcid)
  · rw [htokens]
    exact Nat.zero_le 1
  · exact fun _ _ => htokens
  · exact fun _ => Or.inl hstatus

/-! ## Consuming tasks while the login is deferred -/

/-- No handler called for a task ahead of the first Login task closes the
connection. -/
def keepsWaiting : List Task → ℤ → List HandlerResult → Bool
  | .normal _ :: rest, count, results =>
      count = 0 ||
        !(results.headD { ok := true, close := false }).close &&
          keepsWaiting rest (count - 1) results.tail
  | _, _, _ => true

def Held (outside : Outside) (world : World) : Prop :=
  world.self.Held outside world.reg world.self.self

theorem held_of_settled {world : World}
    (hlive : world.self.isDeleted = false)
    (hsound : world.self.Sound outside world.reg world.self.self)
    (hsettled : world.self.status ≠ .waitLogin)
    (hpending : world.self.pending = 1) : world.Held outside where
  live _ := by
    rw [if_neg hsettled]
    exact ⟨hpending, hsound⟩
  dead hdead := by
    rw [hlive] at hdead
    contradiction

theorem Quiet.held {world : World} (hquiet : world.Quiet outside)
    (hpending : world.self.pending = 1) : world.Held outside :=
  held_of_settled hquiet.live hquiet.sound hquiet.settled hpending

/-- Destroying a quiet connection that has no operation outstanding. -/
theorem Quiet.held_destroy {world : World} (hquiet : world.Quiet outside)
    (hpending : world.self.pending = 0) :
    (world.destroy codec).Held outside := by
  obtain ⟨hdeleted, hsame, hgone⟩ := @Quiet.destroy codec outside world hquiet
  have hframe : Frame world (world.destroy codec) := Frame.kept.destroy world
  constructor
  · intro hlive
    rw [hdeleted] at hlive
    contradiction
  · intro _
    rw [hframe.self]
    exact ⟨hsame.trans hpending, hgone⟩

theorem held_of_waiting {world : World}
    (hlive : world.self.isDeleted = false)
    (hsound : world.self.Sound outside world.reg world.self.self)
    (hwait : world.self.status = .waitLogin)
    (hpending : world.self.pending = 0) : world.Held outside where
  live _ := by
    rw [if_pos hwait]
    exact ⟨hpending, hsound⟩
  dead hdead := by
    rw [hlive] at hdead
    contradiction

/-- The world after a Login task that accepts, taken by a waiting
connection. -/
theorem quiet_acceptLogin {world : World} {request : SystemPayload.Login}
    {rest : List Task} (hlive : world.self.isDeleted = false)
    (hsound : world.self.Sound outside world.reg world.self.self)
    (hwait : world.self.status = .waitLogin)
    (htasks : world.self.stream.tasks = .login (some request) :: rest)
    (hid : request.id ≠ 0) :
    ((world.dequeue rest).acceptLogin codec request).2.Quiet outside ∧
      ((world.dequeue rest).acceptLogin codec request).2.self.pending =
        world.self.pending + 1 := by
  have htokens := hsound.tokens
  unfold Conn.tokens at htokens
  rw [htasks] at htokens
  simp only [List.countP_cons, Task.isLogin, if_true] at htokens
  have hfinishing : outside.finishing.countP
      (fun entry => entry.1 = world.self.self) = 0 := by omega
  have hrest : rest.countP Task.isLogin = 0 := by omega
  obtain ⟨stream, hstream, haccept⟩ :=
    @acceptLogin_accepts codec request (world.dequeue rest) hid
  rw [haccept]
  refine ⟨⟨?_, ?_, by simp, ?_⟩, rfl⟩
  · simpa [Conn.isDeleted, dequeue] using hlive
  · have hlcid := hsound.waiting hwait
    refine @sound_register outside
      ((world.dequeue rest).record (.loginTask request.id)) request.id
      ?_ (Or.inl ⟨hlcid, hsound.members⟩)
      (fun lcid hentry => ⟨hsound.pmap lcid hentry, hlcid⟩) hfinishing hrest
      _ rfl hstream rfl rfl
    simpa [record, dequeue] using hsound.closed
  · apply Conn.unaccepted_of_no_login
    rw [hstream]
    exact hrest

/-- A deferred login is accepted: the connection reads, with one operation. -/
theorem held_accepted {world : World} {request : SystemPayload.Login}
    {rest : List Task} (hlive : world.self.isDeleted = false)
    (hsound : world.self.Sound outside world.reg world.self.self)
    (hwait : world.self.status = .waitLogin)
    (hpending : world.self.pending = 0) (hdying : world.dying = false)
    (htasks : world.self.stream.tasks = .login (some request) :: rest)
    (hid : request.id ≠ 0) (destroy : World → World) (count : ℤ) :
    (((world.dequeue rest).acceptLogin codec request).2.consumeLoop codec
      destroy rest count).Held outside := by
  obtain ⟨hquiet, hread⟩ := @quiet_acceptLogin codec outside world request
    rest hlive hsound hwait htasks hid
  have hframe := @Frame.acceptLogin codec request (world.dequeue rest)
  have hopen :
      ((world.dequeue rest).acceptLogin codec request).2.dying = false := by
    rw [World.dying, hframe.dying, hframe.worker]
    exact hdying
  obtain ⟨hafter, hsame⟩ :=
    @Quiet.consumeTask codec outside _ hquiet destroy count
  rw [consumeTask_of_not_dying hopen, acceptLogin_tasks] at hafter hsame
  apply hafter.held
  rw [hpending] at hread
  exact hsame.trans hread

/-- A deferred login is denied: the connection is destroyed. -/
theorem held_refused {world : World} {request : SystemPayload.Login}
    {rest : List Task} (hlive : world.self.isDeleted = false)
    (hsound : world.self.Sound outside world.reg world.self.self)
    (hwait : world.self.status = .waitLogin)
    (hpending : world.self.pending = 0)
    (htasks : world.self.stream.tasks = .login (some request) :: rest)
    (hid : request.id = 0) :
    (((world.dequeue rest).acceptLogin codec request).2.finish
      (destroy codec) true).Held outside := by
  have htokens := hsound.tokens
  unfold Conn.tokens at htokens
  rw [htasks] at htokens
  simp only [List.countP_cons, Task.isLogin, if_true] at htokens
  have hrest : rest.countP Task.isLogin = 0 := by omega
  simp only [acceptLogin, hid, if_true]
  rw [finish_byTask, if_pos (by exact hwait)]
  have htail : (deny request.msgid request.payload ((world.dequeue rest).record
      (.loginTask 0))).closeByTask.self.stream.tasks = rest :=
    SVStream.send_tasks _ _
  apply Quiet.held_destroy
  · refine ⟨?_, ?_, by simp, ?_⟩
    · simpa [Conn.isDeleted, deny, record, dequeue, closeByTask] using hlive
    · refine hsound.shrink rfl rfl ?_ ?_ (Or.inr rfl)
      · rw [htail, htasks]
        exact List.sublist_cons_self _ _
      · simp [deny, record, dequeue, closeByTask]
    · apply Conn.unaccepted_of_no_login
      rwa [htail]
  · exact hpending

/-- Consuming tasks while the login is deferred: the connection goes on
waiting, or reads with one operation, or is destroyed with none. -/
theorem held_consumeLoop {tasks : List Task} {count : ℤ} {world : World}
    (htasks : world.self.stream.tasks = tasks)
    (hlive : world.self.isDeleted = false)
    (hsound : world.self.Sound outside world.reg world.self.self)
    (hwait : world.self.status = .waitLogin)
    (hpending : world.self.pending = 0) (hdying : world.dying = false)
    (hkeeps : keepsWaiting tasks count world.results = true) :
    (world.consumeLoop codec (destroy codec) tasks count).Held outside := by
  induction tasks generalizing count world with
  | nil => exact held_of_waiting hlive hsound hwait hpending
  | cons task rest ih =>
      by_cases hcount : count = 0
      · rw [hcount, consumeLoop_zero]
        exact held_of_waiting hlive hsound hwait hpending
      rcases task.cases with ⟨request, rfl⟩ | ⟨request, rfl⟩ | hcloses
      · have hkeeps : (world.results.headD
            { ok := true, close := false }).close = false ∧
              keepsWaiting rest (count - 1) world.results.tail = true := by
          simpa only [keepsWaiting, hcount, decide_false, Bool.false_or,
            Bool.and_eq_true, Bool.not_eq_true'] using hkeeps
        rw [consumeLoop_normal hcount,
          @handle_of_open request (world.dequeue rest) hkeeps.1]
        apply ih rfl
        · simpa [Conn.isDeleted, record, dequeue] using hlive
        · refine hsound.shrink rfl rfl ?_ ?_ (Or.inl rfl)
          · rw [htasks]
            exact List.sublist_cons_self _ _
          · simp [record, dequeue]
        · exact hwait
        · exact hpending
        · exact hdying
        · exact hkeeps.2
      · by_cases hid : request.id = 0
        · rw [consumeLoop_refused hcount hid]
          exact held_refused hlive hsound hwait hpending htasks hid
        · rw [consumeLoop_accepted hcount hid]
          exact held_accepted hlive hsound hwait hpending hdying htasks hid
            (destroy codec) (count - 1)
      · have hopened := hsound.opened
          (Or.inl ⟨task, by simp [htasks], hcloses⟩)
        rw [hwait] at hopened
        simp at hopened

/-! ## One action of a worker -/

/-- A connection that neither waits for its login nor is closed has no Login
task at all. -/
theorem quiet_of_sound {world : World} (hlive : world.self.isDeleted = false)
    (hsound : world.self.Sound outside world.reg world.self.self)
    (hsettled : world.self.status ≠ .waitLogin)
    (hclose : world.self.status = .close → world.self.Unaccepted) :
    world.Quiet outside := by
  refine ⟨hlive, hsound, hsettled, ?_⟩
  by_cases hstatus : world.self.status = .close
  · exact hclose hstatus
  have hspent := hsound.spent hsettled hstatus
  unfold Conn.tokens at hspent
  apply Conn.unaccepted_of_no_login
  omega

/-- The condition for a pass of `ConsumeTask`. -/
def Consumable (world : World) : Prop :=
  (world.self.status = .close → world.self.Unaccepted) ∧
    (world.self.status = .waitLogin →
      if world.dying then world.self.Unaccepted
      else keepsWaiting world.self.stream.tasks 3 world.results = true)

instance (world : World) : Decidable world.Consumable :=
  inferInstanceAs (Decidable (_ ∧ _))

theorem held_consumeTask {world : World} (hheld : world.Held outside)
    (hlive : world.self.isDeleted = false) (hconsumable : world.Consumable) :
    (world.consumeTask codec (destroy codec) 3).Held outside := by
  obtain ⟨hpending, hsound⟩ := hheld.live hlive
  by_cases hwait : world.self.status = .waitLogin
  · rw [if_pos hwait] at hpending
    have hready := hconsumable.2 hwait
    cases hdying : world.dying with
    | true =>
        simp only [hdying, if_true] at hready
        have hconsume : world.consumeTask codec (destroy codec) 3 =
            world.closeByTask.destroy codec := by
          simp [World.consumeTask, hdying, hwait, finish_byTask]
        rw [hconsume]
        apply Quiet.held_destroy
        · refine ⟨hlive, ?_, by simp, hready⟩
          exact hsound.shrink rfl rfl (List.Sublist.refl _) id (Or.inr rfl)
        · exact hpending
    | false =>
        simp only [hdying, Bool.false_eq_true, if_false] at hready
        rw [consumeTask_of_not_dying hdying]
        exact held_consumeLoop rfl hlive hsound hwait hpending hdying hready
  · rw [if_neg hwait] at hpending
    have hquiet := quiet_of_sound hlive hsound hwait hconsumable.1
    obtain ⟨hafter, hsame⟩ :=
      @Quiet.consumeTask codec outside world hquiet (destroy codec) 3
    exact hafter.held (hsame.trans hpending)

theorem sound_defer {world : World}
    (hsound : world.self.Sound outside world.reg world.self.self)
    (hearly : world.self.status.early = true)
    (hseed : world.reg.loginCidSeed + 1 < 2 ^ 64) {after : Conn}
    (hworker : after.worker = world.self.worker)
    (hlcid : after.lcid = world.newLoginCid.self.lcid)
    (htasks : after.stream.tasks = world.self.stream.tasks)
    (hclosed : .closed ∈ after.history → .closed ∈ world.self.history)
    (hstatus : after.status = .waitLogin ∨ after.status = .close) :
    after.Sound outside world.newLoginCid.reg world.self.self := by
  obtain ⟨hfree, hfinishing, hlogins⟩ := hsound.free hearly
  have hnew : after.lcid = world.reg.loginCidSeed + 1 := by
    rw [hlcid]
    exact Nat.mod_eq_of_lt hseed
  have hpmap : ∀ lcid, world.newLoginCid.reg.pmap lcid =
      some world.self.self → lcid = after.lcid := by
    intro lcid hentry
    by_contra hother
    rw [hlcid] at hother
    have hentry : Function.update world.reg.pmap world.newLoginCid.self.lcid
        (some world.self.self) lcid = some world.self.self := hentry
    rw [Function.update_of_ne hother] at hentry
    exact hfree lcid hentry
  have hopened : ¬(world.self.status = .read ∨ world.self.status = .close) := by
    rintro (hread | hclose)
    · rw [hread] at hearly
      contradiction
    · rw [hclose] at hearly
      contradiction
  refine ⟨fun hmem => hsound.closed (hclosed hmem), ?_, ?_, ?_, hpmap,
    ?_, ?_, ?_⟩
  · rw [hworker]
    simp only [newLoginCid, Registry.onRegister, Function.update_self,
      List.count_append, List.count_eq_zero.mpr (hsound.early hearly).2]
    simp
  · intro hagain
    rcases hstatus with hwait | hclose
    · rw [hwait] at hagain
      contradiction
    · rw [hclose] at hagain
      contradiction
  · intro _
    rw [hnew]
    exact Nat.succ_ne_zero _
  · unfold Conn.tokens
    rw [hfinishing, htasks, hlogins]
    split <;> simp
  · intro hwait hclose
    exact absurd hstatus (not_or.mpr ⟨hwait, hclose⟩)
  · intro hopen
    rcases hstatus with hwait | hclose
    · exfalso
      apply hopened
      apply hsound.opened
      rw [htasks] at hopen
      exact hopen
    · exact Or.inr hclose

/-- `Finish` by `Step` starts the one operation of the connection. -/
theorem held_finish {world : World} (hlive : world.self.isDeleted = false)
    (hsound : Conn.Sound outside world.reg world.self.self
      { world.self with status := .close })
    (hpending : world.self.pending = 0) (destroy : World → World) :
    (world.finish destroy false).Held outside := by
  apply held_of_settled
  · exact hlive
  · exact hsound.shrink rfl rfl (List.Sublist.refl _) id (Or.inr rfl)
  · simp [World.finish, startOperation]
  · exact congrArg (· + 1) hpending

/-- A connection that has logged in at once is registered and reads. -/
theorem held_registered {world after : World} {cid : ℕ}
    (hsound : world.self.Sound outside world.reg world.self.self)
    (hearly : world.self.status.early = true)
    (hreg : after.reg = world.reg) (hself : after.self.self = world.self.self)
    (hworker : after.self.worker = world.self.worker)
    (htasks : after.self.stream.tasks = world.self.stream.tasks)
    (hclosed : .closed ∈ after.self.history → .closed ∈ world.self.history)
    (hlive : after.self.isDeleted = false) (hpending : after.self.pending = 0) :
    Held outside { after.register cid with self.status := .read }.recv := by
  obtain ⟨hfree, hfinishing, hlogins⟩ := hsound.free hearly
  have hregister := register_self cid after
  have hid : (after.register cid).self.self = after.self.self :=
    (Frame.register cid after).self
  apply held_of_settled
  · exact (register_isDeleted cid after).trans hlive
  · refine hid.symm ▸ @sound_register outside after cid ?_ (Or.inr ?_) ?_ ?_ ?_
      _ (Frame.register cid after).worker ?_ rfl ?_
    · exact fun hmem => hsound.closed (hclosed hmem)
    · rw [hreg, hself, hworker]
      exact (hsound.early hearly).2
    · intro lcid hentry
      rw [hreg, hself] at hentry
      exact absurd hentry (hfree lcid)
    · rw [hself]
      exact hfinishing
    · rw [htasks]
      exact hlogins
    · exact congrArg (fun conn => conn.stream.tasks) hregister
    · exact congrArg Conn.history hregister
  · simp [recv, startOperation]
  · have hnone : (after.register cid).self.pending = 0 := by
      rw [hregister]
      exact hpending
    exact congrArg (· + 1) hnone

/-- The LOGIN branch of `Step`, after the login. -/
theorem held_login {world : World} {acceptor : AcceptorResult}
    (hlive : world.self.isDeleted = false)
    (hsound : world.self.Sound outside world.reg world.self.self)
    (hstatus : world.self.status = .login)
    (hpending : world.self.pending = 0)
    (honce : DefersOnce acceptor world.reg) :
    Held outside
      (if (world.login codec acceptor).2.self.status = .close ∨
          (world.login codec acceptor).2.dying = true then
        (world.login codec acceptor).2.finish (destroy codec) false
      else if (world.login codec acceptor).2.self.status = .waitLogin then
        (world.login codec acceptor).2
      else
        { (world.login codec acceptor).2.register
            (world.login codec acceptor).1 with
          self.status := .read }.recv) := by
  have hearly : world.self.status.early = true := by
    rw [hstatus]
    rfl
  have hself := (@Frame.login codec acceptor world).self
  obtain ⟨stream, events, htasks, hevents, hcases⟩ :=
    @login_cases codec acceptor world honce
  have hdeleted := @mem_of_login _ world.self.history .deleted hevents id
  have hclosed := @mem_of_login _ world.self.history .closed hevents id
  generalize world.login codec acceptor = result at hself hcases ⊢
  obtain ⟨cid, after⟩ := result
  dsimp only at hself hcases ⊢
  rcases hcases with ⟨hreg, hafter, hopen⟩ | ⟨hreg, hafter, hopen, hseed⟩
  · have hafterLive : after.self.isDeleted = false := by
      apply isDeleted_of_subset hlive
      rw [hafter]
      exact hdeleted
    split
    case isTrue =>
      apply held_finish hafterLive
      · rw [hreg, hself, hafter]
        refine hsound.shrink rfl rfl ?_ hclosed (Or.inr rfl)
        rw [htasks]
      · rw [hafter]
        exact hpending
    case isFalse hgo =>
      rw [hstatus] at hopen
      have hlogin := hopen.resolve_right fun hclose => hgo (Or.inl hclose)
      rw [if_neg (by simp [hlogin])]
      apply held_registered hsound hearly hreg hself
      · rw [hafter]
      · rw [hafter]
        exact htasks
      · rw [hafter]
        exact hclosed
      · exact hafterLive
      · rw [hafter]
        exact hpending
  · have hafterLive : after.self.isDeleted = false := by
      apply isDeleted_of_subset hlive
      rw [hafter]
      exact hdeleted
    have hdeferred : ∀ status, status = .waitLogin ∨ status = .close →
        Conn.Sound outside after.reg after.self.self
          { after.self with status := status } := by
      intro status hstatus
      rw [hreg, hself, hafter]
      exact sound_defer hsound hearly hseed rfl rfl htasks hclosed hstatus
    have hnone : after.self.pending = 0 := by
      rw [hafter]
      exact hpending
    split
    case isTrue =>
      exact held_finish hafterLive (hdeferred .close (Or.inr rfl)) hnone _
    case isFalse hgo =>
      have hwait := hopen.resolve_right fun hclose => hgo (Or.inl hclose)
      rw [if_pos hwait]
      have hsoundAfter := hdeferred .waitLogin (Or.inl rfl)
      rw [← hwait] at hsoundAfter
      exact held_of_waiting hafterLive hsoundAfter hwait hnone

/-- The READ branch of `Step`. -/
theorem held_read {world : World} (hlive : world.self.isDeleted = false)
    (hsound : world.self.Sound outside world.reg world.self.self)
    (hstatus : world.self.status = .read)
    (hpending : world.self.pending = 0) :
    Held outside
      (if (world.handle world.self.req).1 = true ∧
          (world.handle world.self.req).2.self.status ≠ .close ∧
          ¬(world.handle world.self.req).2.dying = true then
        (world.handle world.self.req).2.recv
      else (world.handle world.self.req).2.finish (destroy codec) false) := by
  obtain ⟨hreg, hself⟩ := handle_spec world.self.req world
  have hstill := handle_status world.self.req world
  generalize world.handle world.self.req = result at hreg hself hstill ⊢
  obtain ⟨ok, after⟩ := result
  dsimp only at hreg hself hstill ⊢
  have hafterLive : after.self.isDeleted = false := by
    apply isDeleted_of_subset hlive
    rw [hself]
    simp
  have hid : after.self.self = world.self.self := by rw [hself]
  have hafterSound : Conn.Sound outside after.reg after.self.self
      after.self := by
    rw [hreg, hid]
    refine hsound.shrink ?_ ?_ ?_ ?_ hstill
    · rw [hself]
    · rw [hself]
    · rw [hself]
    · rw [hself]
      simp
  have hnone : after.self.pending = 0 := by
    rw [hself]
    exact hpending
  split
  · apply held_of_settled
    · exact hafterLive
    · exact hafterSound.shrink rfl rfl (List.Sublist.refl _) id (Or.inl rfl)
    · rw [hstatus] at hstill
      rcases hstill with hread | hclose
      · simp [recv, startOperation, hread]
      · simp [recv, startOperation, hclose]
    · exact congrArg (· + 1) hnone
  · apply held_finish hafterLive
    · exact hafterSound.shrink rfl rfl (List.Sublist.refl _) id (Or.inr rfl)
    · exact hnone

/-- The condition for a completion: what a closed connection has queued is not
accepted, and the login is deferred once at most. -/
def Completable (world : World) (ok : Bool) (request : Request)
    (acceptor : AcceptorResult) : Prop :=
  (world.self.status = .close → world.self.Unaccepted) ∧
    (ok = true → world.self.status = .login → request.kind ≠ .close →
      DefersOnce acceptor world.reg)

instance (world : World) (ok : Bool) (request : Request)
    (acceptor : AcceptorResult) :
    Decidable (world.Completable ok request acceptor) :=
  inferInstanceAs (Decidable (_ ∧ _))

/-- A connection with no operation takes a successful completion. -/
theorem held_step {world : World} {acceptor : AcceptorResult}
    (hlive : world.self.isDeleted = false)
    (hsound : world.self.Sound outside world.reg world.self.self)
    (hsettled : world.self.status ≠ .waitLogin)
    (hpending : world.self.pending = 0)
    (hclose : world.self.status = .close → world.self.Unaccepted)
    (honce : world.self.status = .login → world.self.req.kind ≠ .close →
      DefersOnce acceptor world.reg) :
    (world.step codec acceptor).Held outside := by
  have hclosing : Conn.Sound outside world.reg world.self.self
      { world.self with status := .close } :=
    hsound.shrink rfl rfl (List.Sublist.refl _) id (Or.inr rfl)
  have hfinish := held_finish hlive hclosing hpending (destroy codec)
  have hadvance : world.self.status.early = true → ∀ status : StreamStatus,
      status.early = true →
        Held outside { world with self.status := status }.startOperation := by
    intro hearly status hnext
    apply held_of_settled
    · exact hlive
    · exact hsound.advance hearly hnext
    · intro hwait
      have hwait : status = .waitLogin := hwait
      rw [hwait] at hnext
      contradiction
    · exact congrArg (· + 1) hpending
  unfold World.step
  cases hstatus : world.self.status with
  | init => exact hadvance (by simp [hstatus, StreamStatus.early]) .accept rfl
  | accept => exact hadvance (by simp [hstatus, StreamStatus.early]) .login rfl
  | login =>
      by_cases hkind : world.self.req.kind = .close
      · simp only [hkind, if_true]
        exact hfinish
      · simp only [hkind, if_false]
        exact held_login hlive hsound hstatus hpending (honce hstatus hkind)
  | read =>
      by_cases hkind : world.self.req.kind = .close
      · simp only [hkind, if_true]
        exact hfinish
      · simp only [hkind, if_false]
        exact held_read hlive hsound hstatus hpending
  | close =>
      exact (quiet_of_sound hlive hsound hsettled hclose).held_destroy hpending
  | waitLogin => exact absurd hstatus hsettled
  | write => exact hfinish

theorem held_process {world : World} {ok : Bool} {request : Request}
    {acceptor : AcceptorResult} (hheld : world.Held outside)
    (houtstanding : world.self.pending ≠ 0)
    (hcompletable : world.Completable ok request acceptor) :
    (world.process codec ok request acceptor).Held outside := by
  have hlive : world.self.isDeleted = false := by
    cases hdead : world.self.isDeleted with
    | false => rfl
    | true => exact absurd (hheld.dead hdead).1 houtstanding
  obtain ⟨hpending, hsound⟩ := hheld.live hlive
  have hsettled : world.self.status ≠ .waitLogin := by
    intro hwait
    rw [if_pos hwait] at hpending
    exact houtstanding hpending
  rw [if_neg hsettled] at hpending
  have hnone : world.self.pending - 1 = 0 := by omega
  have hpopped : ∀ req, Conn.Sound outside world.reg world.self.self
      { world.self with pending := world.self.pending - 1, req := req } :=
    fun req => hsound.shrink rfl rfl (List.Sublist.refl _) id (Or.inl rfl)
  unfold World.process
  cases ok with
  | false =>
      have hquiet : Quiet outside
          { world with self.pending := world.self.pending - 1 } :=
        quiet_of_sound hlive (hpopped world.self.req) hsettled hcompletable.1
      exact hquiet.held_destroy hnone
  | true =>
      simp only [if_true]
      split
      case isTrue haccept =>
        refine held_step hlive (hpopped world.self.req) hsettled hnone
          hcompletable.1 fun hlogin _ => ?_
        have hlogin : world.self.status = .login := hlogin
        rw [haccept] at hlogin
        contradiction
      case isFalse =>
        exact held_step hlive (hpopped request) hsettled hnone hcompletable.1
          (hcompletable.2 rfl)

end World

/-! ## The server -/

namespace Server

def outside (server : Server) : Outside := ⟨server.finishing, server.handles⟩

/-- The invariant of every connection. -/
def Held (server : Server) : Prop :=
  server.EachConn fun reg conn self => self.Held server.outside reg conn

/-- The condition on one action. -/
def Careful (server : Server) : Action → Prop
  | .complete conn ok request acceptor results =>
      ∀ self ∈ server.conns conn,
        World.Completable ⟨self, server.reg, results⟩ ok request acceptor
  | .consume conn results =>
      ∀ self ∈ server.conns conn,
        World.Consumable ⟨self, server.reg, results⟩
  | .shutdown worker _ =>
      ∀ conn ∈ server.reg.connections worker,
        ∀ self ∈ server.conns conn, self.status ≠ .waitLogin
  | _ => True

instance (server : Server) : ∀ action, Decidable (server.Careful action)
  | .complete conn ok request acceptor results =>
      inferInstanceAs (Decidable (∀ self ∈ server.conns conn,
        World.Completable ⟨self, server.reg, results⟩ ok request acceptor))
  | .consume conn results =>
      inferInstanceAs (Decidable (∀ self ∈ server.conns conn,
        World.Consumable ⟨self, server.reg, results⟩))
  | .shutdown worker _ =>
      inferInstanceAs (Decidable (∀ conn ∈ server.reg.connections worker,
        ∀ self ∈ server.conns conn, self.status ≠ .waitLogin))
  | .launch _ | .prepareShutdown _ | .finishLogin .. | .postLogin ..
  | .getStream _ | .closeStream _ | .addTask .. | .send .. | .writeDone ..
  | .closerDone .. => isTrue trivial

variable {codec : Codec}

theorem held_stable (outside : Outside) :
    Stable fun reg conn self => self.Held outside reg conn := by
  intro before after hframe conn self hother hheld
  constructor
  · intro hlive
    obtain ⟨hpending, hsound⟩ := hheld.live hlive
    refine ⟨hpending, hsound.of_reg (hframe.members _ _ hother) ?_ ?_⟩
    · exact fun lcid hentry =>
        (hframe.pmap lcid conn hentry).resolve_right hother
    · exact fun cid hentry =>
        (hframe.cmap cid conn hentry).resolve_right hother
  · intro hdead
    obtain ⟨hpending, hgone⟩ := hheld.dead hdead
    refine ⟨hpending, hgone.deleted, hgone.closed, ?_⟩
    rw [← List.count_eq_zero, hframe.members _ _ hother, List.count_eq_zero]
    exact hgone.members

theorem held_runConn {server : Server} (hwf : WellFormed server)
    (hheld : server.Held) (conn : ConnId) (results : List HandlerResult)
    {method : World → World} (hframe : ∀ world, Frame world (method world))
    (hkept : ∀ self, server.conns conn = some self →
      World.Held server.outside ⟨self, server.reg, results⟩ →
        (method ⟨self, server.reg, results⟩).Held server.outside) :
    (server.runConn conn results method).Held := by
  have hsame : (server.runConn conn results method).outside =
      server.outside := by
    unfold runConn
    split <;> rfl
  unfold Held
  rw [hsame]
  apply EachConn.runConn hwf (held_stable _) hheld conn results hframe
  intro self hconn hself
  have hid := (hwf.known conn self hconn).1
  subst hid
  have hafter := hkept self hconn hself
  rwa [World.Held, (hframe _).self] at hafter

section Fresh

variable {server : Server} (hwf : WellFormed server)

include hwf

theorem WellFormed.fresh_pmap (lcid : ℕ) :
    server.reg.pmap lcid ≠ some server.next :=
  fun hentry => lt_irrefl _ (hwf.pmap lcid _ hentry)

theorem WellFormed.fresh_member (worker : WorkerId) :
    server.next ∉ server.reg.connections worker := by
  intro hmember
  obtain ⟨state, hstate, -⟩ := hwf.member worker _ hmember
  rw [hwf.fresh] at hstate
  contradiction

theorem WellFormed.tokens_waiter (worker : WorkerId) :
    (waiter server.next worker).tokens server.outside server.reg
      server.next = 0 := by
  have hfinishing : server.finishing.countP
      (fun entry => entry.1 = server.next) = 0 := by
    rw [List.countP_eq_zero]
    intro entry hentry hsame
    have hbelow := hwf.finishing entry.1 entry.2 hentry
    rw [of_decide_eq_true hsame] at hbelow
    exact lt_irrefl _ hbelow
  unfold Conn.tokens
  rw [if_neg (hwf.fresh_pmap _)]
  simp only [outside, hfinishing]
  rfl

end Fresh

theorem held_newConn {server : Server} (hwf : WellFormed server)
    (hheld : server.Held) (worker : WorkerId) :
    (server.newConn codec worker).Held := by
  apply EachConn.newConn hheld
  have htokens := hwf.tokens_waiter worker
  refine ⟨fun _ => ⟨rfl, ?_⟩, nofun⟩
  refine ⟨nofun, ?_, fun _ => ⟨rfl, hwf.fresh_member worker⟩, nofun, ?_, ?_,
    ?_, ?_⟩
  · rw [List.count_eq_zero.mpr (hwf.fresh_member _)]
    exact Nat.zero_le 1
  · exact fun lcid hentry => absurd hentry (hwf.fresh_pmap lcid)
  · rw [htokens]
    exact Nat.zero_le 1
  · exact fun _ _ => htokens
  · rintro (⟨task, htask, -⟩ | hhandle | ⟨cid, hentry⟩)
    · exact absurd htask List.not_mem_nil
    · exact absurd (hwf.handles _ hhandle) (lt_irrefl _)
    · exact absurd (hwf.cmap cid _ hentry) (lt_irrefl _)

theorem held_complete {server : Server} (hwf : WellFormed server)
    (hheld : server.Held) {conn : ConnId} {self : Conn}
    (hconn : server.conns conn = some self) (hpending : self.pending ≠ 0)
    {ok : Bool} {request : Request} {acceptor : AcceptorResult}
    {results : List HandlerResult}
    (hcareful : server.Careful (.complete conn ok request acceptor results)) :
    (server.complete codec conn ok request acceptor results).Held := by
  have hcompletable := hcareful self hconn
  by_cases haccept : ok = true ∧ self.status = .accept
  · have hcomplete : server.complete codec conn ok request acceptor results =
        (server.newConn codec self.worker).runConn conn results
          (World.process codec ok request acceptor) := by
      simp only [complete, hconn]
      rw [if_pos haccept]
    rw [hcomplete]
    apply held_runConn (hwf.newConn _) (held_newConn hwf hheld _) _ _
      (Frame.process ok request acceptor)
    intro state hstate hworld
    have hold : state = self := by
      rw [newConn_eq] at hstate
      dsimp only at hstate
      rw [Function.update_of_ne, hconn] at hstate
      · exact (Option.some.inj hstate).symm
      · exact Nat.ne_of_lt (hwf.known conn self hconn).2
    subst hold
    exact World.held_process hworld hpending hcompletable
  · rw [complete_of_not_accept hconn haccept]
    apply held_runConn hwf hheld _ _ (Frame.process ok request acceptor)
    intro state hstate hworld
    rw [hconn] at hstate
    obtain rfl := Option.some.inj hstate
    exact World.held_process hworld hpending hcompletable

theorem held_consume {server : Server} (hwf : WellFormed server)
    (hheld : server.Held) {conn : ConnId} {self : Conn}
    (hconn : server.conns conn = some self)
    (hmember : conn ∈ server.reg.connections self.worker)
    {results : List HandlerResult}
    (hcareful : server.Careful (.consume conn results)) :
    (server.runConn conn results
      (World.consumeTask codec (World.destroy codec) 3)).Held := by
  apply held_runConn hwf hheld
  · exact Frame.kept.consumeTask Frame.kept.destroyKept 3
  · intro state hstate hworld
    rw [hconn] at hstate
    obtain rfl := Option.some.inj hstate
    have hlive : self.isDeleted = false := by
      cases hdead : self.isDeleted with
      | false => rfl
      | true =>
          exact absurd hmember ((hheld conn self hconn).dead hdead).2.members
    exact World.held_consumeTask hworld hlive (hcareful self hconn)

/-- With no connection waiting for its login, the shutdown loop finds its
worker without connections. -/
theorem held_shutdown {server : Server} (hwf : WellFormed server)
    (hheld : server.Held) {worker : WorkerId}
    {results : ℕ → List HandlerResult} (hdrained : server.Drained worker)
    (hcareful : server.Careful (.shutdown worker results)) :
    server.reg.connections worker = [] := by
  rw [List.eq_nil_iff_forall_not_mem]
  intro conn hmember
  obtain ⟨self, hconn, rfl⟩ := hwf.member worker conn hmember
  have hnone := (hdrained conn (hwf.known conn self hconn).2 self hconn rfl).1
  have hsettled := hcareful conn hmember self hconn
  have hself := hheld conn self hconn
  cases hdead : self.isDeleted with
  | false =>
      have hpending := (hself.live hdead).1
      rw [if_neg hsettled, hnone] at hpending
      contradiction
  | true => exact (hself.dead hdead).2.members hmember

/-! ## The other threads -/

/-- A thread changes the stream of a connection. -/
theorem held_change {outside : Outside} {reg : Registry} {conn : ConnId}
    {self : Conn} (hheld : self.Held outside reg conn) {outside' : Outside}
    {reg' : Registry} {stream : SVStream}
    (hconnections : reg'.connections = reg.connections)
    (hpmap : ∀ lcid, reg'.pmap lcid = some conn → reg.pmap lcid = some conn)
    (htokens : self.Sound outside reg conn →
      { self with stream := stream }.tokens outside' reg' conn ≤
        self.tokens outside reg conn)
    (hopened : self.Sound outside reg conn →
      (∃ task ∈ stream.tasks, task.Closes) ∨ conn ∈ outside'.handles ∨
        (∃ cid, reg'.cmap cid = some conn) →
      self.status = .read ∨ self.status = .close) :
    { self with stream := stream }.Held outside' reg' conn where
  live hlive := by
    obtain ⟨hpending, hsound⟩ := hheld.live hlive
    refine ⟨hpending, hsound.mono id ?_ rfl hpmap (htokens hsound)
      (hopened hsound) (Or.inl rfl)⟩
    rw [hconnections]
  dead hdead := by
    obtain ⟨hpending, hgone⟩ := hheld.dead hdead
    refine ⟨hpending, hgone.deleted, hgone.closed, ?_⟩
    rw [hconnections]
    exact hgone.members

theorem held_same_tasks {server : Server} (hheld : server.Held)
    (conn : ConnId) {change : SVStream → SVStream}
    (htasks : ∀ stream, (change stream).tasks = stream.tasks) :
    (server.onStream conn change).Held := by
  have hsame : (server.onStream conn change).outside = server.outside := by
    simp [outside]
  unfold Held
  rw [hsame]
  apply EachConn.onStream hheld
  intro self hconn hself
  apply held_change hself rfl (fun _ => id)
  · intro _
    unfold Conn.tokens
    rw [htasks]
  · intro hsound
    rw [htasks]
    exact hsound.opened

/-- Enqueueing a task that is no Login task. -/
theorem held_enqueue {server : Server} (hheld : server.Held) (conn : ConnId)
    {task : Task} (hlogin : task.isLogin = false)
    (hcloses : task.Closes → conn ∈ server.handles) :
    (server.onStream conn fun stream => stream.enqueue task).Held := by
  have hsame : (server.onStream conn
      fun stream => stream.enqueue task).outside = server.outside := by
    simp [outside]
  unfold Held
  rw [hsame]
  apply EachConn.onStream hheld
  intro self hconn hself
  apply held_change hself rfl (fun _ => id)
  · intro _
    unfold Conn.tokens
    simp [SVStream.enqueue, hlogin]
  · intro hsound
    rintro (⟨other, hother, hclosing⟩ | hrest)
    · rcases List.mem_append.mp hother with hold | hnew
      · exact hsound.opened (Or.inl ⟨other, hold, hclosing⟩)
      · rw [List.mem_singleton.mp hnew] at hclosing
        exact hsound.opened (Or.inr (Or.inl (hcloses hclosing)))
    · exact hsound.opened (Or.inr hrest)

/-- `FinishLogin` takes a deferred login over from `pmap_`. -/
theorem tokens_finishLogin {server : Server} {lcid : ℕ} {conn other : ConnId}
    {self : Conn} (hentry : server.reg.pmap lcid = some conn)
    (hlcid : conn = other → lcid = self.lcid)
    (request : SystemPayload.Login) :
    self.tokens ⟨server.finishing ++ [(conn, request)], server.handles⟩
        { server.reg with
          pmap := Function.update server.reg.pmap lcid none } other ≤
      self.tokens server.outside server.reg other := by
  unfold Conn.tokens
  simp only [outside, List.countP_append, List.countP_singleton]
  by_cases hsame : conn = other
  · subst hsame
    obtain rfl := hlcid rfl
    simp only [hentry, decide_true, if_true, Function.update_self,
      reduceCtorEq, if_false]
    omega
  · by_cases hkey : self.lcid = lcid
    · simp only [hkey, hsame, decide_false, Bool.false_eq_true, if_false,
        Function.update_self, reduceCtorEq]
      omega
    · simp only [hsame, decide_false, Bool.false_eq_true, if_false,
        Function.update_of_ne hkey]
      exact Nat.le_refl _

/-- `FinishLogin` hands a deferred login over to the task queue. -/
theorem tokens_postLogin {server : Server} {conn : ConnId}
    {request : SystemPayload.Login} (hmem : (conn, request) ∈ server.finishing)
    (other : ConnId) {self : Conn} {stream : SVStream}
    (htasks : stream.tasks.countP Task.isLogin =
      self.stream.tasks.countP Task.isLogin + if conn = other then 1 else 0) :
    { self with stream := stream }.tokens
        ⟨server.finishing.erase (conn, request), server.handles⟩ server.reg
          other ≤
      self.tokens server.outside server.reg other := by
  have herased : (server.finishing.erase (conn, request)).countP
      (fun entry => decide (entry.1 = other)) =
        server.finishing.countP (fun entry => decide (entry.1 = other)) -
          if conn = other then 1 else 0 := by
    rw [List.countP_erase]
    simp [hmem]
  unfold Conn.tokens
  simp only [outside, herased, htasks]
  by_cases hsame : conn = other
  · have hpos : 0 < server.finishing.countP
        (fun entry => decide (entry.1 = other)) :=
      List.countP_pos_iff.mpr ⟨(conn, request), hmem, decide_eq_true hsame⟩
    rw [if_pos hsame]
    omega
  · rw [if_neg hsame]
    omega

theorem pmap_of_finishLogin {reg : Registry} {lcid key : ℕ} {conn : ConnId}
    (hkey : Function.update reg.pmap lcid none key = some conn) :
    reg.pmap key = some conn := by
  by_cases hsame : key = lcid
  · simp [hsame] at hkey
  · rwa [Function.update_of_ne hsame] at hkey

theorem held_finishLogin {server next : Server} (hheld : server.Held)
    {lcid cid msgid : ℕ} {data : Bytes}
    (hstep : server.step codec (.finishLogin lcid cid msgid data) =
      some next) : next.Held := by
  rcases step_finishLogin hstep with ⟨-, rfl⟩ | ⟨conn, hentry, rfl⟩
  · exact hheld
  intro other self hother
  apply held_change (hheld other self hother)
  · rfl
  · exact fun key => pmap_of_finishLogin
  · intro hsound
    apply tokens_finishLogin hentry
    rintro rfl
    exact hsound.pmap lcid hentry
  · exact fun hsound => hsound.opened

theorem held_postLogin {server next : Server} (hheld : server.Held)
    {conn : ConnId} {request : SystemPayload.Login}
    (hstep : server.step codec (.postLogin conn request) = some next) :
    next.Held := by
  obtain ⟨hmem, rfl⟩ := step_postLogin hstep
  intro other self hother
  rw [onStream_reg, outside, onStream_finishing, onStream_handles]
  obtain ⟨old, hold, ⟨rfl, rfl⟩ | ⟨hne, rfl⟩⟩ := onStream_conns hother
  · apply held_change (hheld other old hold) rfl (fun _ => id)
    · intro _
      apply tokens_postLogin hmem
      simp [SVStream.enqueue, Task.isLogin]
    · intro hsound
      rintro (⟨task, htask, hcloses⟩ | hrest)
      · rcases List.mem_append.mp htask with htask | hnew
        · exact hsound.opened (Or.inl ⟨task, htask, hcloses⟩)
        · rw [List.mem_singleton.mp hnew] at hcloses
          exact absurd hcloses id
      · exact hsound.opened (Or.inr hrest)
  · apply held_change (hheld other old hold)
    · rfl
    · exact fun _ => id
    · intro _
      apply tokens_postLogin hmem
      rw [if_neg hne.symm, Nat.add_zero]
    · exact fun hsound => hsound.opened

theorem held_getStream {server next : Server} (hheld : server.Held) {cid : ℕ}
    (hstep : server.step codec (.getStream cid) = some next) : next.Held := by
  rcases step_getStream hstep with ⟨-, rfl⟩ | ⟨conn, hentry, rfl⟩
  · exact hheld
  apply held_same_tasks
  · intro other self hother
    apply held_change (hheld other self hother)
    · rfl
    · exact fun _ => id
    · exact fun _ => Nat.le_refl _
    · intro hsound
      rintro (hclosing | hhandle | hcmap)
      · exact hsound.opened (Or.inl hclosing)
      · rcases List.mem_append.mp hhandle with hold | hnew
        · exact hsound.opened (Or.inr (Or.inl hold))
        · rw [List.mem_singleton.mp hnew] at hsound
          exact hsound.opened (Or.inr (Or.inr ⟨cid, hentry⟩))
      · exact hsound.opened (Or.inr (Or.inr hcmap))
  · exact fun _ => rfl

theorem held_step {server next : Server} {action : Action}
    (hwf : WellFormed server) (hheld : server.Held)
    (hstep : server.step codec action = some next)
    (hcareful : server.Careful action) : next.Held := by
  cases action with
  | launch worker =>
      obtain rfl := Option.some.inj hstep
      exact held_newConn hwf hheld worker
  | complete conn ok request acceptor results =>
      obtain ⟨self, hconn, hpending, rfl⟩ := step_complete hstep
      exact held_complete hwf hheld hconn hpending hcareful
  | consume conn results =>
      obtain ⟨self, hconn, hmember, rfl⟩ := step_consume hstep
      exact held_consume hwf hheld hconn hmember hcareful
  | shutdown worker results =>
      obtain ⟨-, hdrained, rfl⟩ := step_shutdown hstep
      rw [held_shutdown hwf hheld hdrained hcareful]
      exact hheld
  | prepareShutdown worker =>
      obtain rfl := Option.some.inj hstep
      exact fun conn self hconn => held_change (hheld conn self hconn) rfl
        (fun _ => id) (fun _ => Nat.le_refl _) fun hsound => hsound.opened
  | finishLogin lcid cid msgid data => exact held_finishLogin hheld hstep
  | postLogin conn request => exact held_postLogin hheld hstep
  | getStream cid => exact held_getStream hheld hstep
  | closeStream conn =>
      obtain ⟨hhandle, rfl⟩ := step_closeStream hstep
      exact held_enqueue hheld conn rfl fun _ => hhandle
  | addTask conn request =>
      obtain rfl := Option.some.inj hstep
      exact held_enqueue hheld conn rfl False.elim
  | send conn reply =>
      obtain rfl := Option.some.inj hstep
      exact held_same_tasks hheld conn fun stream => stream.send_tasks reply
  | writeDone conn ok =>
      obtain rfl := step_writeDone hstep
      exact held_same_tasks hheld conn fun stream => stream.writeDone_tasks ok
  | closerDone conn ok =>
      obtain rfl := step_closerDone hstep
      exact held_same_tasks hheld conn SVStream.closerDone_tasks

theorem conn_owned (codec : Codec) {actions : List Action} {final : Server}
    (hcareful : AllSteps (step codec)
      (fun server action _ => server.Careful action) init actions)
    (hrun : exec (step codec) init actions = some final) : final.Owned := by
  have hstep : ∀ server action next, WellFormed server ∧ server.Held →
      server.step codec action = some next → server.Careful action →
        WellFormed next ∧ next.Held := by
    rintro server action next ⟨hwf, hheld⟩ hstep hcareful
    exact ⟨wellFormed_step hwf hstep, held_step hwf hheld hstep hcareful⟩
  have hinit : WellFormed init ∧ init.Held := by
    refine ⟨wellFormed_init, ?_⟩
    intro conn self hconn
    simp [init] at hconn
  have hfinal := exec_invariant_of_allSteps hstep hinit hcareful hrun
  exact fun conn self hconn => (hfinal.2 conn self hconn).owned

/-- The acceptor defers a login once at most. -/
def Action.DefersOnce : Action → Prop
  | .complete _ _ _ acceptor _ => acceptor.calls.count .deferLogin ≤ 1
  | _ => True

instance : ∀ action : Action, Decidable action.DefersOnce
  | .complete _ _ _ acceptor _ =>
      inferInstanceAs (Decidable (acceptor.calls.count .deferLogin ≤ 1))
  | .launch _ | .consume .. | .shutdown .. | .prepareShutdown _
  | .finishLogin .. | .postLogin .. | .getStream _ | .closeStream _
  | .addTask .. | .send .. | .writeDone .. | .closerDone .. => isTrue trivial

/-- A client connects, its login is deferred, and another thread accepts it
with the cid 7. -/
def deferring : List Action :=
  [.launch 0,
    .complete 0 true { type := 0, msgid := 0, kind := .normal, payload := [] }
      { cid := 0, calls := [], slice := [] } [],
    .complete 0 true { type := 0, msgid := 1, kind := .connect, payload := [] }
      { cid := 0, calls := [.deferLogin], slice := [] } [],
    .finishLogin 1 7 1 [],
    .postLogin 0 { loginCid := 1, id := 7, msgid := 1, payload := [] }]

theorem conn_owned_deferring :
    ∃ final, exec (step Codec.small) init (deferring ++ [.consume 0 []]) =
        some final ∧ final.Owned := by
  have hcareful : AllSteps (step Codec.small)
      (fun server action _ => server.Careful action) init
      (deferring ++ [.consume 0 []]) := by decide
  exact ⟨_, rfl, conn_owned Codec.small hcareful rfl⟩

/-- The server starts to shut down before the worker takes the Login task: the
connection is destroyed, and reads again while it is. -/
theorem conn_owned_fails :
    ¬∀ actions final, (∀ action ∈ actions, action.DefersOnce) →
      exec (step Codec.small) init actions = some final → final.Owned := by
  intro howned
  have honce : ∀ action ∈ deferring ++ [.prepareShutdown 0, .consume 0 []],
      action.DefersOnce := by decide
  have hdead := (howned _ _ honce rfl 0 _ rfl).dead rfl
  exact absurd hdead (by decide)

end Server

end GrpcMtk
