import GrpcMtk.Server.Ownership
import Mathlib.Data.List.Nodup

/-!
# The registries

A connection whose login is deferred stands in `pmap_` and in `connections_`
of its worker, a registered one in `connections_` alone.  `OnWaitLogin` and
`OnFinishLogin` are aliases of `OnRegister` and `OnUnregister`, so registering
after a deferral takes the connection off the list and puts it back.

The invariant says how often the list has a connection, from its `lcid_` and
its history.  It needs the deferred login to be used at most once, and a
deferral never to draw the lcid 0, which `ClearLoginCid` takes for none.
-/

namespace GrpcMtk

open GrpcMtk.Proto
open GrpcMtk.Runs

/-- Whether an event leaves the connection registered.  `Destroy` runs
`Unregister` right behind `handler_->Close`. -/
def ConnEvent.registration : ConnEvent → Option Bool
  | .registered _ => some true
  | .closed => some false
  | .loginReturned _ | .loginTask _ | .denied | .handled _ | .deleted
  | .usedAfterDelete => none

theorem ConnEvent.OfLogin.registration {event : ConnEvent}
    (hevent : event.OfLogin) : event.registration = none := by
  cases event with
  | loginReturned => rfl
  | denied => rfl
  | _ => contradiction

namespace Conn

/-- `Register` was called, and `Unregister` not since. -/
def isRegistered (state : Conn) : Bool :=
  (state.history.findSome? ConnEvent.registration).getD false

theorem isRegistered_of_history {state after : Conn} {events : List ConnEvent}
    (hhistory : after.history = events ++ state.history)
    (hevents : ∀ event ∈ events, event.registration = none) :
    after.isRegistered = state.isRegistered := by
  rw [isRegistered, isRegistered, hhistory, List.findSome?_append,
    List.findSome?_eq_none_iff.mpr hevents, Option.none_or]

/-- Where a connection stands in the registries. -/
structure Listed (outside : Outside) (reg : Registry) (conn : ConnId)
    (state : Conn) : Prop where
  members : (reg.connections state.worker).count conn =
    if state.lcid ≠ 0 ∨ state.isRegistered = true then 1 else 0
  registered : state.isRegistered = true →
    state.lcid = 0 ∧ state.tokens outside reg conn = 0
  early : state.status.early = true → state.lcid = 0 ∧
    state.isRegistered = false ∧ state.tokens outside reg conn = 0
  pmap : ∀ lcid, reg.pmap lcid = some conn → lcid = state.lcid ∧ lcid ≠ 0
  tokens : state.tokens outside reg conn ≤ 1

/-- The invariant of one connection. -/
structure Filed (outside : Outside) (reg : Registry) (conn : ConnId)
    (state : Conn) : Prop extends state.Listed outside reg conn where
  gone : state.isDeleted = true → state.lcid = 0 ∧ state.isRegistered = false

namespace Listed

variable {outside outside' : Outside} {reg reg' : Registry} {conn : ConnId}
variable {state after : Conn}

/-- The registration stays, and what is under way to the connection only gets
less. -/
theorem mono (hlisted : state.Listed outside reg conn)
    (hmembers : (reg'.connections after.worker).count conn =
      (reg.connections state.worker).count conn)
    (hlcid : after.lcid = state.lcid)
    (hregistered : after.isRegistered = state.isRegistered)
    (hstatus : after.status.early = true → state.status.early = true)
    (hpmap : ∀ lcid, reg'.pmap lcid = some conn → reg.pmap lcid = some conn)
    (htokens : after.tokens outside' reg' conn ≤
      state.tokens outside reg conn) :
    after.Listed outside' reg' conn := by
  have hnone : state.tokens outside reg conn = 0 →
      after.tokens outside' reg' conn = 0 := by
    intro hzero
    rw [hzero] at htokens
    exact Nat.le_zero.mp htokens
  refine ⟨?_, ?_, ?_, ?_, Nat.le_trans htokens hlisted.tokens⟩
  · rw [hmembers, hlcid, hregistered]
    exact hlisted.members
  · intro hreg
    rw [hregistered] at hreg
    rw [hlcid]
    exact ⟨(hlisted.registered hreg).1, hnone (hlisted.registered hreg).2⟩
  · intro hearly
    obtain ⟨hzero, hnot, hspent⟩ := hlisted.early (hstatus hearly)
    rw [hlcid, hregistered]
    exact ⟨hzero, hnot, hnone hspent⟩
  · intro lcid hentry
    rw [hlcid]
    exact hlisted.pmap lcid (hpmap lcid hentry)

/-- Tasks are taken off, and the status stays, becomes CLOSE or moves on
towards the login. -/
theorem shrink (hlisted : state.Listed outside reg conn)
    (hworker : after.worker = state.worker) (hlcid : after.lcid = state.lcid)
    (htasks : after.stream.tasks.Sublist state.stream.tasks)
    (hregistered : after.isRegistered = state.isRegistered)
    (hstatus : after.status.early = true → state.status.early = true) :
    after.Listed outside reg conn := by
  apply hlisted.mono (by rw [hworker]) hlcid hregistered hstatus (fun _ => id)
  unfold Conn.tokens
  rw [hlcid]
  exact Nat.add_le_add_left htasks.countP_le _

/-- A connection with a Login task is not registered, and the task is all that
is left of its deferred login. -/
theorem of_login (hlisted : state.Listed outside reg conn)
    {payload : Option SystemPayload.Login} {rest : List Task}
    (htasks : state.stream.tasks = .login payload :: rest) :
    state.isRegistered = false ∧
      outside.finishing.countP (fun entry => entry.1 = conn) = 0 ∧
      rest.countP Task.isLogin = 0 := by
  have htokens := hlisted.tokens
  have hspent := fun hreg => (hlisted.registered hreg).2
  unfold Conn.tokens at htokens hspent
  rw [htasks] at htokens hspent
  simp only [List.countP_cons, Task.isLogin, if_true] at htokens hspent
  refine ⟨?_, by omega, by omega⟩
  cases hreg : state.isRegistered with
  | false => rfl
  | true =>
      have hzero := hspent hreg
      omega

/-- Before its login a connection has no deferred login under way. -/
theorem free (hlisted : state.Listed outside reg conn)
    (hearly : state.status.early = true) :
    (∀ lcid, reg.pmap lcid ≠ some conn) ∧
      outside.finishing.countP (fun entry => entry.1 = conn) = 0 ∧
      state.stream.tasks.countP Task.isLogin = 0 := by
  obtain ⟨hzero, -, hspent⟩ := hlisted.early hearly
  unfold Conn.tokens at hspent
  refine ⟨?_, by omega, by omega⟩
  intro lcid hentry
  obtain ⟨hlcid, hnonzero⟩ := hlisted.pmap lcid hentry
  exact hnonzero (hlcid.trans hzero)

/-- What `ClearLoginCid` needs to take the connection off the list. -/
theorem clearable (hlisted : state.Listed outside reg conn)
    (hregistered : state.isRegistered = false) :
    state.lcid ≠ 0 ∧ (reg.connections state.worker).count conn ≤ 1 ∨
      conn ∉ reg.connections state.worker := by
  have hmembers := hlisted.members
  by_cases hlcid : state.lcid = 0
  · right
    rw [if_neg (by simp [hlcid, hregistered])] at hmembers
    exact List.count_eq_zero.mp hmembers
  · left
    rw [if_pos (Or.inl hlcid)] at hmembers
    exact ⟨hlcid, Nat.le_of_eq hmembers⟩

theorem count_le_one (hlisted : state.Listed outside reg conn) :
    (reg.connections state.worker).count conn ≤ 1 := by
  rw [hlisted.members]
  split
  · exact Nat.le_refl 1
  · exact Nat.zero_le 1

end Listed

end Conn

namespace World

variable {codec : Codec} {outside : Outside}

/-- The connection stands in the registries as it should, and is live. -/
structure Listed (outside : Outside) (world : World) : Prop where
  live : world.self.isDeleted = false
  listed : world.self.Listed outside world.reg world.self.self

def Filed (outside : Outside) (world : World) : Prop :=
  world.self.Filed outside world.reg world.self.self

theorem Listed.filed {world : World} (hlisted : world.Listed outside) :
    world.Filed outside where
  toListed := hlisted.listed
  gone hgone := by
    rw [hlisted.live] at hgone
    contradiction

/-! ## Registering -/

/-- Registering a connection whose deferred login is used up. -/
theorem listed_register {world : World} (cid : ℕ)
    (hlisted : world.self.Listed outside world.reg world.self.self)
    (hregistered : world.self.isRegistered = false)
    (hfinishing : outside.finishing.countP
      (fun entry => entry.1 = world.self.self) = 0)
    (htasks : world.self.stream.tasks.countP Task.isLogin = 0)
    {after : Conn} (hworker : after.worker = world.self.worker)
    (hlcid : after.lcid = 0)
    (hstream : after.stream.tasks = world.self.stream.tasks)
    (hstatus : after.status = .read)
    (hhistory : after.history = .registered cid :: world.self.history) :
    after.Listed outside (world.register cid).reg world.self.self := by
  have hfree : ∀ lcid,
      (world.register cid).reg.pmap lcid ≠ some world.self.self :=
    clearLoginCid_free hlisted.pmap
  have htokens : after.tokens outside (world.register cid).reg
      world.self.self = 0 := by
    unfold Conn.tokens
    rw [if_neg (hfree _), hfinishing, hstream, htasks]
  have hregister : after.isRegistered = true := by
    rw [Conn.isRegistered, hhistory]
    rfl
  refine ⟨?_, fun _ => ⟨hlcid, htokens⟩, ?_, ?_, ?_⟩
  · have hcount := clearLoginCid_members (hlisted.clearable hregistered)
    rw [if_pos (Or.inr hregister), hworker, register_connections,
      List.count_append, hcount, List.count_singleton_self]
  · intro hearly
    rw [hstatus] at hearly
    contradiction
  · exact fun lcid hentry => absurd hentry (hfree lcid)
  · rw [htokens]
    exact Nat.zero_le 1

/-- `Unregister` takes the connection out of the registries. -/
theorem listed_unregister {world : World}
    (hlisted : world.self.Listed outside world.reg world.self.self) :
    (world.record .closed).unregister.self.Listed outside
        (world.record .closed).unregister.reg world.self.self ∧
      (world.record .closed).unregister.self.lcid = 0 ∧
      (world.record .closed).unregister.self.isRegistered = false := by
  have hframe := Frame.unregister (world.record .closed)
  have hlcid := unregister_lcid (world.record .closed)
  have hregistered :
      (world.record .closed).unregister.self.isRegistered = false := by
    rw [Conn.isRegistered, unregister_history]
    rfl
  have hfree : ∀ lcid, (world.record .closed).unregister.reg.pmap lcid ≠
      some world.self.self := by
    rw [unregister_pmap]
    exact @clearLoginCid_free (world.record .closed) hlisted.pmap
  have htokens : (world.record .closed).unregister.self.tokens outside
      (world.record .closed).unregister.reg world.self.self ≤
        world.self.tokens outside world.reg world.self.self := by
    unfold Conn.tokens
    rw [if_neg (hfree _), unregister_stream, Nat.add_assoc, Nat.zero_add,
      Nat.add_assoc]
    exact Nat.le_add_left _ _
  refine ⟨⟨?_, ?_, ?_, ?_, ?_⟩, hlcid, hregistered⟩
  · rw [if_neg (by simp [hlcid, hregistered]), hframe.worker]
    exact List.count_eq_zero.mpr
      (@unregister_members (world.record .closed) hlisted.count_le_one)
  · intro hreg
    rw [hregistered] at hreg
    contradiction
  · intro hearly
    rw [unregister_status] at hearly
    have hspent := (hlisted.early hearly).2.2
    rw [hspent] at htokens
    exact ⟨hlcid, hregistered, Nat.le_zero.mp htokens⟩
  · exact fun lcid hentry => absurd hentry (hfree lcid)
  · exact Nat.le_trans htokens hlisted.tokens

/-! ## Consuming tasks -/

/-- What a method does that takes tasks off and neither registers nor
deletes. -/
theorem Listed.shrink {before after : World} (hlisted : before.Listed outside)
    (hreg : after.reg = before.reg)
    (hself : after.self.self = before.self.self)
    (hworker : after.self.worker = before.self.worker)
    (hlcid : after.self.lcid = before.self.lcid)
    (htasks : after.self.stream.tasks.Sublist before.self.stream.tasks)
    {events : List ConnEvent}
    (hhistory : after.self.history = events ++ before.self.history)
    (hevents : ∀ event ∈ events, event.registration = none)
    (hdeleted : .deleted ∉ events)
    (hstatus : after.self.status.early = true →
      before.self.status.early = true) : after.Listed outside where
  live := by
    apply isDeleted_of_subset hlisted.live
    rw [hhistory]
    exact fun hmem => (List.mem_append.mp hmem).resolve_left hdeleted
  listed := by
    rw [hreg, hself]
    exact hlisted.listed.shrink hworker hlcid htasks
      (Conn.isRegistered_of_history hhistory hevents) hstatus

theorem Listed.handle {world : World} (hlisted : world.Listed outside)
    (request : Request) : (world.handle request).2.Listed outside := by
  obtain ⟨hreg, hself⟩ := handle_spec request world
  have hstatus := handle_status request world
  refine @Listed.shrink outside world _ hlisted hreg ?_ ?_ ?_ ?_
    [.handled request] ?_ ?_ ?_ ?_
  · rw [hself]
  · rw [hself]
  · rw [hself]
  · rw [hself]
  · rw [hself]
    rfl
  · simp [ConnEvent.registration]
  · simp
  · intro hearly
    rcases hstatus with hsame | hclose
    · rwa [hsame] at hearly
    · rw [hclose] at hearly
      contradiction

theorem Listed.dequeue {world : World} (hlisted : world.Listed outside)
    {task : Task} {rest : List Task}
    (htasks : world.self.stream.tasks = task :: rest) :
    (world.dequeue rest).Listed outside := by
  refine @Listed.shrink outside world _ hlisted rfl rfl rfl rfl ?_ [] rfl
    nofun nofun id
  rw [htasks]
  exact List.sublist_cons_self _ _

theorem Listed.closeByTask {world : World} (hlisted : world.Listed outside) :
    world.closeByTask.Listed outside :=
  @Listed.shrink outside world _ hlisted rfl rfl rfl rfl
    (List.Sublist.refl _) [] rfl nofun nofun nofun

/-- A Login task is accepted, whatever the status of the connection. -/
theorem Listed.accept {world : World} (hlisted : world.Listed outside)
    {request : SystemPayload.Login} {rest : List Task}
    (htasks : world.self.stream.tasks = .login (some request) :: rest)
    (hid : request.id ≠ 0) :
    ((world.dequeue rest).acceptLogin codec request).2.Listed outside := by
  obtain ⟨hregistered, hfinishing, hrest⟩ := hlisted.listed.of_login htasks
  obtain ⟨stream, hstream, haccept⟩ :=
    @acceptLogin_accepts codec request (world.dequeue rest) hid
  have htaken : ((world.dequeue rest).record
      (.loginTask request.id)).self.Listed outside world.reg
        world.self.self := by
    refine (hlisted.dequeue htasks).listed.shrink rfl rfl
      (List.Sublist.refl _) ?_ id
    exact @Conn.isRegistered_of_history _ _ [.loginTask request.id] rfl
      (by simp [ConnEvent.registration])
  rw [haccept]
  constructor
  · apply isDeleted_of_subset hlisted.live
    simp [World.dequeue]
  · refine @listed_register outside
      ((world.dequeue rest).record (.loginTask request.id)) request.id htaken
      ?_ hfinishing hrest _ rfl rfl hstream rfl rfl
    exact hregistered

/-- A Login task is refused. -/
theorem Listed.refuse {world : World} (hlisted : world.Listed outside)
    {request : SystemPayload.Login} {rest : List Task}
    (htasks : world.self.stream.tasks = .login (some request) :: rest)
    (hid : request.id = 0) :
    ((world.dequeue rest).acceptLogin codec request).2.Listed outside := by
  rw [acceptLogin, if_pos hid]
  refine @Listed.shrink outside (world.dequeue rest) _
    (hlisted.dequeue htasks) rfl rfl rfl rfl ?_
    [.denied, .loginTask request.id] rfl ?_ ?_ id
  · exact (congrArg (List.Sublist · _) (SVStream.send_tasks _ _)).mpr
      (List.Sublist.refl _)
  · simp [ConnEvent.registration]
  · simp

/-- What a method that runs `Destroy` needs of it: a live connection stays as
it is or is filed as a deleted one. -/
def FiledBy (outside : Outside) (destroy : World → World) : Prop :=
  ∀ world : World, world.Listed outside → world.self.status = .close →
    destroy world = world ∨ (destroy world).Filed outside ∧
      (destroy world).self.isDeleted = true

theorem filed_record {world : World} (hfiled : world.Filed outside)
    {event : ConnEvent} (hevent : event.registration = none)
    (hgone : world.self.isDeleted = true) :
    (world.record event).Filed outside := by
  have hregistered :
      (world.record event).self.isRegistered = world.self.isRegistered :=
    @Conn.isRegistered_of_history _ _ [event] rfl (by simpa using hevent)
  refine ⟨hfiled.toListed.shrink rfl rfl (List.Sublist.refl _) hregistered id,
    fun _ => ?_⟩
  rw [hregistered]
  exact hfiled.gone hgone

/-- `Finish` by a task. -/
theorem Listed.finish {world : World} {destroy : World → World}
    (hlisted : world.Listed outside) (hdestroy : FiledBy outside destroy) :
    (world.finish destroy true).Listed outside ∧
        (world.finish destroy true).self.stream.tasks =
          world.self.stream.tasks ∨
      (world.finish destroy true).Filed outside ∧
        (world.finish destroy true).self.isDeleted = true := by
  rw [finish_byTask]
  split
  · rcases hdestroy world.closeByTask hlisted.closeByTask rfl with
      hsame | hfiled
    · rw [hsame]
      exact Or.inl ⟨hlisted.closeByTask, rfl⟩
    · exact Or.inr hfiled
  · exact Or.inl ⟨hlisted.closeByTask, rfl⟩

theorem Listed.consumeLoop {destroy : World → World}
    (hdestroy : FiledBy outside destroy) {tasks : List Task} (count : ℤ)
    {world : World} (hlisted : world.Listed outside)
    (htasks : world.self.stream.tasks = tasks) :
    (world.consumeLoop codec destroy tasks count).Filed outside := by
  induction tasks generalizing count world with
  | nil => exact hlisted.filed
  | cons task rest ih =>
      by_cases hcount : count = 0
      · rw [hcount, World.consumeLoop_zero]
        exact hlisted.filed
      have hdequeued := hlisted.dequeue htasks
      rcases task.cases with ⟨request, rfl⟩ | ⟨request, rfl⟩ | hcloses
      · rw [World.consumeLoop_normal hcount]
        exact ih _ (hdequeued.handle request)
          (congrArg SVStream.tasks (handle_stream request _))
      · by_cases hid : request.id = 0
        · rw [World.consumeLoop_refused hcount hid]
          have hrefused :=
            @Listed.refuse codec outside world hlisted request rest htasks hid
          rcases hrefused.finish hdestroy with ⟨hlive, -⟩ | ⟨hfiled, -⟩
          · exact hlive.filed
          · exact hfiled
        · rw [World.consumeLoop_accepted hcount hid]
          exact ih _ (hlisted.accept htasks hid)
            (acceptLogin_tasks codec request (world.dequeue rest))
      · rw [World.consumeLoop_closing hcount hcloses]
        rcases hdequeued.finish hdestroy with ⟨hlive, hrest⟩ | ⟨hfiled, hgone⟩
        · rw [if_neg (by simp [hlive.live])]
          exact ih _ hlive hrest
        · rw [if_pos hgone]
          exact filed_record hfiled rfl hgone

theorem Listed.consumeTask {world : World} {destroy : World → World}
    (hlisted : world.Listed outside) (hdestroy : FiledBy outside destroy)
    (count : ℤ) :
    (world.consumeTask codec destroy count).Filed outside := by
  unfold World.consumeTask
  split
  · rcases hlisted.finish hdestroy with ⟨hlive, -⟩ | ⟨hfiled, -⟩
    · exact hlive.filed
    · exact hfiled
  · exact hlisted.consumeLoop hdestroy count rfl

/-! ## Destroy -/

/-- The end of `Destroy` on a connection with a peer. -/
theorem filed_close {world : World}
    (hlisted : world.self.Listed outside world.reg world.self.self) :
    (world.record .closed).unregister.delete.Filed outside := by
  obtain ⟨hafter, hlcid, hregistered⟩ := listed_unregister hlisted
  have hself : (world.record .closed).unregister.self.self =
      world.self.self := (Frame.unregister (world.record .closed)).self
  have hdeleted :
      (world.record .closed).unregister.delete.self.isRegistered = false :=
    (@Conn.isRegistered_of_history (world.record .closed).unregister.self _
      [.deleted] rfl (by simp [ConnEvent.registration])).trans hregistered
  refine ⟨?_, fun _ => ⟨hlcid, hdeleted⟩⟩
  have hid : (world.record .closed).unregister.delete.self.self =
      world.self.self := hself
  rw [hid]
  refine hafter.shrink rfl rfl ?_ (hdeleted.trans hregistered.symm) id
  exact (congrArg (List.Sublist · _) (SVStream.unref_tasks _)).mpr
    (List.Sublist.refl _)

theorem Listed.destroyWithin {world : World} (hlisted : world.Listed outside)
    (depth : ℕ) :
    world.destroyWithin codec depth = world ∨
      (world.destroyWithin codec depth).Filed outside ∧
        (world.destroyWithin codec depth).self.isDeleted = true := by
  induction depth generalizing world with
  | zero => exact Or.inl rfl
  | succ depth ih =>
      refine Or.inr ⟨?_, delete_isDeleted _⟩
      rw [World.destroyWithin]
      split
      case isTrue =>
        apply filed_close
        have hconsumed := @Listed.consumeTask codec outside world
          (World.destroyWithin codec depth) hlisted
          (fun world hlisted _ => ih hlisted) (-1)
        exact hconsumed.toListed
      case isFalse hpeer =>
        have hearly : world.self.status.early = true := by
          cases hstatus : world.self.status <;>
            simp [hstatus, StreamStatus.hasPeer, StreamStatus.early]
              at hpeer ⊢
        obtain ⟨hlcid, hregistered, -⟩ := hlisted.listed.early hearly
        have hdeleted : world.delete.self.isRegistered = false :=
          (@Conn.isRegistered_of_history world.self _ [.deleted] rfl
            (by simp [ConnEvent.registration])).trans hregistered
        refine ⟨?_, fun _ => ⟨hlcid, hdeleted⟩⟩
        refine hlisted.listed.shrink rfl rfl ?_
          (hdeleted.trans hregistered.symm) id
        exact (congrArg (List.Sublist · _) (SVStream.unref_tasks _)).mpr
          (List.Sublist.refl _)

theorem Listed.destroy {world : World} (hlisted : world.Listed outside) :
    (world.destroy codec).Filed outside := by
  rcases @Listed.destroyWithin codec outside world hlisted 2 with
    hsame | ⟨hfiled, -⟩
  · rw [World.destroy, hsame]
    exact hlisted.filed
  · exact hfiled

/-! ## One completion -/

/-- The record and the registries after a deferral. -/
theorem listed_defer {world : World}
    (hlisted : world.self.Listed outside world.reg world.self.self)
    (hearly : world.self.status.early = true)
    (hseed : world.reg.loginCidSeed + 1 < 2 ^ 64) {after : Conn}
    (hworker : after.worker = world.self.worker)
    (hlcid : after.lcid = world.newLoginCid.self.lcid)
    (htasks : after.stream.tasks = world.self.stream.tasks)
    (hregistered : after.isRegistered = world.self.isRegistered)
    (hstatus : after.status = .waitLogin ∨ after.status = .close) :
    after.Listed outside world.newLoginCid.reg world.self.self := by
  obtain ⟨hfree, hfinishing, hlogins⟩ := hlisted.free hearly
  obtain ⟨hzero, hnot, -⟩ := hlisted.early hearly
  have hnew : after.lcid ≠ 0 := by
    have hsucc : world.newLoginCid.self.lcid = world.reg.loginCidSeed + 1 :=
      Nat.mod_eq_of_lt hseed
    rw [hlcid, hsucc]
    exact Nat.succ_ne_zero _
  have hnone := hlisted.members
  rw [if_neg (by simp [hzero, hnot])] at hnone
  refine ⟨?_, ?_, ?_, ?_, ?_⟩
  · rw [if_pos (Or.inl hnew), hworker]
    simp only [newLoginCid, Registry.onRegister, Function.update_self,
      List.count_append, hnone, List.count_singleton_self]
  · intro hreg
    rw [hregistered, hnot] at hreg
    contradiction
  · intro hagain
    rcases hstatus with hwait | hclose
    · rw [hwait] at hagain
      contradiction
    · rw [hclose] at hagain
      contradiction
  · intro lcid hentry
    have hkey : lcid = after.lcid := by
      by_contra hother
      rw [hlcid] at hother
      have hentry : Function.update world.reg.pmap world.newLoginCid.self.lcid
          (some world.self.self) lcid = some world.self.self := hentry
      rw [Function.update_of_ne hother] at hentry
      exact hfree lcid hentry
    exact ⟨hkey, hkey ▸ hnew⟩
  · unfold Conn.tokens
    rw [hfinishing, htasks, hlogins]
    split <;> simp

/-- `Finish` by `Step` starts an operation. -/
theorem Listed.finish_byStep {world : World} (hlisted : world.Listed outside)
    (destroy : World → World) : (world.finish destroy false).Filed outside :=
  (@Listed.shrink outside world (world.finish destroy false) hlisted rfl rfl
    rfl rfl (List.Sublist.refl _) [] rfl nofun nofun nofun).filed

theorem Listed.recv {world : World} (hlisted : world.Listed outside) :
    world.recv.Listed outside :=
  @Listed.shrink outside world world.recv hlisted rfl rfl rfl rfl
    (List.Sublist.refl _) [] rfl nofun nofun id

/-- A connection that has logged in at once is registered and reads. -/
theorem Listed.registered {world : World} (hlisted : world.Listed outside)
    (hearly : world.self.status.early = true) (cid : ℕ) :
    Listed outside { world.register cid with self.status := .read }.recv := by
  obtain ⟨-, hfinishing, hlogins⟩ := hlisted.listed.free hearly
  have hregister := register_self cid world
  constructor
  · exact (register_isDeleted cid world).trans hlisted.live
  · have hid : (world.register cid).self.self = world.self.self :=
      (Frame.register cid world).self
    refine hid.symm ▸ @listed_register outside world cid hlisted.listed
      (hlisted.listed.early hearly).2.1 hfinishing hlogins _
      (Frame.register cid world).worker ?_ ?_ rfl ?_
    · exact congrArg Conn.lcid hregister
    · exact congrArg (fun conn => conn.stream.tasks) hregister
    · exact congrArg Conn.history hregister

/-- The LOGIN branch of `Step`, after the login. -/
theorem Listed.login {world : World} {acceptor : AcceptorResult}
    (hlisted : world.Listed outside) (hstatus : world.self.status = .login)
    (honce : DefersOnce acceptor world.reg) :
    Filed outside
      (if (world.login codec acceptor).2.self.status = .close ∨
          (world.login codec acceptor).2.dying = true then
        (world.login codec acceptor).2.finish (World.destroy codec) false
      else if (world.login codec acceptor).2.self.status = .waitLogin then
        (world.login codec acceptor).2
      else
        { (world.login codec acceptor).2.register
            (world.login codec acceptor).1 with
          self.status := .read }.recv) := by
  have hearly : world.self.status.early = true := by
    rw [hstatus]
    rfl
  have hself := (@Frame.login codec acceptor world).self
  obtain ⟨stream, events, htasks, hevents, hcases⟩ :=
    @login_cases codec acceptor world honce
  have hnone : ∀ event ∈ events, event.registration = none :=
    fun event hevent => (hevents event hevent).registration
  have hdeleted : .deleted ∉ events := fun hmem => hevents _ hmem
  generalize world.login codec acceptor = result at hself hcases ⊢
  obtain ⟨cid, after⟩ := result
  dsimp only at hself hcases ⊢
  rcases hcases with ⟨hreg, hafter, hopen⟩ | ⟨hreg, hafter, hopen, hseed⟩
  · have hlive : after.Listed outside := by
      refine @Listed.shrink outside world after hlisted hreg hself ?_ ?_ ?_
        events ?_ hnone hdeleted fun _ => hearly
      · rw [hafter]
      · rw [hafter]
      · rw [hafter]
        dsimp only
        rw [htasks]
      · rw [hafter]
    split
    · exact hlive.finish_byStep _
    case isFalse hgo =>
      rw [hstatus] at hopen
      have hlogin := hopen.resolve_right fun hclose => hgo (Or.inl hclose)
      have hearly : after.self.status.early = true := by
        rw [hlogin]
        rfl
      rw [if_neg (by simp [hlogin])]
      exact (hlive.registered hearly cid).filed
  · have hlive : after.Listed outside := by
      constructor
      · apply isDeleted_of_subset hlisted.live
        rw [hafter]
        exact fun hmem => (List.mem_append.mp hmem).resolve_left hdeleted
      · rw [hreg, hself]
        apply listed_defer hlisted.listed hearly hseed
        · rw [hafter]
        · rw [hafter]
        · rw [hafter]
          exact htasks
        · rw [hafter]
          exact Conn.isRegistered_of_history rfl hnone
        · exact hopen
    split
    · exact hlive.finish_byStep _
    case isFalse hgo =>
      rw [if_pos (hopen.resolve_right fun hclose => hgo (Or.inl hclose))]
      exact hlive.filed

theorem Listed.step {world : World} {acceptor : AcceptorResult}
    (hlisted : world.Listed outside)
    (honce : world.self.status = .login → world.self.req.kind ≠ .close →
      DefersOnce acceptor world.reg) :
    (world.step codec acceptor).Filed outside := by
  have hadvance : world.self.status.early = true → ∀ status : StreamStatus,
      Filed outside { world with self.status := status }.startOperation := by
    intro hearly status
    exact (@Listed.shrink outside world
      { world with self.status := status }.startOperation hlisted rfl rfl rfl
      rfl (List.Sublist.refl _) [] rfl nofun nofun fun _ => hearly).filed
  have hfinish := hlisted.finish_byStep (World.destroy codec)
  unfold World.step
  cases hstatus : world.self.status with
  | init => exact hadvance (by rw [hstatus]; rfl) .accept
  | accept => exact hadvance (by rw [hstatus]; rfl) .login
  | login =>
      by_cases hkind : world.self.req.kind = .close
      · simp only [hkind, if_true]
        exact hfinish
      · simp only [hkind, if_false]
        exact hlisted.login hstatus (honce hstatus hkind)
  | read =>
      by_cases hkind : world.self.req.kind = .close
      · simp only [hkind, if_true]
        exact hfinish
      simp only [hkind, if_false]
      have hhandled := hlisted.handle world.self.req
      split
      · exact hhandled.recv.filed
      · exact hhandled.finish_byStep _
  | close => exact hlisted.destroy
  | waitLogin => exact hfinish
  | write => exact hfinish

theorem Listed.process {world : World} {ok : Bool} {request : Request}
    {acceptor : AcceptorResult} (hlisted : world.Listed outside)
    (honce : ok = true → world.self.status = .login → request.kind ≠ .close →
      DefersOnce acceptor world.reg) :
    (world.process codec ok request acceptor).Filed outside := by
  have hpopped : ∀ req, Listed outside
      { world with
        self.pending := world.self.pending - 1
        self.req := req } := fun req =>
    @Listed.shrink outside world _ hlisted rfl rfl rfl rfl
      (List.Sublist.refl _) [] rfl nofun nofun id
  unfold World.process
  cases ok with
  | false =>
      rw [if_neg Bool.false_ne_true]
      exact (hpopped world.self.req).destroy
  | true =>
      rw [if_pos rfl]
      dsimp only
      split
      case isTrue haccept =>
        refine (hpopped world.self.req).step fun hlogin _ => ?_
        have hlogin : world.self.status = .login := hlogin
        rw [haccept] at hlogin
        contradiction
      case isFalse => exact (hpopped request).step (honce rfl)

end World

/-! ## The server -/

namespace Server

/-- The registries of a server fit its connections. -/
structure Consistent (server : Server) : Prop where
  pmap : ∀ lcid conn, server.reg.pmap lcid = some conn →
    ∃ self, server.conns conn = some self ∧ self.isDeleted = false ∧
      self.lcid = lcid
  member : ∀ conn self, server.conns conn = some self →
    self.isDeleted = false ∧ self.lcid ≠ 0 ∨ self.isRegistered = true →
      (server.reg.connections self.worker).count conn = 1
  nodup : ∀ worker, (server.reg.connections worker).Nodup
  gone : ∀ conn self, server.conns conn = some self → self.isDeleted = true →
    (∀ lcid, server.reg.pmap lcid ≠ some conn) ∧
      ∀ worker, conn ∉ server.reg.connections worker

/-- The invariant of every connection. -/
def Filed (server : Server) : Prop :=
  server.EachConn fun reg conn self => self.Filed server.outside reg conn

/-- The condition on one action: no completion reaches a deleted connection,
and the acceptor defers a login once at most and draws an lcid that is not
0. -/
def Admissible (server : Server) : Action → Prop
  | .complete conn ok request acceptor _ =>
      ∀ self ∈ server.conns conn, self.isDeleted = false ∧
        (ok = true → self.status = .login → request.kind ≠ .close →
          World.DefersOnce acceptor server.reg)
  | _ => True

instance (server : Server) : ∀ action, Decidable (server.Admissible action)
  | .complete conn ok request acceptor _ =>
      inferInstanceAs (Decidable (∀ self ∈ server.conns conn,
        self.isDeleted = false ∧
          (ok = true → self.status = .login → request.kind ≠ .close →
            World.DefersOnce acceptor server.reg)))
  | .launch _ | .consume .. | .shutdown .. | .prepareShutdown _
  | .finishLogin .. | .postLogin .. | .getStream _ | .closeStream _
  | .addTask .. | .send .. | .writeDone .. | .closerDone .. => isTrue trivial

variable {codec : Codec} {server next : Server}

/-! ### What the invariant says of the server -/

theorem Filed.live_of_member {outside : Outside} {reg : Registry}
    {conn : ConnId} {self : Conn} (hfiled : self.Filed outside reg conn)
    (hmember : conn ∈ reg.connections self.worker) :
    self.isDeleted = false := by
  cases hgone : self.isDeleted with
  | false => rfl
  | true =>
      obtain ⟨hlcid, hregistered⟩ := hfiled.gone hgone
      have hnone := hfiled.members
      rw [if_neg (by simp [hlcid, hregistered])] at hnone
      exact absurd hmember (List.count_eq_zero.mp hnone)

theorem Filed.consistent (hfiled : server.Filed) (hwf : WellFormed server)
    (hmade : server.Made) : server.Consistent where
  pmap lcid conn hentry := by
    obtain ⟨self, hconn⟩ :=
      Option.ne_none_iff_exists'.mp (hmade conn (hwf.pmap lcid conn hentry))
    have hself := hfiled conn self hconn
    obtain ⟨hlcid, hnonzero⟩ := hself.pmap lcid hentry
    refine ⟨self, hconn, ?_, hlcid.symm⟩
    cases hgone : self.isDeleted with
    | false => rfl
    | true => exact absurd (hlcid.trans (hself.gone hgone).1) hnonzero
  member conn self hconn hlisted := by
    have hmembers := (hfiled conn self hconn).members
    rwa [if_pos (hlisted.imp_left And.right)] at hmembers
  nodup worker := by
    rw [List.nodup_iff_count_le_one]
    intro conn
    by_cases hmember : conn ∈ server.reg.connections worker
    · obtain ⟨self, hconn, rfl⟩ := hwf.member worker conn hmember
      exact (hfiled conn self hconn).count_le_one
    · rw [List.count_eq_zero.mpr hmember]
      exact Nat.zero_le 1
  gone conn self hconn hgone := by
    have hself := hfiled conn self hconn
    constructor
    · intro lcid hentry
      obtain ⟨hlcid, hnonzero⟩ := hself.pmap lcid hentry
      exact hnonzero (hlcid.trans (hself.gone hgone).1)
    · intro worker hmember
      obtain ⟨state, hstate, rfl⟩ := hwf.member worker conn hmember
      obtain rfl := Option.some.inj (hconn.symm.trans hstate)
      have hlive := Filed.live_of_member hself hmember
      rw [hgone] at hlive
      contradiction

/-! ### The workers -/

theorem filed_stable (outside : Outside) :
    Stable fun reg conn self => self.Filed outside reg conn := by
  intro before after hframe conn self hother hfiled
  have hpmap : ∀ lcid, after.reg.pmap lcid = some conn →
      before.reg.pmap lcid = some conn := fun lcid hentry =>
    (hframe.pmap lcid conn hentry).resolve_right hother
  refine ⟨hfiled.toListed.mono (hframe.members _ _ hother) rfl rfl id hpmap ?_,
    hfiled.gone⟩
  have hentry := hpmap self.lcid
  unfold Conn.tokens
  split
  case isTrue hnew => simp [hentry hnew]
  case isFalse => split <;> omega

theorem filed_runConn (hwf : WellFormed server) (hfiled : server.Filed)
    (conn : ConnId) (results : List HandlerResult) {method : World → World}
    (hframe : ∀ world, Frame world (method world))
    (hkept : ∀ self, server.conns conn = some self →
      World.Filed server.outside ⟨self, server.reg, results⟩ →
        (method ⟨self, server.reg, results⟩).Filed server.outside) :
    (server.runConn conn results method).Filed := by
  have hsame : (server.runConn conn results method).outside =
      server.outside := by
    unfold runConn
    split <;> rfl
  unfold Filed
  rw [hsame]
  apply EachConn.runConn hwf (filed_stable _) hfiled conn results hframe
  intro self hconn hself
  obtain rfl := (hwf.known conn self hconn).1
  have hafter := hkept self hconn hself
  rwa [World.Filed, (hframe _).self] at hafter

theorem filed_newConn (hwf : WellFormed server) (hfiled : server.Filed)
    (worker : WorkerId) : (server.newConn codec worker).Filed := by
  apply EachConn.newConn hfiled
  have htokens := hwf.tokens_waiter worker
  refine ⟨⟨?_, nofun, fun _ => ⟨rfl, rfl, htokens⟩, ?_, ?_⟩, nofun⟩
  · exact List.count_eq_zero.mpr (hwf.fresh_member worker)
  · exact fun lcid hentry => absurd hentry (hwf.fresh_pmap lcid)
  · rw [htokens]
    exact Nat.zero_le 1

theorem filed_complete (hwf : WellFormed server) (hfiled : server.Filed)
    {conn : ConnId} {self : Conn} (hconn : server.conns conn = some self)
    {ok : Bool} {request : Request} {acceptor : AcceptorResult}
    {results : List HandlerResult}
    (hadmissible : server.Admissible
      (.complete conn ok request acceptor results)) :
    (server.complete codec conn ok request acceptor results).Filed := by
  obtain ⟨hlive, honce⟩ := hadmissible self hconn
  by_cases haccept : ok = true ∧ self.status = .accept
  · have hcomplete : server.complete codec conn ok request acceptor results =
        (server.newConn codec self.worker).runConn conn results
          (World.process codec ok request acceptor) := by
      simp only [complete, hconn]
      rw [if_pos haccept]
    rw [hcomplete]
    apply filed_runConn (hwf.newConn _) (filed_newConn hwf hfiled _) _ _
      (Frame.process ok request acceptor)
    intro state hstate hworld
    have hold : state = self := by
      rw [newConn_eq] at hstate
      dsimp only at hstate
      rw [Function.update_of_ne, hconn] at hstate
      · exact (Option.some.inj hstate).symm
      · exact Nat.ne_of_lt (hwf.known conn self hconn).2
    subst hold
    exact World.Listed.process ⟨hlive, hworld.toListed⟩ honce
  · rw [complete_of_not_accept hconn haccept]
    apply filed_runConn hwf hfiled _ _ (Frame.process ok request acceptor)
    intro state hstate hworld
    obtain rfl := Option.some.inj (hconn.symm.trans hstate)
    exact World.Listed.process ⟨hlive, hworld.toListed⟩ honce

theorem filed_consume (hwf : WellFormed server) (hfiled : server.Filed)
    {conn : ConnId} {self : Conn} (hconn : server.conns conn = some self)
    (hmember : conn ∈ server.reg.connections self.worker)
    (results : List HandlerResult) :
    (server.runConn conn results
      (World.consumeTask codec (World.destroy codec) 3)).Filed := by
  apply filed_runConn hwf hfiled
  · exact Frame.kept.consumeTask Frame.kept.destroyKept 3
  · intro state hstate hworld
    obtain rfl := Option.some.inj (hconn.symm.trans hstate)
    have hlive := Filed.live_of_member (hfiled conn self hconn) hmember
    exact World.Listed.consumeTask ⟨hlive, hworld.toListed⟩
      (fun world hlisted _ => hlisted.destroyWithin 2) 3

theorem filed_shutdownLoop (hwf : WellFormed server) (hfiled : server.Filed)
    (worker : WorkerId) (results : ℕ → List HandlerResult)
    (fuel index : ℕ) :
    (server.shutdownLoop codec worker results fuel index).Filed := by
  induction fuel generalizing index server with
  | zero => exact hfiled
  | succ fuel ih =>
      unfold Server.shutdownLoop
      split
      · exact hfiled
      case h_2 conn hvisited =>
        apply ih (hwf.runConn _ _ Frame.kept.destroy)
        apply filed_runConn hwf hfiled _ _ Frame.kept.destroy
        intro self hconn hworld
        obtain ⟨state, hstate, rfl⟩ :=
          hwf.member worker conn (List.mem_of_getElem? hvisited)
        obtain rfl := Option.some.inj (hconn.symm.trans hstate)
        have hlive := Filed.live_of_member (hfiled conn self hconn)
          (List.mem_of_getElem? hvisited)
        exact World.Listed.destroy ⟨hlive, hworld.toListed⟩

/-! ### The other threads -/

/-- A thread changes the stream of a connection. -/
theorem filed_change {outside outside' : Outside} {reg reg' : Registry}
    {conn : ConnId} {self : Conn} (hfiled : self.Filed outside reg conn)
    {stream : SVStream} (hconnections : reg'.connections = reg.connections)
    (hpmap : ∀ lcid, reg'.pmap lcid = some conn → reg.pmap lcid = some conn)
    (htokens : { self with stream := stream }.tokens outside' reg' conn ≤
      self.tokens outside reg conn) :
    { self with stream := stream }.Filed outside' reg' conn where
  toListed := by
    refine hfiled.toListed.mono ?_ rfl rfl id hpmap htokens
    rw [hconnections]
  gone := hfiled.gone

/-- A thread puts no Login task on the queue. -/
theorem filed_onStream (hfiled : server.Filed) (conn : ConnId)
    {change : SVStream → SVStream}
    (htasks : ∀ stream, (change stream).tasks.countP Task.isLogin =
      stream.tasks.countP Task.isLogin) :
    (server.onStream conn change).Filed := by
  have hsame : (server.onStream conn change).outside = server.outside := by
    simp [outside]
  unfold Filed
  rw [hsame]
  apply EachConn.onStream hfiled
  intro self hconn hself
  apply filed_change hself rfl (fun _ => id)
  unfold Conn.tokens
  rw [htasks]

theorem filed_finishLogin (hfiled : server.Filed) {lcid cid msgid : ℕ}
    {data : Bytes}
    (hstep : server.step codec (.finishLogin lcid cid msgid data) =
      some next) : next.Filed := by
  rcases step_finishLogin hstep with ⟨-, rfl⟩ | ⟨conn, hentry, rfl⟩
  · exact hfiled
  intro other self hother
  have hself := hfiled other self hother
  apply filed_change hself
  · rfl
  · exact fun key => pmap_of_finishLogin
  · apply tokens_finishLogin hentry
    rintro rfl
    exact (hself.pmap lcid hentry).1

theorem filed_postLogin (hfiled : server.Filed) {conn : ConnId}
    {request : SystemPayload.Login}
    (hstep : server.step codec (.postLogin conn request) = some next) :
    next.Filed := by
  obtain ⟨hmem, rfl⟩ := step_postLogin hstep
  intro other self hother
  rw [onStream_reg, outside, onStream_finishing, onStream_handles]
  obtain ⟨old, hold, ⟨rfl, rfl⟩ | ⟨hne, rfl⟩⟩ := onStream_conns hother
  · apply filed_change (hfiled other old hold) rfl (fun _ => id)
    apply tokens_postLogin hmem
    simp [SVStream.enqueue, Task.isLogin]
  · apply filed_change (hfiled other old hold)
    · rfl
    · exact fun _ => id
    · apply tokens_postLogin hmem
      rw [if_neg hne.symm, Nat.add_zero]

theorem filed_getStream (hfiled : server.Filed) {cid : ℕ}
    (hstep : server.step codec (.getStream cid) = some next) :
    next.Filed := by
  rcases step_getStream hstep with ⟨-, rfl⟩ | ⟨conn, -, rfl⟩
  · exact hfiled
  apply filed_onStream
  · intro other self hother
    apply filed_change (hfiled other self hother)
    · rfl
    · exact fun _ => id
    · exact Nat.le_refl _
  · exact fun _ => rfl

theorem filed_step {action : Action} (hwf : WellFormed server)
    (hfiled : server.Filed) (hstep : server.step codec action = some next)
    (hadmissible : server.Admissible action) : next.Filed := by
  have henqueue : ∀ task : Task, task.isLogin = false →
      ∀ stream : SVStream, (stream.enqueue task).tasks.countP Task.isLogin =
        stream.tasks.countP Task.isLogin := by
    intro task hlogin stream
    simp [SVStream.enqueue, hlogin]
  cases action with
  | launch worker =>
      obtain rfl := Option.some.inj hstep
      exact filed_newConn hwf hfiled worker
  | complete conn ok request acceptor results =>
      obtain ⟨self, hconn, -, rfl⟩ := step_complete hstep
      exact filed_complete hwf hfiled hconn hadmissible
  | consume conn results =>
      obtain ⟨self, hconn, hmember, rfl⟩ := step_consume hstep
      exact filed_consume hwf hfiled hconn hmember results
  | shutdown worker results =>
      obtain ⟨-, -, rfl⟩ := step_shutdown hstep
      exact filed_shutdownLoop hwf hfiled worker results _ 0
  | prepareShutdown worker =>
      obtain rfl := Option.some.inj hstep
      exact fun conn self hconn => filed_change (hfiled conn self hconn) rfl
        (fun _ => id) (Nat.le_refl _)
  | finishLogin lcid cid msgid data => exact filed_finishLogin hfiled hstep
  | postLogin conn request => exact filed_postLogin hfiled hstep
  | getStream cid => exact filed_getStream hfiled hstep
  | closeStream conn =>
      obtain ⟨-, rfl⟩ := step_closeStream hstep
      exact filed_onStream hfiled conn (henqueue .close rfl)
  | addTask conn request =>
      obtain rfl := Option.some.inj hstep
      exact filed_onStream hfiled conn (henqueue (.normal request) rfl)
  | send conn reply =>
      obtain rfl := Option.some.inj hstep
      exact filed_onStream hfiled conn fun stream => by
        rw [stream.send_tasks reply]
  | writeDone conn ok =>
      obtain rfl := step_writeDone hstep
      exact filed_onStream hfiled conn fun stream => by
        rw [stream.writeDone_tasks ok]
  | closerDone conn ok =>
      obtain rfl := step_closerDone hstep
      exact filed_onStream hfiled conn fun stream => by
        rw [stream.closerDone_tasks]

/-- The registries fit the connections after every run in which no completion
reaches a deleted connection and every deferral draws an lcid of its own. -/
theorem registries_consistent (codec : Codec) {actions : List Action}
    {final : Server}
    (hadmissible : AllSteps (step codec)
      (fun server action _ => server.Admissible action) init actions)
    (hrun : exec (step codec) init actions = some final) :
    final.Consistent := by
  have hstep : ∀ server action next,
      (WellFormed server ∧ server.Made) ∧ server.Filed →
        server.step codec action = some next → server.Admissible action →
          (WellFormed next ∧ next.Made) ∧ next.Filed := by
    rintro server action next ⟨⟨hwf, hmade⟩, hfiled⟩ hstep hadmissible
    exact ⟨⟨wellFormed_step hwf hstep, made_step hmade hstep⟩,
      filed_step hwf hfiled hstep hadmissible⟩
  have hinit : (WellFormed init ∧ init.Made) ∧ init.Filed := by
    refine ⟨⟨wellFormed_init, ?_⟩, ?_⟩
    · exact fun conn hconn => absurd hconn (Nat.not_lt_zero conn)
    · intro conn self hconn
      simp [init] at hconn
  obtain ⟨⟨hwf, hmade⟩, hfiled⟩ :=
    exec_invariant_of_allSteps hstep hinit hadmissible hrun
  exact hfiled.consistent hwf hmade

/-- A deferred login is accepted: the connection is off `pmap_` and once on
its list. -/
theorem registries_consistent_deferring :
    ∃ final, exec (step Codec.small) init (deferring ++ [.consume 0 []]) =
        some final ∧ final.Consistent := by
  have hadmissible : AllSteps (step Codec.small)
      (fun server action _ => server.Admissible action) init
      (deferring ++ [.consume 0 []]) := by decide
  exact ⟨_, rfl, registries_consistent Codec.small hadmissible rfl⟩

/-! ### The seed comes round

After 2 ^ 64 deferrals `login_cid_seed_` is 0 again.  The connection that draws
it is on the list of its worker, and registering does not take it off.
-/

/-- No completion reaches a deleted connection. -/
def DeliversLive (server : Server) : Action → Prop
  | .complete conn _ _ _ _ => ∀ self ∈ server.conns conn, self.isDeleted = false
  | _ => True

private def plain : Request :=
  { type := 0, msgid := 0, kind := .normal, payload := [] }

private def nobody : AcceptorResult := { cid := 0, calls := [], slice := [] }

private def defers : AcceptorResult :=
  { cid := 0, calls := [.deferLogin], slice := [] }

/-- The next client connects and its login is deferred. -/
private def deferral (conn : ConnId) : List Action :=
  [.complete conn true plain nobody [], .complete conn true plain defers []]

private def arriving (conn : ConnId) : Conn :=
  { waiter conn 0 with status := .login }

private def deferred (conn : ConnId) (lcid : ℕ) : Conn :=
  { waiter conn 0 with
    status := .waitLogin
    lcid := lcid
    pending := 0
    history := [.loginReturned 0] }

private theorem process_deferred (conn : ConnId) {reg : Registry}
    (hdying : reg.dying 0 = false) :
    World.process Codec.small true plain defers ⟨arriving conn, reg, []⟩ =
      ⟨deferred conn ((reg.loginCidSeed + 1) % 2 ^ 64),
        (World.newLoginCid ⟨arriving conn, reg, []⟩).reg, []⟩ := by
  have hopen : ¬(StreamStatus.waitLogin = .close ∨ reg.dying 0 = true) := by
    rw [hdying]
    simp
  exact if_neg hopen

/-- A server that has deferred the login of every client so far. -/
private structure Deferring (count : ℕ) (server : Server) : Prop where
  next : server.next = count + 1
  latest : server.conns count = some (waiter count 0)
  dying : server.reg.dying 0 = false
  seed : server.reg.loginCidSeed = count % 2 ^ 64

private theorem Deferring.again {count : ℕ} {server : Server}
    (hdeferring : Deferring count server) :
    ∃ next, exec (step Codec.small) server (deferral count) = some next ∧
      AllSteps (step Codec.small)
        (fun server action _ => server.DeliversLive action) server
        (deferral count) ∧
      Deferring (count + 1) next ∧
      next.conns count = some (deferred count ((count + 1) % 2 ^ 64)) ∧
      next.reg.pmap ((count + 1) % 2 ^ 64) = some count ∧
      count ∈ next.reg.connections 0 := by
  have hother : count ≠ server.next := by
    rw [hdeferring.next]
    exact Nat.ne_of_lt (Nat.lt_succ_self count)
  have hwaiter : (server.newConn Codec.small 0).conns count =
      some (waiter count 0) :=
    (Function.update_of_ne hother _ _).trans hdeferring.latest
  have hconnect : server.step Codec.small
      (.complete count true plain nobody []) = some
        { server.newConn Codec.small 0 with
          conns := Function.update (server.newConn Codec.small 0).conns count
            (some (arriving count)) } := by
    have hpending : (waiter count 0).pending ≠ 0 := Nat.one_ne_zero
    simp only [step, hdeferring.latest, complete]
    rw [if_neg hpending, if_pos ⟨trivial, rfl⟩]
    exact congrArg some (runConn_of_some hwaiter [] _)
  generalize hmiddle : { server.newConn Codec.small 0 with
    conns := Function.update (server.newConn Codec.small 0).conns count
      (some (arriving count)) } = middle at hconnect
  have harriving : middle.conns count = some (arriving count) := by
    rw [← hmiddle]
    exact Function.update_self _ _ _
  have hreg : middle.reg = server.reg := by rw [← hmiddle, newConn_eq]
  have hdying : middle.reg.dying 0 = false := by
    rw [hreg]
    exact hdeferring.dying
  have hseed : (middle.reg.loginCidSeed + 1) % 2 ^ 64 =
      (count + 1) % 2 ^ 64 := by
    rw [hreg, hdeferring.seed, Nat.mod_add_mod]
  have hdefer : middle.step Codec.small
      (.complete count true plain defers []) = some
        { middle with
          conns := Function.update middle.conns count
            (some (deferred count ((count + 1) % 2 ^ 64)))
          reg := (World.newLoginCid
            ⟨arriving count, middle.reg, []⟩).reg } := by
    have hpending : (arriving count).pending ≠ 0 := Nat.one_ne_zero
    simp only [step, harriving]
    rw [if_neg hpending, complete_of_not_accept harriving (by simp [arriving]),
      runConn_of_some harriving, process_deferred count hdying, hseed]
  have hrun : exec (step Codec.small) server (deferral count) = some
      { middle with
        conns := Function.update middle.conns count
          (some (deferred count ((count + 1) % 2 ^ 64)))
        reg := (World.newLoginCid
          ⟨arriving count, middle.reg, []⟩).reg } := by
    rw [deferral, exec, hconnect]
    dsimp only
    rw [exec, hdefer]
    rfl
  have hnext : count + 1 ≠ count := Nat.succ_ne_self count
  have hlive : AllSteps (step Codec.small)
      (fun server action _ => server.DeliversLive action) server
      (deferral count) := by
    rw [deferral, allSteps_cons_of_step hconnect, allSteps_cons_of_step hdefer]
    refine ⟨?_, ?_, trivial⟩
    · intro self hself
      obtain rfl := Option.some.inj (hdeferring.latest.symm.trans hself)
      rfl
    · intro self hself
      obtain rfl := Option.some.inj (harriving.symm.trans hself)
      rfl
  refine ⟨_, hrun, hlive, ⟨?_, ?_, hdying, hseed⟩, ?_, ?_, ?_⟩
  · rw [← hmiddle, newConn_eq, hdeferring.next]
  · dsimp only
    rw [Function.update_of_ne hnext, ← hmiddle]
    dsimp only
    rw [Function.update_of_ne hnext, newConn_eq, hdeferring.next]
    exact Function.update_self _ _ _
  · exact Function.update_self _ _ _
  · rw [← hseed]
    exact Function.update_self _ _ _
  · simp [World.newLoginCid, Registry.onRegister, arriving, waiter, Conn.new]

private theorem exists_deferring (count : ℕ) :
    ∃ server, exec (step Codec.small) init
        (.launch 0 :: (List.range count).flatMap deferral) = some server ∧
      AllSteps (step Codec.small)
        (fun server action _ => server.DeliversLive action) init
        (.launch 0 :: (List.range count).flatMap deferral) ∧
      Deferring count server := by
  induction count with
  | zero =>
      exact ⟨_, rfl, ⟨trivial, trivial⟩, rfl, rfl, rfl, rfl⟩
  | succ count ih =>
      obtain ⟨server, hrun, hlive, hdeferring⟩ := ih
      obtain ⟨next, hnext, hlive', hdeferring', -⟩ := hdeferring.again
      rw [List.range_succ, List.flatMap_append, List.flatMap_singleton,
        ← List.cons_append]
      exact ⟨next, exec_append_eq_some.mpr ⟨server, hrun, hnext⟩,
        (allSteps_append hrun).mpr ⟨hlive, hlive'⟩, hdeferring'⟩

private theorem defersOnce_deferral (conn : ConnId) :
    ∀ action ∈ deferral conn, action.DefersOnce := by
  simp [deferral, Action.DefersOnce, nobody, defers]

private def loginAccepted : SystemPayload.Login :=
  { loginCid := 0, id := 7, msgid := 1, payload := [] }

/-- The last login deferred is accepted. -/
private def acceptance (conn : ConnId) : List Action :=
  [.finishLogin 0 7 1 [], .postLogin conn loginAccepted, .consume conn []]

private def answeredBy (conn : ConnId) : Conn :=
  { deferred conn 0 with
    stream := (deferred conn 0).stream.enqueue
      (.login (some loginAccepted)) }

private theorem consumeTask_answeredBy (conn : ConnId) {reg : Registry}
    (hdying : reg.dying 0 = false) :
    (World.consumeTask Codec.small (World.destroy Codec.small) 3
      ⟨answeredBy conn, reg, []⟩).reg =
        (reg.register 7 conn).onRegister 0 conn := by
  have hopen : World.dying ⟨answeredBy conn, reg, []⟩ = false := hdying
  rw [World.consumeTask_of_not_dying hopen]
  rfl

private theorem acceptance_doubles {conn : ConnId} {server : Server}
    (hconn : server.conns conn = some (deferred conn 0))
    (hentry : server.reg.pmap 0 = some conn)
    (hmember : conn ∈ server.reg.connections 0)
    (hdying : server.reg.dying 0 = false) :
    ∃ final, exec (step Codec.small) server (acceptance conn) =
        some final ∧
      AllSteps (step Codec.small)
        (fun server action _ => server.DeliversLive action) server
        (acceptance conn) ∧
      ¬(final.reg.connections 0).Nodup := by
  have hfinish : server.step Codec.small (.finishLogin 0 7 1 []) = some
      { server with
        reg := { server.reg with
          pmap := Function.update server.reg.pmap 0 none }
        finishing := server.finishing ++ [(conn, loginAccepted)] } := by
    rw [step, hentry]
    rfl
  generalize hfirst : ({ server with
    reg := { server.reg with
      pmap := Function.update server.reg.pmap 0 none }
    finishing := server.finishing ++ [(conn, loginAccepted)] } : Server) =
      first at hfinish
  have hconnFirst : first.conns conn = some (deferred conn 0) := by
    rw [← hfirst]
    exact hconn
  have hpost : first.step Codec.small (.postLogin conn loginAccepted) = some
      { first with
        conns := Function.update first.conns conn (some (answeredBy conn))
        finishing := first.finishing.erase (conn, loginAccepted) } := by
    rw [step, if_pos (by simp [← hfirst])]
    exact congrArg some (@onStream_of_some { first with
      finishing := first.finishing.erase (conn, loginAccepted) } conn _
      hconnFirst _)
  generalize hsecond : ({ first with
    conns := Function.update first.conns conn (some (answeredBy conn))
    finishing := first.finishing.erase (conn, loginAccepted) } : Server) =
      second at hpost
  have hconnSecond : second.conns conn = some (answeredBy conn) := by
    rw [← hsecond]
    exact Function.update_self _ _ _
  have hregSecond : second.reg.connections = server.reg.connections ∧
      second.reg.dying = server.reg.dying := by
    rw [← hsecond, ← hfirst]
    exact ⟨rfl, rfl⟩
  have hconsume : second.step Codec.small (.consume conn []) = some
      (second.runConn conn []
        (World.consumeTask Codec.small (World.destroy Codec.small) 3)) := by
    simp only [step, hconnSecond]
    rw [if_pos (by rw [hregSecond.1]; exact hmember)]
  have hrun : exec (step Codec.small) server (acceptance conn) = some
      (second.runConn conn []
        (World.consumeTask Codec.small (World.destroy Codec.small) 3)) := by
    rw [acceptance, exec, hfinish]
    dsimp only
    rw [exec, hpost]
    dsimp only
    rw [exec, hconsume]
    rfl
  refine ⟨_, hrun, ?_, ?_⟩
  · rw [acceptance, allSteps_cons_of_step hfinish, allSteps_cons_of_step hpost,
      allSteps_cons_of_step hconsume]
    exact ⟨trivial, trivial, trivial, trivial⟩
  · rw [runConn_of_some hconnSecond, consumeTask_answeredBy conn
      (by rw [hregSecond.2]; exact hdying)]
    simp only [Registry.onRegister, Registry.register, Function.update_self,
      hregSecond.1]
    intro hnodup
    exact (List.nodup_append.mp hnodup).2.2 conn hmember conn
      List.mem_cons_self rfl

/-- The connection that draws the lcid 0 is on the list of its worker twice
once its login is accepted. -/
theorem registries_consistent_fails :
    ¬∀ actions final, (∀ action ∈ actions, action.DefersOnce) →
      AllSteps (step Codec.small)
        (fun server action _ => server.DeliversLive action) init actions →
      exec (step Codec.small) init actions = some final →
        final.Consistent := by
  intro hconsistent
  obtain ⟨count, hcount⟩ : ∃ count, count + 1 = 2 ^ 64 :=
    Nat.exists_add_one_eq.mpr (Nat.two_pow_pos 64)
  obtain ⟨server, hrun, hlive, hdeferring⟩ := exists_deferring count
  obtain ⟨next, hnext, hlive', hdeferring', hconn, hentry, hmember⟩ :=
    hdeferring.again
  rw [hcount, Nat.mod_self] at hconn hentry
  obtain ⟨final, hfinal, hlive'', hdouble⟩ :=
    acceptance_doubles hconn hentry hmember hdeferring'.dying
  have hexec := exec_append_eq_some.mpr
    ⟨server, hrun, exec_append_eq_some.mpr ⟨next, hnext, hfinal⟩⟩
  have hall := (allSteps_append hrun).mpr
    ⟨hlive, (allSteps_append hnext).mpr ⟨hlive', hlive''⟩⟩
  refine hdouble ((hconsistent _ final ?_ hall hexec).nodup 0)
  intro action haction
  simp only [List.mem_append, List.mem_cons, List.mem_flatMap] at haction
  rcases haction with (rfl | ⟨conn, -, hmem⟩) | hmem | hmem
  · trivial
  · exact defersOnce_deferral conn action hmem
  · exact defersOnce_deferral count action hmem
  · simp only [acceptance, List.mem_cons, List.not_mem_nil] at hmem
    rcases hmem with rfl | rfl | rfl | hnone
    · trivial
    · trivial
    · trivial
    · contradiction

end Server

end GrpcMtk
