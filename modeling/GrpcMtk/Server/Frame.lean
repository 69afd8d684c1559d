import GrpcMtk.Server.Conn

/-!
# What a method leaves alone

A method of a connection edits the registries only at entries of its own
connection: entries of other connections stay or are overwritten, and the
member lists keep every other connection as often as before.
-/

namespace GrpcMtk

open GrpcMtk.Proto

/-! ## What `Unregister` does to the registries -/

namespace Registry

variable (reg : Registry) (cid : ℕ) (conn : ConnId)

theorem unregister_cmap : (reg.unregister cid conn).cmap =
    if reg.cmap cid = some conn then Function.update reg.cmap cid none
    else reg.cmap :=
  apply_ite Registry.cmap _ _ _

theorem unregister_pmap : (reg.unregister cid conn).pmap = reg.pmap := by
  rw [unregister, apply_ite Registry.pmap, ite_self]

theorem unregister_loginCidSeed :
    (reg.unregister cid conn).loginCidSeed = reg.loginCidSeed := by
  rw [unregister, apply_ite Registry.loginCidSeed, ite_self]

theorem unregister_connections :
    (reg.unregister cid conn).connections = reg.connections := by
  rw [unregister, apply_ite Registry.connections, ite_self]

end Registry

/-- The entries `after` has that `before` has not are entries of the
connection the method ran on. -/
structure Frame (before after : World) : Prop where
  self : after.self.self = before.self.self
  worker : after.self.worker = before.self.worker
  dying : after.reg.dying = before.reg.dying
  cmap : ∀ cid other, after.reg.cmap cid = some other →
    before.reg.cmap cid = some other ∨ other = before.self.self
  pmap : ∀ lcid other, after.reg.pmap lcid = some other →
    before.reg.pmap lcid = some other ∨ other = before.self.self
  members : ∀ worker other, other ≠ before.self.self →
    (after.reg.connections worker).count other =
      (before.reg.connections worker).count other
  elsewhere : ∀ worker, worker ≠ before.self.worker →
    after.reg.connections worker = before.reg.connections worker

namespace Frame

theorem of_reg_eq {before after : World} (hreg : after.reg = before.reg)
    (hself : after.self.self = before.self.self)
    (hworker : after.self.worker = before.self.worker) :
    Frame before after where
  self := hself
  worker := hworker
  dying := by rw [hreg]
  cmap _ _ hentry := Or.inl (by rwa [hreg] at hentry)
  pmap _ _ hentry := Or.inl (by rwa [hreg] at hentry)
  members _ _ _ := by rw [hreg]
  elsewhere _ _ := by rw [hreg]

theorem refl (world : World) : Frame world world := of_reg_eq rfl rfl rfl

theorem trans {first second third : World} (hfirst : Frame first second)
    (hsecond : Frame second third) : Frame first third where
  self := hsecond.self.trans hfirst.self
  worker := hsecond.worker.trans hfirst.worker
  dying := hsecond.dying.trans hfirst.dying
  cmap cid other hentry := by
    rcases hsecond.cmap cid other hentry with hold | hown
    · exact hfirst.cmap cid other hold
    · exact Or.inr (hown.trans hfirst.self)
  pmap lcid other hentry := by
    rcases hsecond.pmap lcid other hentry with hold | hown
    · exact hfirst.pmap lcid other hold
    · exact Or.inr (hown.trans hfirst.self)
  members worker other hother := by
    rw [hsecond.members worker other (by rwa [hfirst.self]),
      hfirst.members worker other hother]
  elsewhere worker hworker := by
    rw [hsecond.elsewhere worker (by rwa [hfirst.worker]),
      hfirst.elsewhere worker hworker]

/-- Only the member list of the own worker changes, and only in how often it
has the own connection. -/
theorem of_connections {world : World} {members : List ConnId}
    (hcount : ∀ other, other ≠ world.self.self → members.count other =
      (world.reg.connections world.self.worker).count other) :
    Frame world
      { world with
        reg := { world.reg with
          connections := Function.update world.reg.connections
            world.self.worker members } } where
  self := rfl
  worker := rfl
  dying := rfl
  cmap _ _ hentry := Or.inl hentry
  pmap _ _ hentry := Or.inl hentry
  members worker other hother := by
    by_cases hworker : worker = world.self.worker
    · subst hworker
      simpa using hcount other hother
    · simp [hworker]
  elsewhere worker hworker := by simp [hworker]

theorem onRegister (world : World) :
    Frame world
      { world with
        reg := world.reg.onRegister world.self.worker world.self.self } := by
  apply of_connections
  intro other hother
  simp [hother.symm]

theorem onUnregister (world : World) :
    Frame world
      { world with
        reg := world.reg.onUnregister world.self.worker world.self.self } := by
  apply of_connections
  intro other hother
  exact List.count_erase_of_ne hother

theorem setCmap (world : World) (cid : ℕ) (entry : Option ConnId)
    (hentry : ∀ other ∈ entry, other = world.self.self) :
    Frame world
      { world with
        reg := { world.reg with
          cmap := Function.update world.reg.cmap cid entry } } where
  self := rfl
  worker := rfl
  dying := rfl
  cmap key other hkey := by
    by_cases hcid : key = cid
    · subst hcid
      exact Or.inr (hentry other (by simpa using hkey))
    · exact Or.inl (by simpa [hcid] using hkey)
  pmap _ _ hentry := Or.inl hentry
  members _ _ _ := rfl
  elsewhere _ _ := rfl

theorem setPmap (world : World) (lcid : ℕ) (entry : Option ConnId)
    (hentry : ∀ other ∈ entry, other = world.self.self) :
    Frame world
      { world with
        reg := { world.reg with
          pmap := Function.update world.reg.pmap lcid entry } } where
  self := rfl
  worker := rfl
  dying := rfl
  cmap _ _ hentry := Or.inl hentry
  pmap key other hkey := by
    by_cases hlcid : key = lcid
    · subst hlcid
      exact Or.inr (hentry other (by simpa using hkey))
    · exact Or.inl (by simpa [hlcid] using hkey)
  members _ _ _ := rfl
  elsewhere _ _ := rfl

theorem record (world : World) (event : ConnEvent) :
    Frame world (world.record event) := of_reg_eq rfl rfl rfl

theorem clearLoginCid (world : World) : Frame world world.clearLoginCid := by
  by_cases hlcid : world.self.lcid = 0
  · simp only [World.clearLoginCid, hlcid, if_true]
    exact refl world
  · have hcleared := (setPmap world world.self.lcid none (by simp)).trans
      (onUnregister _)
    simp only [World.clearLoginCid, hlcid, if_false]
    exact hcleared.trans (of_reg_eq rfl rfl rfl)

theorem deferLogin (world : World) : Frame world world.deferLogin := by
  have hseed : Frame world
      { world with
        self.status := .waitLogin
        self.lcid := (world.reg.loginCidSeed + 1) % 2 ^ 64
        reg.loginCidSeed := (world.reg.loginCidSeed + 1) % 2 ^ 64 } :=
    { refl world with }
  exact hseed.trans ((setPmap _ ((world.reg.loginCidSeed + 1) % 2 ^ 64)
    (some world.self.self) (by simp)).trans (onRegister _))

theorem register (cid : ℕ) (world : World) :
    Frame world (world.register cid) := by
  have hclear := clearLoginCid world
  have hcmap := hclear.trans (setCmap world.clearLoginCid cid
    (some world.clearLoginCid.self.self) (by simp))
  exact (hcmap.trans (onRegister _)).trans (of_reg_eq rfl rfl rfl)

/-- `IServer::Unregister` and `OnUnregister`. -/
theorem leave (world : World) :
    Frame world
      { world with
        reg := (world.reg.unregister world.self.cid
          world.self.self).onUnregister world.self.worker
            world.self.self } := by
  have hcmap : Frame world
      { world with
        reg := world.reg.unregister world.self.cid world.self.self } := by
    rw [Registry.unregister]
    split
    · exact setCmap world _ none (by simp)
    · exact refl _
  exact hcmap.trans (onUnregister _)

theorem unregister (world : World) : Frame world world.unregister :=
  (clearLoginCid world).trans (leave world.clearLoginCid)

theorem handle (request : Request) (world : World) :
    Frame world (world.handle request).2 := by
  dsimp only [World.handle]
  split <;> exact of_reg_eq rfl rfl rfl

variable {codec : Codec}

theorem acceptLogin (request : SystemPayload.Login) (world : World) :
    Frame world (world.acceptLogin codec request).2 := by
  dsimp only [World.acceptLogin]
  split
  · exact of_reg_eq rfl rfl rfl
  · have hregister :=
      (record world (.loginTask request.id)).trans (register request.id _)
    exact hregister.trans (of_reg_eq rfl rfl rfl)

theorem dequeue (rest : List Task) (world : World) :
    Frame world (world.dequeue rest) := of_reg_eq rfl rfl rfl

theorem closeByTask (world : World) : Frame world world.closeByTask :=
  of_reg_eq rfl rfl rfl

theorem kept : Kept codec Frame where
  refl := refl
  trans := trans
  normal world request rest _ := (dequeue rest world).trans (handle request _)
  accept world request rest _ _ :=
    (dequeue rest world).trans (acceptLogin request _)
  refuse world request rest _ _ :=
    ((dequeue rest world).trans (acceptLogin request _)).trans (closeByTask _)
  closing world _ rest _ _ := (dequeue rest world).trans (closeByTask _)
  dying world _ _ := closeByTask world
  usedAfterDelete world _ := record world _
  close world := (record world _).trans (unregister _)
  delete _ := of_reg_eq rfl rfl rfl

theorem acceptorCalls (calls : List AcceptorCall) (world : World) :
    Frame world (calls.foldl World.acceptorCall world) := by
  induction calls generalizing world with
  | nil => exact refl world
  | cons call rest ih =>
      have hcall : Frame world (world.acceptorCall call) := by
        cases call with
        | close => exact of_reg_eq rfl rfl rfl
        | deferLogin => exact deferLogin world
      exact hcall.trans (ih _)

theorem login (acceptor : AcceptorResult) (world : World) :
    Frame world (world.login codec acceptor).2 := by
  have hhandler : Frame world (world.handlerLogin codec acceptor).2.2 := by
    unfold World.handlerLogin
    split
    · exact refl world
    · exact acceptorCalls acceptor.calls world
  dsimp only [World.login]
  split
  · exact hhandler.trans (record _ _)
  · split <;> exact hhandler.trans (of_reg_eq rfl rfl rfl)

theorem finish (destroy : World → World) (world : World) :
    Frame world (world.finish destroy false) := of_reg_eq rfl rfl rfl

theorem step (acceptor : AcceptorResult) (world : World) :
    Frame world (world.step codec acceptor) := by
  unfold World.step
  split
  case h_1 => exact of_reg_eq rfl rfl rfl
  case h_2 => exact of_reg_eq rfl rfl rfl
  case h_3 =>
    have hlogin := @login codec acceptor world
    split
    · exact finish _ world
    · dsimp only
      split
      · exact hlogin.trans (finish _ _)
      · split
        · exact hlogin
        · have hregister := hlogin.trans
            (register (world.login codec acceptor).1 _)
          exact hregister.trans (of_reg_eq rfl rfl rfl)
  case h_4 =>
    have hhandle := handle world.self.req world
    split
    · exact finish _ world
    · dsimp only
      split
      · exact hhandle.trans (of_reg_eq rfl rfl rfl)
      · exact hhandle.trans (finish _ _)
  case h_5 => exact kept.destroy world
  case h_6 => exact finish _ world
  case h_7 => exact finish _ world

theorem process (ok : Bool) (request : Request) (acceptor : AcceptorResult)
    (world : World) :
    Frame world (world.process codec ok request acceptor) := by
  have hpopped : Frame world
      { world with self.pending := world.self.pending - 1 } :=
    of_reg_eq rfl rfl rfl
  have hread : Frame world
      { world with
        self.pending := world.self.pending - 1
        self.req := request } := of_reg_eq rfl rfl rfl
  dsimp only [World.process]
  split
  · split
    · exact hpopped.trans (step acceptor _)
    · exact hread.trans (step acceptor _)
  · exact hpopped.trans (kept.destroy _)

end Frame

end GrpcMtk
