import GrpcMtk.Server.Methods
import Mathlib.Logic.Relation

/-!
# The sections of a method

A method of a connection reaches what other threads see in a few places only:
the sections of `NewLoginCid`, `ClearLoginCid`, `IServer::Register` and
`IServer::Unregister` under a mutex, and `delete this`.  Whatever lies between
two of them touches the connection and its stream alone.  Every method is a
sequence of such sections.

`connections_` belongs to the worker thread, so the edit of it that goes with a
section is part of the section here.
-/

namespace GrpcMtk

open GrpcMtk.Proto

/-- A change that leaves a connection the same object, with the keys it has in
the registries. -/
def Conn.Keeps (before after : Conn) : Prop :=
  after.self = before.self ∧ after.worker = before.worker ∧
    after.cid = before.cid ∧ after.lcid = before.lcid ∧
    after.isDeleted = before.isDeleted

instance (before after : Conn) : Decidable (before.Keeps after) :=
  inferInstanceAs (Decidable (_ ∧ _ ∧ _ ∧ _ ∧ _))

inductive Section where
  /-- The connection and its stream are changed, and nothing else. -/
  | own (self : Conn)
  | newLoginCid
  | clearLoginCid
  /-- `Conn::Register` behind `ClearLoginCid`. -/
  | register (cid : ℕ)
  /-- `Conn::Unregister` behind `ClearLoginCid`. -/
  | unregister
  | delete
  deriving DecidableEq

namespace Section

def run : Section → World → World
  | .own self, world =>
      if world.self.Keeps self then { world with self := self } else world
  | .newLoginCid, world => world.newLoginCid
  | .clearLoginCid, world => world.clearLoginCid
  | .register cid, world =>
      { world with
        self.cid := cid
        reg := (world.reg.register cid world.self.self).onRegister
          world.self.worker world.self.self }.record (.registered cid)
  | .unregister, world =>
      { world with
        reg := (world.reg.unregister world.self.cid
          world.self.self).onUnregister world.self.worker world.self.self }
  | .delete, world => world.delete

theorem frame (sec : Section) (world : World) :
    Frame world (sec.run world) := by
  cases sec with
  | own self =>
      rw [run]
      split
      case isTrue hkeeps => exact Frame.of_reg_eq rfl hkeeps.1 hkeeps.2.1
      case isFalse => exact Frame.refl world
  | newLoginCid => exact { Frame.deferLogin world with }
  | clearLoginCid => exact Frame.clearLoginCid world
  | register cid =>
      have hcmap := Frame.setCmap world cid (some world.self.self) (by simp)
      exact (hcmap.trans (Frame.onRegister _)).trans
        (Frame.of_reg_eq rfl rfl rfl)
  | unregister => exact Frame.leave world
  | delete => exact Frame.of_reg_eq rfl rfl rfl

/-- Only `delete this` deletes. -/
theorem run_isDeleted {sec : Section} (hsec : sec ≠ .delete) (world : World) :
    (sec.run world).self.isDeleted = world.self.isDeleted := by
  cases sec with
  | own self =>
      rw [run]
      split
      case isTrue hkeeps => exact hkeeps.2.2.2.2
      case isFalse => rfl
  | newLoginCid => rfl
  | clearLoginCid =>
      rw [run, World.clearLoginCid]
      split <;> rfl
  | register cid =>
      exact @isDeleted_of_history world.self _ (.registered cid) rfl (by simp)
  | unregister => rfl
  | delete => contradiction

theorem run_results (sec : Section) (world : World) :
    (sec.run world).results = world.results := by
  cases sec with
  | own self =>
      rw [run]
      split <;> rfl
  | clearLoginCid =>
      rw [run, World.clearLoginCid]
      split <;> rfl
  | _ => rfl

end Section

/-- One section after the other leads from the first world to the second.  The
results of the handler calls are no part of what a section works on. -/
def Sections (before after : World) : Prop :=
  Relation.ReflTransGen
    (fun first second => ∃ sec : Section, sec.run first = second)
    { before with results := [] } { after with results := [] }

namespace Sections

theorem refl (world : World) : Sections world world :=
  Relation.ReflTransGen.refl

theorem trans {first second third : World} (hfirst : Sections first second)
    (hsecond : Sections second third) : Sections first third :=
  Relation.ReflTransGen.trans hfirst hsecond

theorem of_run {before after : World} (sec : Section)
    (hrun : sec.run { before with results := [] } =
      { after with results := [] }) : Sections before after :=
  Relation.ReflTransGen.single ⟨sec, hrun⟩

theorem own {before after : World} (hreg : after.reg = before.reg)
    (hself : after.self.self = before.self.self)
    (hworker : after.self.worker = before.self.worker)
    (hcid : after.self.cid = before.self.cid)
    (hlcid : after.self.lcid = before.self.lcid)
    (hdeleted : after.self.isDeleted = before.self.isDeleted) :
    Sections before after := by
  apply of_run (.own after.self)
  rw [Section.run, if_pos ⟨hself, hworker, hcid, hlcid, hdeleted⟩, hreg]

theorem record (world : World) (event : ConnEvent)
    (hevent : event ≠ .deleted) : Sections world (world.record event) :=
  own rfl rfl rfl rfl rfl (isDeleted_of_history rfl hevent)

theorem newLoginCid (world : World) : Sections world world.newLoginCid :=
  of_run .newLoginCid rfl

theorem clearLoginCid (world : World) : Sections world world.clearLoginCid := by
  apply of_run .clearLoginCid
  rw [Section.run, World.clearLoginCid, World.clearLoginCid]
  split <;> rfl

theorem register (cid : ℕ) (world : World) :
    Sections world (world.register cid) :=
  (clearLoginCid world).trans (of_run (.register cid) rfl)

theorem unregister (world : World) : Sections world world.unregister :=
  (clearLoginCid world).trans (of_run .unregister rfl)

theorem delete (world : World) : Sections world world.delete :=
  of_run .delete rfl

theorem handle (request : Request) (world : World) :
    Sections world (world.handle request).2 := by
  obtain ⟨hreg, hself⟩ := World.handle_spec request world
  apply own hreg
  · rw [hself]
  · rw [hself]
  · rw [hself]
  · rw [hself]
  · exact World.handle_isDeleted request world

theorem dequeue (rest : List Task) (world : World) :
    Sections world (world.dequeue rest) := own rfl rfl rfl rfl rfl rfl

theorem closeByTask (world : World) : Sections world world.closeByTask :=
  own rfl rfl rfl rfl rfl rfl

theorem finish (destroy : World → World) (world : World) :
    Sections world (world.finish destroy false) :=
  own rfl rfl rfl rfl rfl rfl

variable {codec : Codec}

theorem acceptLogin (request : SystemPayload.Login) (world : World) :
    Sections world (world.acceptLogin codec request).2 := by
  have htask := record world (.loginTask request.id) nofun
  dsimp only [World.acceptLogin]
  split
  · refine htask.trans (own rfl rfl rfl rfl rfl ?_)
    exact isDeleted_of_history rfl nofun
  · exact (htask.trans (register request.id _)).trans
      (own rfl rfl rfl rfl rfl rfl)

theorem kept : Kept codec Sections where
  refl := refl
  trans := trans
  normal world request rest _ := (dequeue rest world).trans (handle request _)
  accept world request rest _ _ :=
    (dequeue rest world).trans (acceptLogin request _)
  refuse world request rest _ _ :=
    ((dequeue rest world).trans (acceptLogin request _)).trans (closeByTask _)
  closing world _ rest _ _ := (dequeue rest world).trans (closeByTask _)
  dying world _ _ := closeByTask world
  usedAfterDelete world _ := record world .usedAfterDelete nofun
  close world := (record world .closed nofun).trans (unregister _)
  delete := delete

theorem acceptorCalls (calls : List AcceptorCall) (world : World) :
    Sections world (calls.foldl World.acceptorCall world) := by
  induction calls generalizing world with
  | nil => exact refl world
  | cons call rest ih =>
      have hcall : Sections world (world.acceptorCall call) := by
        cases call with
        | close => exact own rfl rfl rfl rfl rfl rfl
        | deferLogin =>
            have hwait : Sections world
                { world with self.status := .waitLogin } :=
              own rfl rfl rfl rfl rfl rfl
            exact hwait.trans (newLoginCid _)
      exact hcall.trans (ih _)

theorem login (acceptor : AcceptorResult) (world : World) :
    Sections world (world.login codec acceptor).2 := by
  have hhandler : Sections world (world.handlerLogin codec acceptor).2.2 := by
    rw [World.handlerLogin]
    split
    · exact refl world
    · exact acceptorCalls acceptor.calls world
  have hreturned := hhandler.trans (record _
    (.loginReturned (world.handlerLogin codec acceptor).1) (by simp))
  dsimp only [World.login]
  split
  · exact hreturned
  · split
    · exact hreturned.trans (own rfl rfl rfl rfl rfl rfl)
    · refine hreturned.trans (own rfl rfl rfl rfl rfl ?_)
      exact isDeleted_of_history rfl (by simp)

theorem step (acceptor : AcceptorResult) (world : World) :
    Sections world (world.step codec acceptor) := by
  unfold World.step
  split
  case h_1 => exact own rfl rfl rfl rfl rfl rfl
  case h_2 => exact own rfl rfl rfl rfl rfl rfl
  case h_3 =>
    have hlogin := @login codec acceptor world
    split
    · exact finish _ world
    · dsimp only
      split
      · exact hlogin.trans (finish _ _)
      · split
        · exact hlogin
        · exact (hlogin.trans
            (register (world.login codec acceptor).1 _)).trans
              (own rfl rfl rfl rfl rfl rfl)
  case h_4 =>
    have hhandle := handle world.self.req world
    split
    · exact finish _ world
    · dsimp only
      split
      · exact hhandle.trans (own rfl rfl rfl rfl rfl rfl)
      · exact hhandle.trans (finish _ _)
  case h_5 => exact kept.destroy world
  case h_6 => exact finish _ world
  case h_7 => exact finish _ world

/-- A completion of a connection is handled section by section. -/
theorem process (ok : Bool) (request : Request) (acceptor : AcceptorResult)
    (world : World) :
    Sections world (world.process codec ok request acceptor) := by
  have hpopped : Sections world
      { world with self.pending := world.self.pending - 1 } :=
    own rfl rfl rfl rfl rfl rfl
  have hread : Sections world
      { world with
        self.pending := world.self.pending - 1
        self.req := request } := own rfl rfl rfl rfl rfl rfl
  dsimp only [World.process]
  split
  · split
    · exact hpopped.trans (step acceptor _)
    · exact hread.trans (step acceptor _)
  · exact hpopped.trans (kept.destroy _)

/-- So is a pass of `ConsumeTask`. -/
theorem consumeTask (world : World) :
    Sections world (world.consumeTask codec (World.destroy codec) 3) :=
  kept.consumeTask kept.destroyKept 3 world

end Sections

end GrpcMtk
