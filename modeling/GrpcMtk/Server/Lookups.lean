import GrpcMtk.Server.Sections
import GrpcMtk.Server.System

/-!
# Lookups

`GetStream` and `FinishLogin` find a connection under the mutex of a registry
and use it after they have released the mutex.  The worker of the connection
may take it out of the registries and delete it in between.

Here the workers run their methods section by section, in any order, and a
lookup and the use of what it found are actions of their own.
-/

namespace GrpcMtk

open GrpcMtk.Proto
open GrpcMtk.Runs

/-- A `GetStream` call that holds an iterator of `cmap_`. -/
structure Lookup where
  cid : ℕ
  /-- The node of the iterator was erased. -/
  erased : Bool
  deriving DecidableEq, Repr

def Lookup.after (reg : Registry) (lookup : Lookup) : Lookup :=
  { lookup with erased := lookup.erased || (reg.cmap lookup.cid).isNone }

/-- The object of the connection is there. -/
def Server.Live (server : Server) (conn : ConnId) : Prop :=
  ∃ self ∈ server.conns conn, self.isDeleted = false

instance (server : Server) (conn : ConnId) : Decidable (server.Live conn) :=
  inferInstanceAs (Decidable (∃ self ∈ server.conns conn, _ = false))

/-- A server between two sections, and the lookups under way. -/
structure Threads where
  server : Server
  lookups : List Lookup

namespace Threads

def init : Threads := ⟨Server.init, []⟩

inductive Action where
  | launch (worker : WorkerId)
  | prepareShutdown (worker : WorkerId)
  /-- The worker of a connection runs a section, or some thread changes the
  stream. -/
  | work (conn : ConnId) (sec : Section)
  /-- `GetStream` up to the unlock. -/
  | findStream (cid : ℕ)
  /-- `GetStream` reads `(*it).second->stream_`. -/
  | useStream (lookup : Lookup)
  /-- `FinishLogin` up to the unlock. -/
  | finishLogin (lcid cid msgid : ℕ) (data : Bytes)
  /-- `FinishLogin` calls `mc->SysTask`. -/
  | sysTask (conn : ConnId) (request : SystemPayload.Login)
  deriving DecidableEq

/-- What the iterator of a lookup leads to; that of an erased node leads
nowhere. -/
def target (threads : Threads) (lookup : Lookup) : Option ConnId :=
  if lookup.erased then none else threads.server.reg.cmap lookup.cid

section Step

variable (codec : Codec)

/-- A `GetStream` call that finds nothing is over at once. -/
def step (threads : Threads) : Action → Option Threads
  | .launch worker =>
      some { threads with server := threads.server.newConn codec worker }
  | .prepareShutdown worker =>
      (threads.server.step codec (.prepareShutdown worker)).map
        fun server => { threads with server := server }
  | .work conn sec =>
      let server := threads.server.runConn conn [] sec.run
      some ⟨server, threads.lookups.map (Lookup.after server.reg)⟩
  | .findStream cid =>
      match threads.server.reg.cmap cid with
      | none => some threads
      | some _ => some { threads with
          lookups := threads.lookups ++ [⟨cid, false⟩] }
  | .useStream lookup =>
      if lookup ∈ threads.lookups then
        match threads.target lookup with
        | none => some { threads with lookups := threads.lookups.erase lookup }
        | some conn => some
            ⟨{ threads.server with
                handles := threads.server.handles ++ [conn] }.onStream conn
                  SVStream.ref,
              threads.lookups.erase lookup⟩
      else none
  | .finishLogin lcid cid msgid data =>
      (threads.server.step codec (.finishLogin lcid cid msgid data)).map
        fun server => { threads with server := server }
  | .sysTask conn request =>
      (threads.server.step codec (.postLogin conn request)).map
        fun server => { threads with server := server }

end Step

/-- What the action dereferences is there: the iterator is one of a node that
was not erased, and the connection was not deleted. -/
def DerefsLive (threads : Threads) : Action → Prop
  | .useStream lookup => lookup.erased = false ∧
      ∃ conn ∈ threads.server.reg.cmap lookup.cid, threads.server.Live conn
  | .sysTask conn _ => threads.server.Live conn
  | _ => True

instance (threads : Threads) : ∀ action, Decidable (threads.DerefsLive action)
  | .useStream lookup => inferInstanceAs (Decidable (_ = false ∧
      ∃ conn ∈ threads.server.reg.cmap lookup.cid, threads.server.Live conn))
  | .sysTask conn _ => inferInstanceAs (Decidable (threads.server.Live conn))
  | .launch _ | .prepareShutdown _ | .work .. | .findStream _
  | .finishLogin .. => isTrue trivial

/-- Every connection a thread holds, or can find, is there. -/
structure Usable (threads : Threads) : Prop where
  cmap : ∀ cid conn, threads.server.reg.cmap cid = some conn →
    threads.server.Live conn
  pmap : ∀ lcid conn, threads.server.reg.pmap lcid = some conn →
    threads.server.Live conn
  finishing : ∀ conn request, (conn, request) ∈ threads.server.finishing →
    threads.server.Live conn
  lookups : ∀ lookup ∈ threads.lookups, lookup.erased = false ∧
    threads.server.reg.cmap lookup.cid ≠ none

/-- The condition on one action.  A worker deletes a connection when no registry
has it and no `FinishLogin` call holds it, erases a node of `cmap_` when no
`GetStream` call has its iterator, and files only a connection that was not
deleted. -/
def Undisturbed (threads : Threads) : Action → Prop
  | .work conn .delete =>
      (∀ cid, threads.server.reg.cmap cid ≠ some conn) ∧
        (∀ lcid, threads.server.reg.pmap lcid ≠ some conn) ∧
        ∀ request, (conn, request) ∉ threads.server.finishing
  | .work conn .unregister =>
      ∀ self ∈ threads.server.conns conn,
        threads.server.reg.cmap self.cid = some conn →
          ∀ lookup ∈ threads.lookups, lookup.cid ≠ self.cid
  | .work conn .newLoginCid | .work conn (.register _) =>
      ∀ self ∈ threads.server.conns conn, self.isDeleted = false
  | _ => True

end Threads

/-! ## Live connections -/

namespace Server

variable {codec : Codec} {server : Server}

theorem live_iff {conn : ConnId} {self : Conn}
    (hconn : server.conns conn = some self) :
    server.Live conn ↔ self.isDeleted = false := by
  rw [Live, hconn]
  exact ⟨fun ⟨_, hself, hlive⟩ => Option.some.inj hself ▸ hlive,
    fun hlive => ⟨self, rfl, hlive⟩⟩

theorem live_congr {after : Server} {conn : ConnId}
    (hsame : after.conns conn = server.conns conn) :
    after.Live conn ↔ server.Live conn := by rw [Live, Live, hsame]

theorem live_runConn {conn : ConnId} {results : List HandlerResult}
    {method : World → World}
    (hdeleted : ∀ world, (method world).self.isDeleted = world.self.isDeleted)
    (other : ConnId) :
    (server.runConn conn results method).Live other ↔ server.Live other := by
  cases hconn : server.conns conn with
  | none => rw [runConn_of_none hconn]
  | some self =>
      rw [runConn_of_some hconn]
      by_cases hsame : other = conn
      · subst hsame
        rw [live_iff (Function.update_self _ _ _), live_iff hconn, hdeleted]
      · exact live_congr (Function.update_of_ne hsame _ _)

theorem live_onStream (conn : ConnId) (change : SVStream → SVStream)
    (other : ConnId) :
    (server.onStream conn change).Live other ↔ server.Live other := by
  cases hconn : server.conns conn with
  | none => rw [onStream_of_none hconn]
  | some self =>
      rw [onStream_of_some hconn]
      by_cases hsame : other = conn
      · subst hsame
        rw [live_iff (Function.update_self _ _ _), live_iff hconn]
        rfl
      · exact live_congr (Function.update_of_ne hsame _ _)

theorem live_newConn (worker : WorkerId) {other : ConnId}
    (hbelow : other < server.next) :
    (server.newConn codec worker).Live other ↔ server.Live other :=
  live_congr (Function.update_of_ne (Nat.ne_of_lt hbelow) _ _)

end Server

namespace Threads

open Server

variable {codec : Codec} {threads next : Threads}

/-! ## One section -/

theorem lookups_after {lookups : List Lookup} {reg reg' : Registry}
    (hvalid : ∀ lookup ∈ lookups, lookup.erased = false ∧
      reg.cmap lookup.cid ≠ none) :
    (∀ lookup ∈ lookups.map (Lookup.after reg'), lookup.erased = false ∧
        reg'.cmap lookup.cid ≠ none) ↔
      ∀ lookup ∈ lookups, reg'.cmap lookup.cid ≠ none := by
  rw [List.forall_mem_map]
  refine forall₂_congr fun lookup hlookup => ?_
  have hopen := (hvalid lookup hlookup).1
  simp [Lookup.after, hopen, Option.isSome_iff_ne_none]

/-- A section that deletes nothing leaves the pointers usable if what it files
is live and what it erases is not looked at. -/
theorem usable_work_iff_of_ne {conn : ConnId} {sec : Section}
    (hsec : sec ≠ .delete) (husable : threads.Usable)
    (hstep : threads.step codec (.work conn sec) = some next) :
    next.Usable ↔
      (∀ cid other, next.server.reg.cmap cid = some other →
          threads.server.Live other) ∧
        (∀ lcid other, next.server.reg.pmap lcid = some other →
          threads.server.Live other) ∧
        ∀ lookup ∈ threads.lookups,
          next.server.reg.cmap lookup.cid ≠ none := by
  obtain rfl := Option.some.inj hstep
  have hlive := fun other =>
    @live_runConn threads.server conn [] _ (Section.run_isDeleted hsec) other
  have hfinishing : (threads.server.runConn conn [] sec.run).finishing =
      threads.server.finishing := by
    rw [runConn]
    split <;> rfl
  constructor
  · intro hafter
    refine ⟨fun cid other hentry => ?_, fun lcid other hentry => ?_, ?_⟩
    · exact (hlive other).mp (hafter.cmap cid other hentry)
    · exact (hlive other).mp (hafter.pmap lcid other hentry)
    · exact (lookups_after husable.lookups).mp hafter.lookups
  · rintro ⟨hcmap, hpmap, hlookups⟩
    refine ⟨fun cid other hentry => ?_, fun lcid other hentry => ?_,
      fun other request hmem => ?_, ?_⟩
    · exact (hlive other).mpr (hcmap cid other hentry)
    · exact (hlive other).mpr (hpmap lcid other hentry)
    · rw [hfinishing] at hmem
      exact (hlive other).mpr (husable.finishing other request hmem)
    · exact (lookups_after husable.lookups).mpr hlookups

theorem Usable.of_none {conn : ConnId} {sec : Section}
    (husable : threads.Usable) (hconn : threads.server.conns conn = none)
    (hstep : threads.step codec (.work conn sec) = some next) :
    next.Usable := by
  obtain rfl := Option.some.inj hstep
  rw [runConn_of_none hconn]
  refine ⟨husable.cmap, husable.pmap, husable.finishing, ?_⟩
  exact (lookups_after husable.lookups).mpr fun lookup hlookup =>
    (husable.lookups lookup hlookup).2

theorem Usable.undisturbed_of_none {conn : ConnId} (husable : threads.Usable)
    (hconn : threads.server.conns conn = none) (sec : Section) :
    threads.Undisturbed (.work conn sec) := by
  have hgone : ¬threads.server.Live conn := by
    rw [Live, hconn]
    rintro ⟨self, hself, -⟩
    contradiction
  have hnone : ∀ self ∈ threads.server.conns conn, False := by
    rw [hconn]
    nofun
  cases sec with
  | delete => exact ⟨fun cid hentry => hgone (husable.cmap cid conn hentry),
      fun lcid hentry => hgone (husable.pmap lcid conn hentry),
      fun request hmem => hgone (husable.finishing conn request hmem)⟩
  | unregister => exact fun self hself => (hnone self hself).elim
  | newLoginCid => exact fun self hself => (hnone self hself).elim
  | register cid => exact fun self hself => (hnone self hself).elim
  | own self => trivial
  | clearLoginCid => trivial

/-- A deleted connection must not be found any more. -/
theorem usable_delete_iff {conn : ConnId} {self : Conn}
    (hconn : threads.server.conns conn = some self) (husable : threads.Usable)
    (hstep : threads.step codec (.work conn .delete) = some next) :
    next.Usable ↔ threads.Undisturbed (.work conn .delete) := by
  obtain rfl := Option.some.inj hstep
  rw [runConn_of_some hconn]
  generalize hafter : ({ threads.server with
    conns := Function.update threads.server.conns conn
      (some (Section.delete.run ⟨self, threads.server.reg, []⟩).self)
    reg := (Section.delete.run ⟨self, threads.server.reg, []⟩).reg } :
      Server) = after
  have hreg : after.reg = threads.server.reg := by
    rw [← hafter]
    rfl
  have hfinishing : after.finishing = threads.server.finishing := by
    rw [← hafter]
  have hgone : ¬after.Live conn := by
    have hdead := World.delete_isDeleted ⟨self, threads.server.reg, []⟩
    rw [← hafter, live_iff (Function.update_self _ _ _), Section.run, hdead]
    simp
  have hother : ∀ other, other ≠ conn →
      (after.Live other ↔ threads.server.Live other) := by
    intro other hne
    rw [← hafter]
    exact live_congr (Function.update_of_ne hne _ _)
  constructor
  · intro hnext
    refine ⟨fun cid hentry => ?_, fun lcid hentry => ?_,
      fun request hmem => ?_⟩
    · exact hgone (hnext.cmap cid conn (by rwa [hreg]))
    · exact hgone (hnext.pmap lcid conn (by rwa [hreg]))
    · exact hgone (hnext.finishing conn request (by rwa [hfinishing]))
  · rintro ⟨hcmap, hpmap, hnone⟩
    refine ⟨fun cid other hentry => ?_, fun lcid other hentry => ?_,
      fun other request hmem => ?_, ?_⟩
    · rw [hreg] at hentry
      refine (hother other ?_).mpr (husable.cmap cid other hentry)
      rintro rfl
      exact hcmap cid hentry
    · rw [hreg] at hentry
      refine (hother other ?_).mpr (husable.pmap lcid other hentry)
      rintro rfl
      exact hpmap lcid hentry
    · rw [hfinishing] at hmem
      refine (hother other ?_).mpr (husable.finishing other request hmem)
      rintro rfl
      exact hnone request hmem
    · apply (lookups_after husable.lookups).mpr
      rw [hreg]
      exact fun lookup hlookup => (husable.lookups lookup hlookup).2

section Worker

variable {conn : ConnId} {self : Conn}

theorem live_iff_forall (hconn : threads.server.conns conn = some self) :
    threads.server.Live conn ↔
      ∀ state ∈ threads.server.conns conn, state.isDeleted = false := by
  rw [live_iff hconn, hconn]
  exact ⟨fun hlive state hstate => Option.some.inj hstate ▸ hlive,
    fun hlive => hlive self rfl⟩

/-- What the worker's connection files in the registry is itself. -/
theorem usable_section_iff {sec : Section} (hsec : sec ≠ .delete)
    (hconn : threads.server.conns conn = some self) (husable : threads.Usable)
    (hstep : threads.step codec (.work conn sec) = some next) :
    next.Usable ↔
      (∀ cid other, (sec.run ⟨self, threads.server.reg, []⟩).reg.cmap cid =
          some other → threads.server.Live other) ∧
        (∀ lcid other, (sec.run ⟨self, threads.server.reg, []⟩).reg.pmap lcid =
          some other → threads.server.Live other) ∧
        ∀ lookup ∈ threads.lookups,
          (sec.run ⟨self, threads.server.reg, []⟩).reg.cmap lookup.cid ≠
            none := by
  have hiff := usable_work_iff_of_ne hsec husable hstep
  have hreg : next.server.reg =
      (sec.run ⟨self, threads.server.reg, []⟩).reg := by
    obtain rfl := Option.some.inj hstep
    rw [runConn_of_some hconn]
  rwa [hreg] at hiff

theorem Usable.cmap_lookups (husable : threads.Usable) :
    ∀ lookup ∈ threads.lookups, threads.server.reg.cmap lookup.cid ≠ none :=
  fun lookup hlookup => (husable.lookups lookup hlookup).2

/-- A pending login may be filed for a live connection only. -/
theorem usable_newLoginCid_iff (hid : self.self = conn)
    (hconn : threads.server.conns conn = some self) (husable : threads.Usable)
    (hstep : threads.step codec (.work conn .newLoginCid) = some next) :
    next.Usable ↔ threads.Undisturbed (.work conn .newLoginCid) := by
  rw [usable_section_iff (by simp) hconn husable hstep, Undisturbed,
    ← live_iff_forall hconn]
  constructor
  · rintro ⟨-, hpmap, -⟩
    apply hpmap ((threads.server.reg.loginCidSeed + 1) % 2 ^ 64)
    rw [← hid]
    exact Function.update_self _ _ _
  · refine fun hlive => ⟨husable.cmap, fun lcid other hentry => ?_,
      husable.cmap_lookups⟩
    rcases (Section.frame .newLoginCid _).pmap lcid other hentry with
      hold | rfl
    · exact husable.pmap lcid other hold
    · dsimp only
      rwa [hid]

/-- A connection may be registered while it is live. -/
theorem usable_register_iff {cid : ℕ} (hid : self.self = conn)
    (hconn : threads.server.conns conn = some self) (husable : threads.Usable)
    (hstep : threads.step codec (.work conn (.register cid)) = some next) :
    next.Usable ↔ threads.Undisturbed (.work conn (.register cid)) := by
  rw [usable_section_iff (by simp) hconn husable hstep, Undisturbed,
    ← live_iff_forall hconn]
  constructor
  · rintro ⟨hcmap, -, -⟩
    apply hcmap cid
    rw [← hid]
    exact Function.update_self _ _ _
  · refine fun hlive => ⟨fun key other hentry => ?_, husable.pmap, ?_⟩
    · rcases (Section.frame (.register cid) _).cmap key other hentry with
        hold | rfl
      · exact husable.cmap key other hold
      · dsimp only
        rwa [hid]
    · intro lookup hlookup
      by_cases hkey : lookup.cid = cid
      · rw [hkey]
        exact ne_of_eq_of_ne (Function.update_self _ _ _)
          (Option.some_ne_none _)
      · exact ne_of_eq_of_ne (Function.update_of_ne hkey _ _)
          (husable.cmap_lookups lookup hlookup)

/-- An entry of its own may be erased while no lookup has found it. -/
theorem usable_unregister_iff (hid : self.self = conn)
    (hconn : threads.server.conns conn = some self) (husable : threads.Usable)
    (hstep : threads.step codec (.work conn .unregister) = some next) :
    next.Usable ↔ threads.Undisturbed (.work conn .unregister) := by
  have hpmap : (Section.run .unregister
      ⟨self, threads.server.reg, []⟩).reg.pmap =
        threads.server.reg.pmap := Registry.unregister_pmap _ _ _
  have hcmap : (Section.run .unregister
      ⟨self, threads.server.reg, []⟩).reg.cmap =
        if threads.server.reg.cmap self.cid = some conn then
          Function.update threads.server.reg.cmap self.cid none
        else threads.server.reg.cmap :=
    hid ▸ Registry.unregister_cmap _ _ _
  rw [usable_section_iff (by simp) hconn husable hstep, Undisturbed, hconn,
    hpmap, hcmap]
  by_cases hown : threads.server.reg.cmap self.cid = some conn
  · rw [if_pos hown]
    constructor
    · rintro ⟨-, -, hafter⟩ state hstate - lookup hlookup hkey
      obtain rfl := Option.some.inj hstate
      apply hafter lookup hlookup
      rw [hkey]
      exact Function.update_self _ _ _
    · intro hquiet
      refine ⟨fun key other hentry => ?_, husable.pmap,
        fun lookup hlookup => ?_⟩
      · by_cases hkey : key = self.cid
        · rw [hkey, Function.update_self] at hentry
          contradiction
        · rw [Function.update_of_ne hkey] at hentry
          exact husable.cmap key other hentry
      · rw [Function.update_of_ne (hquiet self rfl hown lookup hlookup)]
        exact husable.cmap_lookups lookup hlookup
  · rw [if_neg hown]
    refine iff_of_true ⟨husable.cmap, husable.pmap, husable.cmap_lookups⟩ ?_
    intro state hstate hentry
    obtain rfl := Option.some.inj hstate
    exact absurd hentry hown

/-- The worker of a connection runs one section. -/
theorem usable_work_iff {sec : Section} (hwf : WellFormed threads.server)
    (hconn : threads.server.conns conn = some self) (husable : threads.Usable)
    (hstep : threads.step codec (.work conn sec) = some next) :
    next.Usable ↔ threads.Undisturbed (.work conn sec) := by
  have hid := (hwf.known conn self hconn).1
  cases sec with
  | own state =>
      rw [usable_section_iff (by simp) hconn husable hstep, Section.run]
      apply iff_of_true _ trivial
      split
      · exact ⟨husable.cmap, husable.pmap, husable.cmap_lookups⟩
      · exact ⟨husable.cmap, husable.pmap, husable.cmap_lookups⟩
  | newLoginCid => exact usable_newLoginCid_iff hid hconn husable hstep
  | clearLoginCid =>
      rw [usable_section_iff (by simp) hconn husable hstep, Section.run,
        World.clearLoginCid_cmap]
      refine iff_of_true ⟨husable.cmap, fun lcid other hentry => ?_,
        husable.cmap_lookups⟩ trivial
      rw [World.clearLoginCid_pmap] at hentry
      split at hentry
      · contradiction
      · exact husable.pmap lcid other hentry
  | register cid => exact usable_register_iff hid hconn husable hstep
  | unregister => exact usable_unregister_iff hid hconn husable hstep
  | delete => exact usable_delete_iff hconn husable hstep

end Worker

/-! ## Any action -/

theorem Usable.findStream {cid : ℕ} (husable : threads.Usable)
    (hstep : threads.step codec (.findStream cid) = some next) :
    next.Usable := by
  rw [step] at hstep
  split at hstep
  · obtain rfl := Option.some.inj hstep
    exact husable
  case h_2 conn hentry =>
    obtain rfl := Option.some.inj hstep
    refine { husable with lookups := fun lookup hlookup => ?_ }
    rcases List.mem_append.mp hlookup with hold | hnew
    · exact husable.lookups lookup hold
    · rw [List.mem_singleton.mp hnew]
      exact ⟨rfl, ne_of_eq_of_ne hentry (Option.some_ne_none conn)⟩

theorem Usable.useStream {lookup : Lookup} (husable : threads.Usable)
    (hstep : threads.step codec (.useStream lookup) = some next) :
    next.Usable := by
  have hlookups : ∀ other ∈ threads.lookups.erase lookup,
      other.erased = false ∧ threads.server.reg.cmap other.cid ≠ none :=
    fun other hother => husable.lookups other (List.mem_of_mem_erase hother)
  rw [step] at hstep
  split at hstep
  case isFalse => contradiction
  split at hstep
  · obtain rfl := Option.some.inj hstep
    exact { husable with lookups := hlookups }
  case h_2 conn htarget =>
    obtain rfl := Option.some.inj hstep
    constructor
    · intro cid other hentry
      rw [onStream_reg] at hentry
      exact (live_onStream _ _ other).mpr (husable.cmap cid other hentry)
    · intro lcid other hentry
      rw [onStream_reg] at hentry
      exact (live_onStream _ _ other).mpr (husable.pmap lcid other hentry)
    · intro other request hmem
      rw [onStream_finishing] at hmem
      exact (live_onStream _ _ other).mpr
        (husable.finishing other request hmem)
    · intro other hother
      rw [onStream_reg]
      exact hlookups other hother

theorem Usable.finishLogin {lcid cid msgid : ℕ} {data : Bytes}
    (husable : threads.Usable)
    (hstep : threads.step codec (.finishLogin lcid cid msgid data) =
      some next) : next.Usable := by
  obtain ⟨server, hserver, rfl⟩ := Option.map_eq_some_iff.mp hstep
  rcases step_finishLogin hserver with ⟨-, rfl⟩ | ⟨conn, hentry, rfl⟩
  · exact husable
  refine ⟨husable.cmap, fun key other hkey => ?_, fun other request hmem => ?_,
    husable.lookups⟩
  · dsimp only at hkey
    by_cases hsame : key = lcid
    · rw [hsame, Function.update_self] at hkey
      contradiction
    · rw [Function.update_of_ne hsame] at hkey
      exact husable.pmap key other hkey
  · rcases List.mem_append.mp hmem with hold | hnew
    · exact husable.finishing other request hold
    · obtain ⟨rfl, -⟩ := Prod.mk.inj (List.mem_singleton.mp hnew)
      exact husable.pmap lcid other hentry

theorem Usable.sysTask {conn : ConnId} {request : SystemPayload.Login}
    (husable : threads.Usable)
    (hstep : threads.step codec (.sysTask conn request) = some next) :
    next.Usable := by
  obtain ⟨server, hserver, rfl⟩ := Option.map_eq_some_iff.mp hstep
  obtain ⟨-, rfl⟩ := step_postLogin hserver
  constructor
  · intro cid other hentry
    rw [onStream_reg] at hentry
    exact (live_onStream _ _ other).mpr (husable.cmap cid other hentry)
  · intro lcid other hentry
    rw [onStream_reg] at hentry
    exact (live_onStream _ _ other).mpr (husable.pmap lcid other hentry)
  · intro other posted hmem
    rw [onStream_finishing] at hmem
    exact (live_onStream _ _ other).mpr
      (husable.finishing other posted (List.mem_of_mem_erase hmem))
  · intro lookup hlookup
    rw [onStream_reg]
    exact husable.lookups lookup hlookup

theorem Usable.launch {worker : WorkerId} (hwf : WellFormed threads.server)
    (husable : threads.Usable)
    (hstep : threads.step codec (.launch worker) = some next) :
    next.Usable := by
  obtain rfl := Option.some.inj hstep
  constructor
  · intro cid other hentry
    exact (live_newConn worker (hwf.cmap cid other hentry)).mpr
      (husable.cmap cid other hentry)
  · intro lcid other hentry
    exact (live_newConn worker (hwf.pmap lcid other hentry)).mpr
      (husable.pmap lcid other hentry)
  · intro other request hmem
    exact (live_newConn worker (hwf.finishing other request hmem)).mpr
      (husable.finishing other request hmem)
  · exact husable.lookups

theorem usable_step_iff {action : Action} (hwf : WellFormed threads.server)
    (husable : threads.Usable)
    (hstep : threads.step codec action = some next) :
    next.Usable ↔ threads.Undisturbed action := by
  cases action with
  | launch worker => exact iff_of_true (husable.launch hwf hstep) trivial
  | prepareShutdown worker =>
      obtain rfl := Option.some.inj hstep
      refine iff_of_true ?_ trivial
      exact ⟨husable.cmap, husable.pmap, husable.finishing, husable.lookups⟩
  | work conn sec =>
      cases hconn : threads.server.conns conn with
      | some self => exact usable_work_iff hwf hconn husable hstep
      | none =>
          exact iff_of_true (husable.of_none hconn hstep)
            (husable.undisturbed_of_none hconn sec)
  | findStream cid => exact iff_of_true (husable.findStream hstep) trivial
  | useStream lookup => exact iff_of_true (husable.useStream hstep) trivial
  | finishLogin lcid cid msgid data =>
      exact iff_of_true (husable.finishLogin hstep) trivial
  | sysTask conn request => exact iff_of_true (husable.sysTask hstep) trivial

theorem wellFormed_step {action : Action} (hwf : WellFormed threads.server)
    (hstep : threads.step codec action = some next) :
    WellFormed next.server := by
  cases action with
  | launch worker =>
      obtain rfl := Option.some.inj hstep
      exact hwf.newConn worker
  | prepareShutdown worker =>
      obtain rfl := Option.some.inj hstep
      exact { hwf with }
  | work conn sec =>
      obtain rfl := Option.some.inj hstep
      exact hwf.runConn conn [] sec.frame
  | findStream cid =>
      rw [step] at hstep
      split at hstep
      · obtain rfl := Option.some.inj hstep
        exact hwf
      · obtain rfl := Option.some.inj hstep
        exact hwf
  | useStream lookup =>
      rw [step] at hstep
      split at hstep
      case isFalse => contradiction
      split at hstep
      · obtain rfl := Option.some.inj hstep
        exact hwf
      case h_2 conn htarget =>
        obtain rfl := Option.some.inj hstep
        apply WellFormed.onStream
        refine { hwf with handles := fun other hmem => ?_ }
        rcases List.mem_append.mp hmem with hold | hnew
        · exact hwf.handles other hold
        · rw [List.mem_singleton.mp hnew]
          rw [target] at htarget
          split at htarget
          · contradiction
          · exact hwf.cmap lookup.cid conn htarget
  | finishLogin lcid cid msgid data =>
      obtain ⟨server, hserver, rfl⟩ := Option.map_eq_some_iff.mp hstep
      exact Server.wellFormed_step hwf hserver
  | sysTask conn request =>
      obtain ⟨server, hserver, rfl⟩ := Option.map_eq_some_iff.mp hstep
      exact Server.wellFormed_step hwf hserver

/-- What a thread holds is there when it is used. -/
theorem Usable.derefsLive {action : Action} (husable : threads.Usable)
    (hstep : threads.step codec action = some next) :
    threads.DerefsLive action := by
  cases action with
  | useStream lookup =>
      rw [step] at hstep
      split at hstep
      case isFalse => contradiction
      case isTrue hmem =>
        obtain ⟨hopen, hentry⟩ := husable.lookups lookup hmem
        obtain ⟨conn, hconn⟩ := Option.ne_none_iff_exists'.mp hentry
        exact ⟨hopen, conn, hconn, husable.cmap lookup.cid conn hconn⟩
  | sysTask conn request =>
      obtain ⟨server, hserver, -⟩ := Option.map_eq_some_iff.mp hstep
      exact husable.finishing conn request (step_postLogin hserver).1
  | _ => trivial

/-! ## Every run of the server is a run of the threads -/

/-- Sections and lookups lead from one server to the other. -/
def Leads (codec : Codec) (server after : Server) : Prop :=
  ∀ lookups, ∃ actions lookups',
    exec (step codec) ⟨server, lookups⟩ actions = some ⟨after, lookups'⟩

theorem Leads.refl (server : Server) : Leads codec server server :=
  fun lookups => ⟨[], lookups, rfl⟩

theorem Leads.trans {first second third : Server}
    (hfirst : Leads codec first second)
    (hsecond : Leads codec second third) : Leads codec first third := by
  intro lookups
  obtain ⟨actions, middle, hmiddle⟩ := hfirst lookups
  obtain ⟨rest, final, hfinal⟩ := hsecond middle
  exact ⟨actions ++ rest, final,
    exec_append_eq_some.mpr ⟨⟨second, middle⟩, hmiddle, hfinal⟩⟩

theorem Leads.of_step {server after : Server} (action : Action)
    (hstep : ∀ lookups, ∃ lookups',
      step codec ⟨server, lookups⟩ action = some ⟨after, lookups'⟩) :
    Leads codec server after := by
  intro lookups
  obtain ⟨lookups', hnext⟩ := hstep lookups
  exact ⟨[action], lookups', exec_cons_eq_some.mpr ⟨_, hnext, rfl⟩⟩

theorem leads_section {server : Server} (conn : ConnId) (sec : Section) :
    Leads codec server (server.runConn conn [] sec.run) :=
  .of_step (.work conn sec) fun _ => ⟨_, rfl⟩

/-- The sections of a method are run one after the other. -/
theorem leads_sections {server : Server} {conn : ConnId} {before after : World}
    (hpath : Relation.ReflTransGen
      (fun first second => ∃ sec : Section, sec.run first = second)
      before after)
    (hresults : before.results = [])
    (hconn : server.conns conn = some before.self)
    (hreg : server.reg = before.reg) :
    after.results = [] ∧ Leads codec server
      { server with
        conns := Function.update server.conns conn (some after.self)
        reg := after.reg } := by
  induction hpath with
  | refl =>
      rw [← hreg, ← hconn, Function.update_eq_self]
      exact ⟨hresults, .refl server⟩
  | @tail middle last hpath hlast ih =>
      obtain ⟨sec, rfl⟩ := hlast
      obtain ⟨hnone, hmiddle⟩ := ih
      refine ⟨(Section.run_results sec middle).trans hnone, ?_⟩
      have hsection := @leads_section codec
        { server with
          conns := Function.update server.conns conn (some middle.self)
          reg := middle.reg } conn sec
      rw [runConn_of_some (Function.update_self _ _ _)] at hsection
      dsimp only at hsection
      rw [Function.update_idem, ← hnone] at hsection
      exact hmiddle.trans hsection

theorem leads_runConn {server : Server} (conn : ConnId)
    (results : List HandlerResult) {method : World → World}
    (hsections : ∀ world, Sections world (method world)) :
    Leads codec server (server.runConn conn results method) := by
  cases hconn : server.conns conn with
  | none =>
      rw [runConn_of_none hconn]
      exact .refl server
  | some self =>
      rw [runConn_of_some hconn]
      exact (leads_sections (hsections ⟨self, server.reg, results⟩) rfl hconn
        rfl).2

theorem leads_onStream {server : Server} (conn : ConnId)
    (change : SVStream → SVStream) :
    Leads codec server (server.onStream conn change) := by
  cases hconn : server.conns conn with
  | none =>
      rw [onStream_of_none hconn]
      exact .refl server
  | some self =>
      have hsection := @leads_section codec server conn
        (.own { self with stream := change self.stream })
      rw [runConn_of_some hconn, Section.run,
        if_pos ⟨rfl, rfl, rfl, rfl, rfl⟩] at hsection
      rwa [onStream_of_some hconn]

theorem leads_newConn {server : Server} (worker : WorkerId) :
    Leads codec server (server.newConn codec worker) :=
  .of_step (.launch worker) fun lookups => ⟨lookups, rfl⟩

theorem leads_shutdownLoop {server : Server} (worker : WorkerId)
    (results : ℕ → List HandlerResult) (fuel index : ℕ) :
    Leads codec server
      (server.shutdownLoop codec worker results fuel index) := by
  induction fuel generalizing index server with
  | zero => exact .refl server
  | succ fuel ih =>
      unfold Server.shutdownLoop
      split
      · exact .refl server
      case h_2 conn hvisited =>
        exact (leads_runConn conn (results index) Sections.kept.destroy).trans
          (ih (index + 1))

theorem leads_step {server after : Server} {action : Server.Action}
    (hstep : server.step codec action = some after) :
    Leads codec server after := by
  cases action with
  | launch worker =>
      obtain rfl := Option.some.inj hstep
      exact leads_newConn worker
  | complete conn ok request acceptor results =>
      obtain ⟨self, hconn, -, rfl⟩ := step_complete hstep
      rw [complete, hconn]
      dsimp only
      split
      · exact (leads_newConn self.worker).trans
          (leads_runConn conn results (Sections.process ok request acceptor))
      · exact leads_runConn conn results (Sections.process ok request acceptor)
  | consume conn results =>
      obtain ⟨-, -, -, rfl⟩ := step_consume hstep
      exact leads_runConn conn results Sections.consumeTask
  | shutdown worker results =>
      obtain ⟨-, -, rfl⟩ := step_shutdown hstep
      exact leads_shutdownLoop worker results _ 0
  | prepareShutdown worker =>
      exact .of_step (.prepareShutdown worker) fun lookups =>
        ⟨lookups, by rw [step, hstep]; rfl⟩
  | finishLogin lcid cid msgid data =>
      exact .of_step (.finishLogin lcid cid msgid data) fun lookups =>
        ⟨lookups, by rw [step, hstep]; rfl⟩
  | postLogin conn request =>
      exact .of_step (.sysTask conn request) fun lookups =>
        ⟨lookups, by rw [step, hstep]; rfl⟩
  | getStream cid =>
      rcases step_getStream hstep with ⟨-, rfl⟩ | ⟨conn, hentry, rfl⟩
      · exact .refl server
      · intro lookups
        refine ⟨[.findStream cid, .useStream ⟨cid, false⟩],
          (lookups ++ [Lookup.mk cid false]).erase (Lookup.mk cid false), ?_⟩
        rw [exec, step]
        dsimp only
        rw [hentry]
        dsimp only
        rw [exec, step]
        dsimp only
        rw [if_pos (List.mem_append_right _ List.mem_cons_self), target,
          if_neg Bool.false_ne_true]
        dsimp only
        rw [hentry]
        rfl
  | closeStream conn =>
      obtain ⟨-, rfl⟩ := step_closeStream hstep
      exact leads_onStream conn _
  | addTask conn request =>
      obtain rfl := Option.some.inj hstep
      exact leads_onStream conn _
  | send conn reply =>
      obtain rfl := Option.some.inj hstep
      exact leads_onStream conn _
  | writeDone conn ok =>
      obtain rfl := step_writeDone hstep
      exact leads_onStream conn _
  | closerDone conn ok =>
      obtain rfl := step_closerDone hstep
      exact leads_onStream conn _

/-- The threads reach every server that whole methods reach. -/
theorem leads_exec {server final : Server} {actions : List Server.Action}
    (hrun : exec (Server.step codec) server actions = some final) :
    Leads codec server final :=
  @exec_invariant _ _ _ (Leads codec server)
    (fun _ _ _ hleads hstep => hleads.trans (leads_step hstep)) _ _ _
    (.refl server) hrun

/-! ## What a thread can look at -/

/-- In every run in which the workers leave alone what is looked at, whatever a
thread holds or can find is there, and so is what it dereferences.  The first
part holds in no other run. -/
theorem lookups_live (codec : Codec) (actions : List Action) :
    (AllSteps (step codec) (fun _ _ next => next.Usable) init actions ↔
        AllSteps (step codec) (fun threads action _ =>
          threads.Undisturbed action) init actions) ∧
      (AllSteps (step codec) (fun threads action _ =>
          threads.Undisturbed action) init actions →
        AllSteps (step codec) (fun threads action _ =>
          threads.DerefsLive action) init actions) := by
  have hstep : ∀ (threads : Threads) (action : Action) (next : Threads),
      WellFormed threads.server ∧ threads.Usable →
        threads.step codec action = some next → threads.Undisturbed action →
          WellFormed next.server ∧ next.Usable := by
    rintro threads action next ⟨hwf, husable⟩ hstep hquiet
    exact ⟨wellFormed_step hwf hstep,
      (usable_step_iff hwf husable hstep).mpr hquiet⟩
  have hinit : WellFormed init.server ∧ init.Usable :=
    ⟨wellFormed_init, nofun, nofun, nofun, nofun⟩
  constructor
  · apply allSteps_iff_of_invariant hstep _ hinit
    exact fun threads action next hinv hstep =>
      usable_step_iff hinv.1 hinv.2 hstep
  · apply AllSteps.of_invariant hstep _ hinit
    exact fun threads action next hinv hstep _ => hinv.2.derefsLive hstep

private def loggedOn : Conn :=
  { waiter 0 0 with
    status := .read
    history := [.loginReturned 7] }

/-- A client logs in with the cid 7.  Another thread finds its stream, and
before it reads it the worker destroys the connection: the tasks are consumed,
`handler_->Close` is called, and `Unregister` and `delete this` follow. -/
private def overtaken : List Action :=
  [.launch 0, .work 0 (.own loggedOn), .work 0 .clearLoginCid,
    .work 0 (.register 7), .findStream 7,
    .work 0 (.own { loggedOn with
      cid := 7
      history := [.closed, .registered 7, .loginReturned 7] }),
    .work 0 .clearLoginCid, .work 0 .unregister, .work 0 .delete,
    .useStream ⟨7, true⟩]

theorem lookups_live_fails :
    ¬∀ actions, AllSteps (step Codec.small) (fun threads action _ =>
      threads.DerefsLive action) init actions := by
  intro hlive
  exact absurd (hlive overtaken) (by decide)

end Threads

end GrpcMtk
