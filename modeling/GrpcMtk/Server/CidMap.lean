import GrpcMtk.Core.Runs
import GrpcMtk.Server.Sections
import GrpcMtk.Server.System

/-!
# The latest registration

A client that reconnects registers its cid again, on another connection, and
the connection it had before is torn down at any time: `IServer::Unregister`
may find an entry that is not its own.  Here any number of connections run
their sections in any order, and `cmap_` is compared with what the order of the
`Register` and `Unregister` calls says.
-/

namespace GrpcMtk

open GrpcMtk.Runs

/-- One connection runs one section. -/
abbrev Call := ConnId × Section

/-- The connection that a call registers. -/
def Call.registrant : Call → Option ConnId
  | (conn, .register _) => some conn
  | (_, .own _) | (_, .newLoginCid) | (_, .clearLoginCid) | (_, .unregister)
  | (_, .delete) => none

/-- What a connection registers, it registers before `Destroy` unregisters
it. -/
def UnregisteredLast (calls : List Call) : Prop :=
  calls.Pairwise fun first second =>
    first.2 = .unregister → Call.registrant second ≠ some first.1

instance (calls : List Call) : Decidable (UnregisteredLast calls) :=
  inferInstanceAs (Decidable (calls.Pairwise _))

/-- All the connections, each made by the worker that it belongs to. -/
structure Pool where
  conns : ConnId → Conn
  reg : Registry

namespace Pool

def init (workers : ConnId → WorkerId) : Pool where
  conns conn := Conn.new conn (workers conn)
  reg := Server.init.reg

def work (pool : Pool) (call : Call) : Pool :=
  let world := call.2.run ⟨pool.conns call.1, pool.reg, []⟩
  { conns := Function.update pool.conns call.1 world.self
    reg := world.reg }

def run (workers : ConnId → WorkerId) (calls : List Call) : Pool :=
  calls.foldl work (init workers)

theorem run_concat (workers : ConnId → WorkerId) (calls : List Call)
    (call : Call) :
    run workers (calls ++ [call]) = (run workers calls).work call :=
  List.foldl_concat work (init workers) call calls

@[simp]
theorem work_conns_self (pool : Pool) (call : Call) :
    (pool.work call).conns call.1 =
      (call.2.run ⟨pool.conns call.1, pool.reg, []⟩).self :=
  Function.update_self _ _ _

theorem work_conns_of_ne (pool : Pool) (call : Call) {conn : ConnId}
    (hconn : conn ≠ call.1) : (pool.work call).conns conn = pool.conns conn :=
  Function.update_of_ne hconn _ _

end Pool

/-! ## What a section does to `cmap_` -/

namespace Section

theorem run_cid {sec : Section} (hregister : ∀ cid, sec ≠ .register cid)
    (world : World) : (sec.run world).self.cid = world.self.cid := by
  cases sec with
  | own self =>
      rw [run]
      split
      case isTrue hkeeps => exact hkeeps.2.2.1
      case isFalse => rfl
  | clearLoginCid =>
      rw [run, World.clearLoginCid]
      split <;> rfl
  | register cid => exact absurd rfl (hregister cid)
  | newLoginCid => rfl
  | unregister => rfl
  | delete => rfl

/-- Only `Register` and `Unregister` touch `cmap_`. -/
theorem run_cmap {sec : Section} (hregister : ∀ cid, sec ≠ .register cid)
    (hunregister : sec ≠ .unregister) (world : World) :
    (sec.run world).reg.cmap = world.reg.cmap := by
  cases sec with
  | own self =>
      rw [run]
      split <;> rfl
  | clearLoginCid =>
      rw [run, World.clearLoginCid]
      split <;> rfl
  | register cid => exact absurd rfl (hregister cid)
  | unregister => exact absurd rfl hunregister
  | newLoginCid => rfl
  | delete => rfl

end Section

namespace Pool

/-- A connection knows the only cid it may be filed under. -/
structure Filed (pool : Pool) (calls : List Call) : Prop where
  self : ∀ conn, (pool.conns conn).self = conn
  cid : ∀ conn cid, (conn, .register cid) ∈ calls →
    (pool.conns conn).cid = cid
  entry : ∀ cid conn, pool.reg.cmap cid = some conn ↔
    Since (conn, .register cid)
      (fun call => (∃ other, call = (other, .register cid)) ∨
        call = (conn, .unregister)) calls

theorem filed_init (workers : ConnId → WorkerId) :
    Filed (init workers) [] where
  self _ := rfl
  cid _ _ hmem := absurd hmem List.not_mem_nil
  entry cid conn := by
    rw [iff_false_right since_nil]
    exact Option.some_ne_none conn ∘ Eq.symm

section Steps

variable {pool : Pool} {calls : List Call}

/-- An entry of a connection stands at its own cid. -/
theorem Filed.cid_of_entry (hfiled : Filed pool calls) {cid : ℕ}
    {conn : ConnId} (hentry : pool.reg.cmap cid = some conn) :
    (pool.conns conn).cid = cid :=
  hfiled.cid conn cid ((hfiled.entry cid conn).mp hentry).mem

/-- `Unregister` takes out the entry of its connection, and no other. -/
theorem Filed.unregister_cmap (hfiled : Filed pool calls) (conn : ConnId)
    (cid : ℕ) (other : ConnId) :
    (pool.reg.unregister (pool.conns conn).cid conn).cmap cid = some other ↔
      pool.reg.cmap cid = some other ∧ other ≠ conn := by
  rw [Registry.unregister_cmap]
  split
  case isTrue hown =>
    by_cases hcid : cid = (pool.conns conn).cid
    · subst hcid
      rw [Function.update_self, hown]
      simp only [reduceCtorEq, Option.some.injEq, false_iff, not_and, not_not]
      exact Eq.symm
    · rw [Function.update_of_ne hcid, iff_self_and]
      rintro hentry rfl
      exact hcid (hfiled.cid_of_entry hentry).symm
  case isFalse hnot =>
    rw [iff_self_and]
    rintro hentry rfl
    rw [hfiled.cid_of_entry hentry] at hnot
    exact hnot hentry

/-- The objects keep who they are, and a cid they have registered. -/
theorem Filed.work_self (hfiled : Filed pool calls) (call : Call)
    (conn : ConnId) : ((pool.work call).conns conn).self = conn := by
  by_cases hconn : conn = call.1
  · subst hconn
    rw [work_conns_self]
    exact (Section.frame call.2 _).self.trans (hfiled.self call.1)
  · rw [work_conns_of_ne pool call hconn]
    exact hfiled.self conn

theorem Filed.work_cid (hfiled : Filed pool calls) (call : Call)
    (hfresh : ∀ conn ∈ call.registrant, ∀ cid, (conn, .register cid) ∉ calls)
    {conn : ConnId} {cid : ℕ}
    (hmem : (conn, .register cid) ∈ calls ++ [call]) :
    ((pool.work call).conns conn).cid = cid := by
  rcases List.mem_append.mp hmem with hbefore | hlast
  · have hold := hfiled.cid conn cid hbefore
    by_cases hconn : conn = call.1
    · subst hconn
      rw [work_conns_self, Section.run_cid]
      · exact hold
      · intro other hsec
        refine hfresh call.1 ?_ cid hbefore
        rw [← Prod.eta call, hsec]
        rfl
    · rw [work_conns_of_ne pool call hconn]
      exact hold
  · obtain rfl := List.mem_singleton.mp hlast
    exact congrArg Conn.cid (work_conns_self pool (conn, .register cid))

theorem Filed.work_entry (hfiled : Filed pool calls) (call : Call)
    (cid : ℕ) (conn : ConnId) :
    (pool.work call).reg.cmap cid = some conn ↔
      Since (conn, .register cid)
        (fun call => (∃ other, call = (other, .register cid)) ∨
          call = (conn, .unregister)) (calls ++ [call]) := by
  rw [since_concat, ← hfiled.entry]
  obtain ⟨worked, sec⟩ := call
  have hself := hfiled.self worked
  cases sec with
  | register key =>
      have hcmap : (pool.work (worked, .register key)).reg.cmap =
          Function.update pool.reg.cmap key
            (some (pool.conns worked).self) := rfl
      rw [hcmap, hself]
      by_cases hkey : cid = key
      · subst hkey
        simp [eq_comm]
      · rw [Function.update_of_ne hkey]
        simp [Ne.symm hkey]
  | unregister =>
      have hcmap : (pool.work (worked, .unregister)).reg.cmap =
          (pool.reg.unregister (pool.conns worked).cid
            (pool.conns worked).self).cmap := rfl
      rw [hcmap, hself, hfiled.unregister_cmap]
      simp [eq_comm]
  | _ =>
      rw [work, Section.run_cmap (by simp) (by simp)]
      simp

theorem filed_work (hfiled : Filed pool calls) (call : Call)
    (hfresh : ∀ conn ∈ call.registrant, ∀ cid,
      (conn, .register cid) ∉ calls) :
    Filed (pool.work call) (calls ++ [call]) where
  self := hfiled.work_self call
  cid _ _ := hfiled.work_cid call hfresh
  entry := hfiled.work_entry call

end Steps

theorem mem_registrants {calls : List Call} {conn : ConnId} {cid : ℕ}
    (hmem : (conn, .register cid) ∈ calls) :
    conn ∈ calls.filterMap Call.registrant :=
  List.mem_filterMap.mpr ⟨_, hmem, rfl⟩

theorem filed_run (workers : ConnId → WorkerId) (calls : List Call)
    (honce : (calls.filterMap Call.registrant).Nodup) :
    Filed (run workers calls) calls := by
  induction calls using List.reverseRecOn with
  | nil => exact filed_init workers
  | append_singleton calls call ih =>
      rw [List.filterMap_append, List.nodup_append] at honce
      obtain ⟨hbefore, -, hapart⟩ := honce
      rw [run_concat]
      refine filed_work (ih hbefore) call fun conn hconn cid hmem => ?_
      refine hapart conn (mem_registrants hmem) conn ?_ rfl
      exact List.mem_filterMap.mpr ⟨call, List.mem_singleton_self call, hconn⟩

/-- Whatever is registered and unregistered in whatever order, `cmap_` has for
each cid the connection that registered it last, unless that connection was
unregistered since.  If nothing is registered on a connection behind its
`Unregister`, no entry is one of a connection that was unregistered. -/
theorem latest_registration_wins (workers : ConnId → WorkerId)
    (calls : List Call) (honce : (calls.filterMap Call.registrant).Nodup) :
    (∀ cid conn, (run workers calls).reg.cmap cid = some conn ↔
      Since (conn, .register cid)
        (fun call => (∃ other, call = (other, .register cid)) ∨
          call = (conn, .unregister)) calls) ∧
      (UnregisteredLast calls →
        ∀ cid conn, (run workers calls).reg.cmap cid = some conn ↔
          Since (conn, .register cid)
              (fun call => ∃ other, call = (other, .register cid)) calls ∧
            (conn, .unregister) ∉ calls) := by
  have hfiled := filed_run workers calls honce
  refine ⟨hfiled.entry, fun hlast cid conn => ?_⟩
  rw [hfiled.entry]
  constructor
  · rintro ⟨before, after, rfl, hkept⟩
    refine ⟨⟨before, after, rfl, fun call hmem hother => ?_⟩, fun hgone => ?_⟩
    · exact hkept call hmem (Or.inl hother)
    · rcases List.mem_append.mp hgone with hbefore | hsince
      · have happart := (List.pairwise_append.mp hlast).2.2 _ hbefore _
          List.mem_cons_self
        exact happart rfl rfl
      · have hafter := List.mem_of_ne_of_mem (by simp) hsince
        exact hkept _ hafter (Or.inr rfl)
  · rintro ⟨⟨before, after, rfl, hkept⟩, hstays⟩
    refine ⟨before, after, rfl, ?_⟩
    rintro call hmem (hother | rfl)
    · exact hkept call hmem hother
    · exact hstays (List.mem_append_right _ (List.mem_cons_of_mem _ hmem))

/-- The client of connection 0 comes back on connection 1 before connection 0
is torn down; connection 2 never registered. -/
theorem latest_registration_wins_reconnect :
    (run (fun _ => 0)
        [(0, .register 7), (1, .register 7), (2, .unregister),
          (0, .unregister)]).reg.cmap 7 = some 1 ∧
      ∀ cid, (run (fun _ => 0)
        [(0, .register 7), (1, .register 7), (2, .unregister),
          (0, .unregister)]).reg.cmap cid ≠ some 0 := by
  have hlatest := latest_registration_wins (fun _ => 0)
    [(0, .register 7), (1, .register 7), (2, .unregister), (0, .unregister)]
    (by decide)
  constructor
  · refine (hlatest.2 (by decide) 7 1).mpr ⟨?_, by decide⟩
    exact ⟨[(0, .register 7)], [(2, .unregister), (0, .unregister)], rfl,
      by simp⟩
  · intro cid hentry
    exact ((hlatest.2 (by decide) cid 0).mp hentry).2 (by decide)

end Pool

end GrpcMtk
