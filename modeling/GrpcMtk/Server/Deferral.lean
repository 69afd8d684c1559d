import GrpcMtk.Core.Runs
import GrpcMtk.Server.Sections
import GrpcMtk.Server.System
import Mathlib.Data.List.Nodup

/-!
# Deferred logins

The acceptor defers a login, some thread finishes it later.  `pmap_` leads from
the login cid to the connection as a plain pointer, and `FinishLogin` uses the
pointer after it has released the mutex.

A `Conn *` is an address here: `new` may hand out the address of a connection
that was deleted.  A serial number tells the connections apart, and what is
deferred and enqueued is recorded by serial number.
-/

namespace GrpcMtk

open GrpcMtk.Proto
open GrpcMtk.Runs

namespace World

/-- `lcid_ = ++login_cid_seed_`. -/
def drawLoginCid (world : World) : World :=
  let lcid := (world.reg.loginCidSeed + 1) % 2 ^ 64
  { world with
    self.lcid := lcid
    reg := { world.reg with loginCidSeed := lcid } }

/-- The section of `NewLoginCid` under the mutex, and `OnWaitLogin`. -/
def fileLoginCid (world : World) : World :=
  { world with
    reg := { world.reg with
      pmap := Function.update world.reg.pmap world.self.lcid
        (some world.self.self)
      }.onRegister world.self.worker world.self.self }

theorem newLoginCid_eq (world : World) :
    world.newLoginCid = world.drawLoginCid.fileLoginCid := rfl

end World

/-- The connection at an address. -/
structure Tenant where
  serial : ℕ
  conn : Conn
  /-- Its worker is in `NewLoginCid`, between the two parts. -/
  filing : Bool

/-- The connections by address and what the threads share. -/
structure Deferrals where
  tenants : ConnId → Option Tenant
  made : ℕ
  reg : Registry
  /-- `FinishLogin` calls between `pmap_.erase` and `mc->SysTask`. -/
  finishing : List (ConnId × SystemPayload.Login)
  /-- The login cids drawn so far, each with the connection that drew it. -/
  deferred : List (ℕ × ℕ)
  /-- The Login tasks enqueued so far, each with the connection it was
  enqueued on. -/
  enqueued : List (ℕ × SystemPayload.Login)

namespace Deferrals

def init : Deferrals where
  tenants _ := none
  made := 0
  reg := Server.init.reg
  finishing := []
  deferred := []
  enqueued := []

inductive Action where
  /-- `new Conn`. -/
  | make (address : ConnId) (worker : WorkerId)
  | drawLoginCid (address : ConnId)
  | fileLoginCid (address : ConnId)
  /-- The worker of a connection runs some other section. -/
  | work (address : ConnId) (sec : Section)
  /-- `FinishLogin` up to the unlock. -/
  | finishLogin (lcid cid msgid : ℕ) (data : Bytes)
  /-- `FinishLogin` calls `mc->SysTask`. -/
  | sysTask (address : ConnId) (request : SystemPayload.Login)
  deriving DecidableEq

def put (state : Deferrals) (address : ConnId) (tenant : Tenant) :
    Deferrals :=
  { state with
    tenants := Function.update state.tenants address (some tenant) }

/-- What a pointer without a connection behind it leads to is not defined; no
connection gets the task. -/
def step (state : Deferrals) : Action → Option Deferrals
  | .make address worker =>
      match state.tenants address with
      | some _ => none
      | none =>
          some ({ state with made := state.made + 1 }.put address
            ⟨state.made, Conn.new address worker, false⟩)
  | .drawLoginCid address =>
      match state.tenants address with
      | none => none
      | some tenant =>
          if tenant.filing then none
          else
            let world := World.drawLoginCid ⟨tenant.conn, state.reg, []⟩
            some ({ state with
              reg := world.reg
              deferred := (world.self.lcid, tenant.serial) :: state.deferred
              }.put address { tenant with conn := world.self, filing := true })
  | .fileLoginCid address =>
      match state.tenants address with
      | none => none
      | some tenant =>
          if tenant.filing then
            let world := World.fileLoginCid ⟨tenant.conn, state.reg, []⟩
            some ({ state with reg := world.reg }.put address
              { tenant with conn := world.self, filing := false })
          else none
  | .work address sec =>
      match state.tenants address with
      | none => none
      | some tenant =>
          if tenant.filing ∨ sec = .newLoginCid then none
          else
            let world := sec.run ⟨tenant.conn, state.reg, []⟩
            if sec = .delete then
              some { state with
                tenants := Function.update state.tenants address none
                reg := world.reg }
            else
              some ({ state with reg := world.reg }.put address
                { tenant with conn := world.self })
  | .finishLogin lcid cid msgid data =>
      match state.reg.pmap lcid with
      | none => some state
      | some address =>
          some { state with
            reg := { state.reg with
              pmap := Function.update state.reg.pmap lcid none }
            finishing := state.finishing ++
              [(address,
                { loginCid := lcid, id := cid, msgid, payload := data })] }
  | .sysTask address request =>
      if state.finishing.contains (address, request) then
        let state :=
          { state with finishing := state.finishing.erase (address, request) }
        match state.tenants address with
        | none => some state
        | some tenant =>
            some ({ state with
              enqueued := state.enqueued ++ [(tenant.serial, request)]
              }.put address
                { tenant with
                  conn.stream :=
                    tenant.conn.stream.enqueue (.login (some request)) })
      else none

/-- What `FinishLogin` was called with. -/
def Action.call : Action → List SystemPayload.Login
  | .finishLogin lcid cid msgid data =>
      [{ loginCid := lcid, id := cid, msgid, payload := data }]
  | .make .. | .drawLoginCid _ | .fileLoginCid _ | .work .. | .sysTask .. => []

/-- The condition on one action.  A connection is deleted when `pmap_` has no
entry for it and no `FinishLogin` call holds it, and `login_cid_seed_` has not
come round. -/
def Unheld (state : Deferrals) : Action → Prop
  | .work address .delete =>
      (∀ lcid, state.reg.pmap lcid ≠ some address) ∧
        ∀ request, (address, request) ∉ state.finishing
  | .drawLoginCid _ => state.deferred.length + 1 < 2 ^ 64
  | _ => True

/-- The Login tasks that `FinishLogin` has enqueued or is about to enqueue. -/
def answers (state : Deferrals) : List SystemPayload.Login :=
  state.finishing.map Prod.snd ++ state.enqueued.map Prod.snd

/-- No `FinishLogin` call has found this login cid. -/
def Unanswered (state : Deferrals) (lcid : ℕ) : Prop :=
  ∀ request ∈ state.answers, request.loginCid ≠ lcid

/-- The connection with this serial number is at this address. -/
def At (state : Deferrals) (address : ConnId) (serial : ℕ) : Prop :=
  ∃ tenant ∈ state.tenants address, tenant.serial = serial

end Deferrals

/-! ## What a section does to `pmap_` -/

namespace Section

/-- Only `NewLoginCid` files a connection. -/
theorem run_pmap {sec : Section} (hsec : sec ≠ .newLoginCid) {world : World}
    {lcid : ℕ} {conn : ConnId}
    (hentry : (sec.run world).reg.pmap lcid = some conn) :
    world.reg.pmap lcid = some conn := by
  cases sec with
  | own self =>
      rw [run] at hentry
      split at hentry <;> exact hentry
  | newLoginCid => contradiction
  | clearLoginCid =>
      rw [run, World.clearLoginCid] at hentry
      split at hentry
      · exact hentry
      · dsimp only [Registry.onUnregister] at hentry
        by_cases hlcid : lcid = world.self.lcid
        · rw [hlcid, Function.update_self] at hentry
          contradiction
        · rwa [Function.update_of_ne hlcid] at hentry
  | register cid => exact hentry
  | unregister =>
      rwa [run, Registry.onUnregister, Registry.unregister_pmap] at hentry
  | delete => exact hentry

theorem run_seed {sec : Section} (hsec : sec ≠ .newLoginCid) (world : World) :
    (sec.run world).reg.loginCidSeed = world.reg.loginCidSeed := by
  cases sec with
  | newLoginCid => contradiction
  | own self =>
      rw [run]
      split <;> rfl
  | clearLoginCid =>
      rw [run, World.clearLoginCid]
      split <;> rfl
  | unregister => exact Registry.unregister_loginCidSeed _ _ _
  | register cid => rfl
  | delete => rfl

end Section

namespace Deferrals

theorem put_self (state : Deferrals) (address : ConnId) (tenant : Tenant) :
    (state.put address tenant).tenants address = some tenant :=
  Function.update_self _ _ _

theorem put_of_ne (state : Deferrals) {address other : ConnId}
    (hother : other ≠ address) (tenant : Tenant) :
    (state.put address tenant).tenants other = state.tenants other :=
  Function.update_of_ne hother _ _

theorem put_tenants {state : Deferrals} {address other : ConnId}
    {tenant found : Tenant}
    (hfound : (state.put address tenant).tenants other = some found) :
    other = address ∧ found = tenant ∨
      other ≠ address ∧ state.tenants other = some found := by
  by_cases hother : other = address
  · subst hother
    rw [put_self] at hfound
    exact Or.inl ⟨rfl, (Option.some.inj hfound).symm⟩
  · rw [put_of_ne state hother] at hfound
    exact Or.inr ⟨hother, hfound⟩

theorem at_iff {state : Deferrals} {address : ConnId} {tenant : Tenant}
    (htenant : state.tenants address = some tenant) (serial : ℕ) :
    state.At address serial ↔ tenant.serial = serial := by
  rw [At, htenant]
  exact ⟨fun ⟨_, hmem, hserial⟩ => Option.some.inj hmem ▸ hserial,
    fun hserial => ⟨tenant, rfl, hserial⟩⟩

theorem At.unique {state : Deferrals} {address : ConnId} {serial other : ℕ}
    (hserial : state.At address serial) (hother : state.At address other) :
    serial = other := by
  obtain ⟨tenant, htenant, rfl⟩ := hserial
  exact (at_iff htenant other).mp hother

theorem at_put_iff {state before : Deferrals} {address : ConnId}
    {tenant after : Tenant} (htenants : before.tenants = state.tenants)
    (htenant : state.tenants address = some tenant)
    (hserial : after.serial = tenant.serial) (other : ConnId) (serial : ℕ) :
    (before.put address after).At other serial ↔ state.At other serial := by
  by_cases hother : other = address
  · subst hother
    rw [at_iff (put_self _ _ _), at_iff htenant, hserial]
  · rw [At, At, put_of_ne _ hother, htenants]

/-- A login cid is in one place at a time: with the worker that files it, in
`pmap_`, with the `FinishLogin` call that found it or in the task it became.
`calls` are the `FinishLogin` calls made so far. -/
structure Coherent (calls : List SystemPayload.Login) (state : Deferrals) :
    Prop where
  self : ∀ address tenant, state.tenants address = some tenant →
    tenant.conn.self = address
  below : ∀ address serial, state.At address serial → serial < state.made
  apart : ∀ address other serial, state.At address serial →
    state.At other serial → address = other
  seed : state.reg.loginCidSeed = state.deferred.length
  drawn : ∀ lcid serial, (lcid, serial) ∈ state.deferred →
    lcid ≤ state.deferred.length
  distinct : (state.deferred.map Prod.fst).Nodup
  filing : ∀ address tenant, state.tenants address = some tenant →
    tenant.filing = true →
      (tenant.conn.lcid, tenant.serial) ∈ state.deferred ∧
        state.Unanswered tenant.conn.lcid ∧
        state.reg.pmap tenant.conn.lcid = none
  pending : ∀ lcid address, state.reg.pmap lcid = some address →
    ∃ serial, state.At address serial ∧ (lcid, serial) ∈ state.deferred ∧
      state.Unanswered lcid
  taken : ∀ address request, (address, request) ∈ state.finishing →
    ∃ serial, state.At address serial ∧
      (request.loginCid, serial) ∈ state.deferred ∧ request ∈ calls
  answered : (state.answers.map SystemPayload.Login.loginCid).Nodup
  done : ∀ serial request, (serial, request) ∈ state.enqueued →
    (request.loginCid, serial) ∈ state.deferred ∧ request ∈ calls

theorem not_at_init (address : ConnId) (serial : ℕ) :
    ¬init.At address serial := by
  rintro ⟨tenant, hmem, -⟩
  contradiction

theorem coherent_init : Coherent [] init where
  self _ _ hnone := absurd hnone (by simp [init])
  below address serial hat := absurd hat (not_at_init address serial)
  apart address _ serial hat := absurd hat (not_at_init address serial)
  seed := rfl
  drawn _ _ hmem := absurd hmem List.not_mem_nil
  distinct := List.nodup_nil
  filing _ _ hnone := absurd hnone (by simp [init])
  pending _ _ hnone := absurd hnone (by simp [init, Server.init])
  taken _ _ hmem := absurd hmem List.not_mem_nil
  answered := List.nodup_nil
  done _ _ hmem := absurd hmem List.not_mem_nil

section Steps

variable {calls : List SystemPayload.Login} {state : Deferrals}

/-- A login cid belongs to one connection. -/
theorem Coherent.serial_of_lcid (hcoherent : Coherent calls state)
    {lcid serial other : ℕ} (hserial : (lcid, serial) ∈ state.deferred)
    (hother : (lcid, other) ∈ state.deferred) : serial = other :=
  congrArg Prod.snd
    (List.inj_on_of_nodup_map hcoherent.distinct hserial hother rfl)

theorem Coherent.lcid_of_answer (hcoherent : Coherent calls state)
    {request : SystemPayload.Login} (hmem : request ∈ state.answers) :
    ∃ serial, (request.loginCid, serial) ∈ state.deferred := by
  rcases List.mem_append.mp hmem with hfinishing | henqueued
  · obtain ⟨⟨address, request⟩, hcall, rfl⟩ := List.mem_map.mp hfinishing
    obtain ⟨serial, -, hdeferred, -⟩ := hcoherent.taken address request hcall
    exact ⟨serial, hdeferred⟩
  · obtain ⟨⟨serial, request⟩, htask, rfl⟩ := List.mem_map.mp henqueued
    exact ⟨serial, (hcoherent.done serial request htask).1⟩

/-- A login cid that was not drawn, or that has its task, is not in `pmap_`. -/
theorem Coherent.pmap_eq_none (hcoherent : Coherent calls state) {lcid : ℕ}
    (hover : (∀ serial, (lcid, serial) ∉ state.deferred) ∨
      lcid ∈ state.enqueued.map fun task => task.2.loginCid) :
    state.reg.pmap lcid = none := by
  refine Option.eq_none_iff_forall_ne_some.mpr fun address hentry => ?_
  obtain ⟨serial, -, hdeferred, hopen⟩ :=
    hcoherent.pending lcid address hentry
  rcases hover with hnever | hmem
  · exact hnever serial hdeferred
  · obtain ⟨task, htask, hlcid⟩ := List.mem_map.mp hmem
    exact hopen task.2
      (List.mem_append_right _ (List.mem_map_of_mem htask)) hlcid

/-- Every connection knows its own address. -/
theorem Coherent.self_put (hcoherent : Coherent calls state)
    {before : Deferrals} {address other : ConnId} {after found : Tenant}
    (hfound : (before.put address after).tenants other = some found)
    (htenants : before.tenants = state.tenants)
    (hself : after.conn.self = address) : found.conn.self = other := by
  rcases put_tenants hfound with ⟨rfl, rfl⟩ | ⟨-, hfound⟩
  · exact hself
  · exact hcoherent.self other found (htenants ▸ hfound)

/-- A connection is changed in place and is not put into `pmap_`. -/
theorem Coherent.touch (hcoherent : Coherent calls state) {address : ConnId}
    {tenant after : Tenant} {reg : Registry}
    (htenant : state.tenants address = some tenant)
    (hself : after.conn.self = tenant.conn.self)
    (hserial : after.serial = tenant.serial)
    (hfiling : after.filing = true →
      tenant.filing = true ∧ after.conn.lcid = tenant.conn.lcid)
    (hseed : reg.loginCidSeed = state.reg.loginCidSeed)
    (hpmap : ∀ lcid other, reg.pmap lcid = some other →
      state.reg.pmap lcid = some other) :
    Coherent calls ({ state with reg := reg }.put address after) := by
  have hat := @at_put_iff state { state with reg := reg } address tenant
    after rfl htenant hserial
  refine
    { hcoherent with
      self := fun other found hfound => hcoherent.self_put hfound rfl
        (hself.trans (hcoherent.self address tenant htenant))
      below := fun other serial h => hcoherent.below _ _ ((hat _ _).mp h)
      apart := fun first second serial hfirst hsecond =>
        hcoherent.apart _ _ _ ((hat _ _).mp hfirst) ((hat _ _).mp hsecond)
      seed := hseed.trans hcoherent.seed
      filing := fun other found hfound hfiles => ?_
      pending := fun lcid other hentry => ?_
      taken := fun other request hmem => ?_ }
  · have hkept : ∀ lcid, state.reg.pmap lcid = none → reg.pmap lcid = none :=
      fun lcid hnone => Option.eq_none_iff_forall_ne_some.mpr
        fun entry hentry => absurd (hpmap lcid entry hentry) (by simp [hnone])
    rcases put_tenants hfound with ⟨rfl, rfl⟩ | ⟨-, hfound⟩
    · obtain ⟨hwas, hlcid⟩ := hfiling hfiles
      obtain ⟨hdeferred, hunanswered, hnone⟩ :=
        hcoherent.filing _ tenant htenant hwas
      rw [hserial, hlcid]
      exact ⟨hdeferred, hunanswered, hkept _ hnone⟩
    · obtain ⟨hdeferred, hunanswered, hnone⟩ :=
        hcoherent.filing other found hfound hfiles
      exact ⟨hdeferred, hunanswered, hkept _ hnone⟩
  · obtain ⟨serial, hthere, hpending⟩ :=
      hcoherent.pending lcid other (hpmap lcid other hentry)
    exact ⟨serial, (hat _ _).mpr hthere, hpending⟩
  · obtain ⟨serial, hthere, htaken⟩ := hcoherent.taken other request hmem
    exact ⟨serial, (hat _ _).mpr hthere, htaken⟩

/-- A new connection at an address that is free. -/
theorem Coherent.make (hcoherent : Coherent calls state) {address : ConnId}
    (hfree : state.tenants address = none) (worker : WorkerId) :
    Coherent calls ({ state with made := state.made + 1 }.put address
      ⟨state.made, Conn.new address worker, false⟩) := by
  have hat : ∀ other serial,
      ({ state with made := state.made + 1 }.put address
        ⟨state.made, Conn.new address worker, false⟩).At other serial ↔
      other = address ∧ serial = state.made ∨ state.At other serial := by
    intro other serial
    by_cases hother : other = address
    · subst hother
      have hnone : ¬state.At other serial := by
        rw [At, hfree]
        rintro ⟨tenant, hmem, -⟩
        contradiction
      rw [at_iff (put_self _ _ _), or_iff_left hnone, and_iff_right rfl]
      exact eq_comm
    · rw [At, At, put_of_ne _ hother]
      exact (or_iff_right fun h => hother h.1).symm
  refine
    { hcoherent with
      self := fun other found hfound => hcoherent.self_put hfound rfl rfl
      below := fun other serial h => ?_
      apart := fun first second serial hfirst hsecond => ?_
      filing := fun other found hfound hfiles => ?_
      pending := fun lcid other hentry => ?_
      taken := fun other request hmem => ?_ }
  · rcases (hat _ _).mp h with ⟨-, rfl⟩ | hold
    · exact Nat.lt_succ_self _
    · exact Nat.lt_succ_of_lt (hcoherent.below _ _ hold)
  · rcases (hat _ _).mp hfirst with ⟨hhere, hnew⟩ | hleft <;>
      rcases (hat _ _).mp hsecond with ⟨hthere, hmade⟩ | hright
    · exact hhere.trans hthere.symm
    · exact absurd hnew (Nat.ne_of_lt (hcoherent.below _ _ hright))
    · exact absurd hmade (Nat.ne_of_lt (hcoherent.below _ _ hleft))
    · exact hcoherent.apart _ _ _ hleft hright
  · rcases put_tenants hfound with ⟨rfl, rfl⟩ | ⟨-, hfound⟩
    · contradiction
    · exact hcoherent.filing other found hfound hfiles
  · obtain ⟨serial, hthere, hpending⟩ := hcoherent.pending lcid other hentry
    exact ⟨serial, (hat _ _).mpr (Or.inr hthere), hpending⟩
  · obtain ⟨serial, hthere, htaken⟩ := hcoherent.taken other request hmem
    exact ⟨serial, (hat _ _).mpr (Or.inr hthere), htaken⟩

/-- The next login cid was never drawn, so it is nowhere. -/
theorem Coherent.draw (hcoherent : Coherent calls state) {address : ConnId}
    {tenant : Tenant} (htenant : state.tenants address = some tenant)
    {lcid : ℕ} (hlcid : lcid = state.deferred.length + 1) :
    Coherent calls ({ state with
      reg := { state.reg with loginCidSeed := lcid }
      deferred := (lcid, tenant.serial) :: state.deferred
      }.put address
        { tenant with
          conn := { tenant.conn with lcid := lcid }
          filing := true }) := by
  have hfresh : ∀ serial, (lcid, serial) ∉ state.deferred := by
    intro serial hmem
    have hbelow := hcoherent.drawn _ serial hmem
    omega
  have hnone := hcoherent.pmap_eq_none (Or.inl hfresh)
  have hunanswered : state.Unanswered lcid := by
    rintro request hmem hsame
    obtain ⟨serial, hdeferred⟩ := hcoherent.lcid_of_answer hmem
    exact hfresh serial (hsame ▸ hdeferred)
  have hat := @at_put_iff state
    { state with
      reg := { state.reg with loginCidSeed := lcid }
      deferred := (lcid, tenant.serial) :: state.deferred } address tenant
    { tenant with conn := { tenant.conn with lcid := lcid }, filing := true }
    rfl htenant rfl
  refine
    { hcoherent with
      self := fun other found hfound => hcoherent.self_put hfound rfl
        (hcoherent.self address tenant htenant)
      below := fun other serial h => hcoherent.below _ _ ((hat _ _).mp h)
      apart := fun first second serial hfirst hsecond =>
        hcoherent.apart _ _ _ ((hat _ _).mp hfirst) ((hat _ _).mp hsecond)
      seed := hlcid
      drawn := fun other serial hmem => ?_
      distinct := ?_
      filing := fun other found hfound hfiles => ?_
      pending := fun key other hentry => ?_
      taken := fun other request hmem => ?_
      done := fun serial request hmem => ?_ }
  · rcases List.mem_cons.mp hmem with hnew | hold
    · exact Nat.le_of_eq ((congrArg Prod.fst hnew).trans hlcid)
    · exact Nat.le_succ_of_le (hcoherent.drawn other serial hold)
  · refine List.nodup_cons.mpr ⟨fun hmem => ?_, hcoherent.distinct⟩
    obtain ⟨⟨_, serial⟩, hold, rfl⟩ := List.mem_map.mp hmem
    exact hfresh serial hold
  · rcases put_tenants hfound with ⟨rfl, rfl⟩ | ⟨-, hfound⟩
    · exact ⟨List.mem_cons_self, hunanswered, hnone⟩
    · obtain ⟨hdeferred, hfiled⟩ :=
        hcoherent.filing other found hfound hfiles
      exact ⟨List.mem_cons_of_mem _ hdeferred, hfiled⟩
  · obtain ⟨serial, hthere, hdeferred, hopen⟩ :=
      hcoherent.pending key other hentry
    exact ⟨serial, (hat _ _).mpr hthere, List.mem_cons_of_mem _ hdeferred,
      hopen⟩
  · obtain ⟨serial, hthere, hdeferred, hcall⟩ :=
      hcoherent.taken other request hmem
    exact ⟨serial, (hat _ _).mpr hthere, List.mem_cons_of_mem _ hdeferred,
      hcall⟩
  · obtain ⟨hdeferred, hcall⟩ := hcoherent.done serial request hmem
    exact ⟨List.mem_cons_of_mem _ hdeferred, hcall⟩

/-- The worker puts the login cid it has drawn into `pmap_`. -/
theorem Coherent.file (hcoherent : Coherent calls state) {address : ConnId}
    {tenant : Tenant} (htenant : state.tenants address = some tenant)
    (hfiling : tenant.filing = true) {reg : Registry}
    (hseed : reg.loginCidSeed = state.reg.loginCidSeed)
    (hpmap : reg.pmap = Function.update state.reg.pmap tenant.conn.lcid
      (some tenant.conn.self)) :
    Coherent calls ({ state with reg := reg }.put address
      { tenant with filing := false }) := by
  obtain ⟨hdeferred, hunanswered, -⟩ :=
    hcoherent.filing address tenant htenant hfiling
  have hself := hcoherent.self address tenant htenant
  have hhere := (at_iff htenant tenant.serial).mpr rfl
  have hat := @at_put_iff state { state with reg := reg } address tenant
    { tenant with filing := false } rfl htenant rfl
  refine
    { hcoherent with
      self := fun other found hfound => hcoherent.self_put hfound rfl hself
      below := fun other serial h => hcoherent.below _ _ ((hat _ _).mp h)
      apart := fun first second serial hfirst hsecond =>
        hcoherent.apart _ _ _ ((hat _ _).mp hfirst) ((hat _ _).mp hsecond)
      seed := hseed.trans hcoherent.seed
      filing := fun other found hfound hfiles => ?_
      pending := fun key other hentry => ?_
      taken := fun other request hmem => ?_ }
  · rcases put_tenants hfound with ⟨rfl, rfl⟩ | ⟨hother, hfound⟩
    · contradiction
    · obtain ⟨hmem, hopen, hnone⟩ := hcoherent.filing other found hfound hfiles
      have hapart : found.conn.lcid ≠ tenant.conn.lcid := by
        intro hsame
        rw [hsame] at hmem
        have hthere := (at_iff hfound tenant.serial).mpr
          (hcoherent.serial_of_lcid hmem hdeferred)
        exact hother (hcoherent.apart _ _ _ hthere hhere)
      refine ⟨hmem, hopen, ?_⟩
      change reg.pmap _ = none
      rw [hpmap, Function.update_of_ne hapart]
      exact hnone
  · change reg.pmap key = some other at hentry
    rw [hpmap] at hentry
    by_cases hkey : key = tenant.conn.lcid
    · subst hkey
      rw [Function.update_self, hself] at hentry
      obtain rfl := Option.some.inj hentry
      exact ⟨tenant.serial, (hat _ _).mpr hhere, hdeferred, hunanswered⟩
    · rw [Function.update_of_ne hkey] at hentry
      obtain ⟨serial, hthere, hpending⟩ := hcoherent.pending key other hentry
      exact ⟨serial, (hat _ _).mpr hthere, hpending⟩
  · obtain ⟨serial, hthere, htaken⟩ := hcoherent.taken other request hmem
    exact ⟨serial, (hat _ _).mpr hthere, htaken⟩

/-- A connection that no thread can reach any more is deleted. -/
theorem Coherent.delete (hcoherent : Coherent calls state) {address : ConnId}
    (hpmap : ∀ lcid, state.reg.pmap lcid ≠ some address)
    (hfinishing : ∀ request, (address, request) ∉ state.finishing) :
    Coherent calls { state with
      tenants := Function.update state.tenants address none } := by
  have hlookup : ∀ other found,
      Function.update state.tenants address none other = some found →
        state.tenants other = some found := by
    intro other found hfound
    by_cases hother : other = address
    · rw [hother, Function.update_self] at hfound
      contradiction
    · rwa [Function.update_of_ne hother] at hfound
  have hat : ∀ other serial,
      Deferrals.At { state with
        tenants := Function.update state.tenants address none } other serial →
      state.At other serial :=
    fun other serial ⟨found, hfound, hserial⟩ =>
      ⟨found, hlookup other found hfound, hserial⟩
  have hstays : ∀ other serial, other ≠ address → state.At other serial →
      Deferrals.At { state with
        tenants := Function.update state.tenants address none }
          other serial := by
    rintro other serial hother ⟨found, hfound, hserial⟩
    exact ⟨found, (Function.update_of_ne hother _ _).trans hfound, hserial⟩
  refine
    { hcoherent with
      self := fun other found hfound =>
        hcoherent.self other found (hlookup other found hfound)
      below := fun other serial h => hcoherent.below _ _ (hat _ _ h)
      apart := fun first second serial hfirst hsecond =>
        hcoherent.apart _ _ _ (hat _ _ hfirst) (hat _ _ hsecond)
      filing := fun other found hfound hfiles =>
        hcoherent.filing other found (hlookup other found hfound) hfiles
      pending := fun lcid other hentry => ?_
      taken := fun other request hmem => ?_ }
  · obtain ⟨serial, hthere, hpending⟩ := hcoherent.pending lcid other hentry
    refine ⟨serial, hstays other serial ?_ hthere, hpending⟩
    rintro rfl
    exact hpmap lcid hentry
  · obtain ⟨serial, hthere, htaken⟩ := hcoherent.taken other request hmem
    refine ⟨serial, hstays other serial ?_ hthere, htaken⟩
    rintro rfl
    exact hfinishing request hmem

/-- One more call of `FinishLogin`, whatever becomes of it. -/
theorem Coherent.called (hcoherent : Coherent calls state)
    (request : SystemPayload.Login) : Coherent (calls ++ [request]) state := by
  refine
    { hcoherent with
      taken := fun other call hmem => ?_
      done := fun serial call hmem => ?_ }
  · obtain ⟨serial, hthere, hdeferred, hcall⟩ :=
      hcoherent.taken other call hmem
    exact ⟨serial, hthere, hdeferred, List.mem_append_left _ hcall⟩
  · obtain ⟨hdeferred, hcall⟩ := hcoherent.done serial call hmem
    exact ⟨hdeferred, List.mem_append_left _ hcall⟩

/-- A `FinishLogin` call finds a connection and takes it out of `pmap_`. -/
theorem Coherent.find (hcoherent : Coherent calls state) {address : ConnId}
    {request : SystemPayload.Login}
    (hentry : state.reg.pmap request.loginCid = some address) :
    Coherent (calls ++ [request]) { state with
      reg := { state.reg with
        pmap := Function.update state.reg.pmap request.loginCid none }
      finishing := state.finishing ++ [(address, request)] } := by
  obtain ⟨serial, hthere, hdeferred, hopen⟩ :=
    hcoherent.pending request.loginCid address hentry
  have hanswers : (Deferrals.answers { state with
      reg := { state.reg with
        pmap := Function.update state.reg.pmap request.loginCid none }
      finishing := state.finishing ++ [(address, request)] }).Perm
        (request :: state.answers) := by
    rw [answers, answers, List.map_append, List.append_assoc]
    exact List.perm_middle
  have hunanswered : ∀ lcid, lcid ≠ request.loginCid →
      state.Unanswered lcid → Deferrals.Unanswered { state with
        reg := { state.reg with
          pmap := Function.update state.reg.pmap request.loginCid none }
        finishing := state.finishing ++ [(address, request)] } lcid := by
    intro lcid hlcid hnone other hmem
    rcases List.mem_cons.mp (hanswers.mem_iff.mp hmem) with rfl | hold
    · exact hlcid.symm
    · exact hnone other hold
  have hcalled := hcoherent.called request
  refine
    { hcalled with
      filing := fun other found hfound hfiles => ?_
      pending := fun lcid other hother => ?_
      taken := fun other call hmem => ?_
      answered := ?_ }
  · obtain ⟨hmem, hunfound, hnone⟩ :=
      hcoherent.filing other found hfound hfiles
    have hapart : found.conn.lcid ≠ request.loginCid := by
      intro hsame
      rw [hsame, hentry] at hnone
      contradiction
    refine ⟨hmem, hunanswered _ hapart hunfound, ?_⟩
    exact (Function.update_of_ne hapart _ _).trans hnone
  · dsimp only at hother
    by_cases hlcid : lcid = request.loginCid
    · rw [hlcid, Function.update_self] at hother
      contradiction
    · rw [Function.update_of_ne hlcid] at hother
      obtain ⟨number, hat, hmem, hunfound⟩ :=
        hcoherent.pending lcid other hother
      exact ⟨number, hat, hmem, hunanswered lcid hlcid hunfound⟩
  · rcases List.mem_append.mp hmem with hold | hnew
    · exact hcalled.taken other call hold
    · obtain ⟨rfl, rfl⟩ := Prod.mk.inj (List.mem_singleton.mp hnew)
      exact ⟨serial, hthere, hdeferred,
        List.mem_append_right _ (List.mem_singleton_self _)⟩
  · rw [(hanswers.map _).nodup_iff, List.map_cons, List.nodup_cons]
    refine ⟨fun hmem => ?_, hcoherent.answered⟩
    obtain ⟨other, hother, hsame⟩ := List.mem_map.mp hmem
    exact hopen other hother hsame

/-- The call enqueues its task on the connection it has found. -/
theorem Coherent.post (hcoherent : Coherent calls state) {address : ConnId}
    {serial : ℕ} {request : SystemPayload.Login}
    (hthere : state.At address serial)
    (hmem : (address, request) ∈ state.finishing) :
    Coherent calls { state with
      finishing := state.finishing.erase (address, request)
      enqueued := state.enqueued ++ [(serial, request)] } := by
  have hanswers : (Deferrals.answers { state with
      finishing := state.finishing.erase (address, request)
      enqueued := state.enqueued ++ [(serial, request)] }).Perm
        state.answers := by
    have hsplit := (List.perm_cons_erase hmem).map Prod.snd
    rw [answers, answers, List.map_append, ← List.append_assoc]
    exact (List.perm_append_singleton request _).trans
      (hsplit.append_right _).symm
  have hunanswered : ∀ lcid, state.Unanswered lcid →
      Deferrals.Unanswered { state with
        finishing := state.finishing.erase (address, request)
        enqueued := state.enqueued ++ [(serial, request)] } lcid :=
    fun lcid hnone other hother =>
      hnone other (hanswers.mem_iff.mp hother)
  refine
    { hcoherent with
      filing := fun other found hfound hfiles => ?_
      pending := fun lcid other hother => ?_
      taken := fun other call hcall =>
        hcoherent.taken other call (List.mem_of_mem_erase hcall)
      answered := ?_
      done := fun number call hcall => ?_ }
  · obtain ⟨hdeferred, hopen, hnone⟩ :=
      hcoherent.filing other found hfound hfiles
    exact ⟨hdeferred, hunanswered _ hopen, hnone⟩
  · obtain ⟨number, hat, hdeferred, hopen⟩ :=
      hcoherent.pending lcid other hother
    exact ⟨number, hat, hdeferred, hunanswered lcid hopen⟩
  · rw [(hanswers.map _).nodup_iff]
    exact hcoherent.answered
  · rcases List.mem_append.mp hcall with hold | hnew
    · exact hcoherent.done number call hold
    · obtain ⟨rfl, rfl⟩ := Prod.mk.inj (List.mem_singleton.mp hnew)
      obtain ⟨owner, howner, htaken⟩ := hcoherent.taken address call hmem
      rw [hthere.unique howner]
      exact htaken

theorem coherent_step {action : Action} {next : Deferrals}
    (hcoherent : Coherent calls state)
    (hstep : state.step action = some next) (hunheld : Unheld state action) :
    Coherent (calls ++ action.call) next := by
  cases action with
  | make address worker =>
      rw [Action.call, List.append_nil]
      cases hfree : state.tenants address with
      | some tenant => simp [step, hfree] at hstep
      | none =>
          simp only [step, hfree, Option.some.injEq] at hstep
          subst hstep
          exact hcoherent.make hfree worker
  | drawLoginCid address =>
      rw [Action.call, List.append_nil]
      cases htenant : state.tenants address with
      | none => simp [step, htenant] at hstep
      | some tenant =>
          simp only [step, htenant] at hstep
          obtain ⟨-, heq⟩ := Option.ite_none_left_eq_some.mp hstep
          obtain rfl := Option.some.inj heq
          refine hcoherent.draw htenant ?_
          rw [hcoherent.seed, Nat.mod_eq_of_lt hunheld]
  | fileLoginCid address =>
      rw [Action.call, List.append_nil]
      cases htenant : state.tenants address with
      | none => simp [step, htenant] at hstep
      | some tenant =>
          simp only [step, htenant] at hstep
          obtain ⟨hfiling, heq⟩ := Option.ite_none_right_eq_some.mp hstep
          obtain rfl := Option.some.inj heq
          exact hcoherent.file htenant hfiling rfl rfl
  | work address sec =>
      rw [Action.call, List.append_nil]
      cases htenant : state.tenants address with
      | none => simp [step, htenant] at hstep
      | some tenant =>
          simp only [step, htenant] at hstep
          obtain ⟨hguard, heq⟩ := Option.ite_none_left_eq_some.mp hstep
          rw [not_or] at hguard
          by_cases hdelete : sec = .delete
          · subst hdelete
            rw [if_pos rfl] at heq
            obtain rfl := Option.some.inj heq
            exact hcoherent.delete hunheld.1 hunheld.2
          · rw [if_neg hdelete] at heq
            obtain rfl := Option.some.inj heq
            refine hcoherent.touch htenant ?_ rfl ?_ ?_ ?_
            · exact (Section.frame sec ⟨tenant.conn, state.reg, []⟩).self
            · exact fun hfiling => absurd hfiling hguard.1
            · exact Section.run_seed hguard.2 _
            · exact fun lcid other => Section.run_pmap hguard.2
  | finishLogin lcid cid msgid data =>
      cases hentry : state.reg.pmap lcid with
      | none =>
          simp only [step, hentry, Option.some.injEq] at hstep
          subst hstep
          exact hcoherent.called _
      | some address =>
          simp only [step, hentry, Option.some.injEq] at hstep
          subst hstep
          exact @Coherent.find _ _ hcoherent address
            { loginCid := lcid, id := cid, msgid, payload := data } hentry
  | sysTask address request =>
      rw [Action.call, List.append_nil]
      obtain ⟨hcontains, heq⟩ := Option.ite_none_right_eq_some.mp hstep
      have hmem := List.contains_iff_mem.mp hcontains
      obtain ⟨serial, ⟨tenant, htenant, rfl⟩, -⟩ :=
        hcoherent.taken address request hmem
      have hlookup : state.tenants address = some tenant := htenant
      simp only [hlookup, Option.some.injEq] at heq
      subst heq
      have htouched := @Coherent.touch _ _ hcoherent address tenant
        { tenant with
          conn.stream := tenant.conn.stream.enqueue (.login (some request)) }
        state.reg hlookup rfl rfl (fun hfiling => ⟨hfiling, rfl⟩) rfl
        (fun _ _ hentry => hentry)
      exact htouched.post ((at_iff (put_self _ _ _) _).mpr rfl) hmem

theorem coherent_exec {actions : List Action} {final : Deferrals}
    (hcoherent : Coherent calls state)
    (hrun : exec step state actions = some final)
    (hunheld : AllSteps step (fun state action _ => Unheld state action)
      state actions) :
    Coherent (calls ++ actions.flatMap Action.call) final := by
  induction actions generalizing calls state with
  | nil =>
      obtain rfl := Option.some.inj hrun
      rwa [List.flatMap_nil, List.append_nil]
  | cons action rest ih =>
      obtain ⟨next, hnext, hrest⟩ := exec_cons_eq_some.mp hrun
      rw [allSteps_cons_of_step hnext] at hunheld
      rw [List.flatMap_cons, ← List.append_assoc]
      exact ih (coherent_step hcoherent hnext hunheld.1) hrest hunheld.2

end Steps

/-- If a connection is deleted only when `pmap_` does not have it and no
`FinishLogin` call holds it, and `login_cid_seed_` has not come round, then in
every state reached: each login cid has at most one Login task, it went to the
connection that drew the login cid, each task is that of a `FinishLogin` call
of its own, a call with a login cid that nobody drew or that is finished
changes nothing, and no two deferrals have drawn one login cid. -/
theorem login_finished_once (actions : List Action) (final : Deferrals)
    (hrun : exec step init actions = some final)
    (hunheld : AllSteps step (fun state action _ => Unheld state action)
      init actions) :
    (final.enqueued.map fun task => task.2.loginCid).Nodup ∧
      (∀ serial request, (serial, request) ∈ final.enqueued →
        (request.loginCid, serial) ∈ final.deferred) ∧
      (final.enqueued.map Prod.snd).Subperm (actions.flatMap Action.call) ∧
      (∀ lcid, ((∀ serial, (lcid, serial) ∉ final.deferred) ∨
          lcid ∈ final.enqueued.map fun task => task.2.loginCid) →
        ∀ cid msgid data,
          final.step (.finishLogin lcid cid msgid data) = some final) ∧
      (final.deferred.map Prod.fst).Nodup := by
  have hcoherent := coherent_exec coherent_init hrun hunheld
  rw [List.nil_append] at hcoherent
  have hanswers : ((final.enqueued.map Prod.snd).map
      SystemPayload.Login.loginCid).Nodup := by
    have hall := hcoherent.answered
    rw [answers, List.map_append] at hall
    exact hall.of_append_right
  refine ⟨?_, fun serial request hmem => ?_, ?_, ?_, hcoherent.distinct⟩
  · rwa [List.map_map] at hanswers
  · exact (hcoherent.done serial request hmem).1
  · refine List.subperm_of_subset (hanswers.of_map _) fun request hmem => ?_
    obtain ⟨⟨serial, request⟩, htask, rfl⟩ := List.mem_map.mp hmem
    exact (hcoherent.done serial request htask).2
  · intro lcid hover cid msgid data
    simp only [step, hcoherent.pmap_eq_none hover]

/-- Connection 0 defers its login and two threads answer it; connection 1 has
taken the next login cid. -/
theorem login_finished_once_answered_twice :
    ∃ final, exec step init
        [.make 0 0, .make 4 1, .drawLoginCid 0, .drawLoginCid 4,
          .fileLoginCid 4, .fileLoginCid 0, .finishLogin 1 9 3 [7],
          .finishLogin 1 8 3 [], .sysTask 0 ⟨1, 9, 3, [7]⟩] = some final ∧
      final.enqueued = [(0, ⟨1, 9, 3, [7]⟩)] ∧
      (final.enqueued.map fun task => task.2.loginCid).Nodup :=
  ⟨_, rfl, rfl, (login_finished_once
    [.make 0 0, .make 4 1, .drawLoginCid 0, .drawLoginCid 4,
      .fileLoginCid 4, .fileLoginCid 0, .finishLogin 1 9 3 [7],
      .finishLogin 1 8 3 [], .sysTask 0 ⟨1, 9, 3, [7]⟩] _ rfl
    ⟨trivial, trivial, (by decide : 0 + 1 < 2 ^ 64),
      (by decide : 1 + 1 < 2 ^ 64), trivial, trivial, trivial, trivial,
      trivial, trivial⟩).1⟩

/-- A `FinishLogin` call holds connection 0 while it is deleted; connection 1
is made at the same address and gets its Login task. -/
theorem login_finished_once_fails :
    ∃ final, exec step init
        [.make 0 0, .drawLoginCid 0, .fileLoginCid 0, .finishLogin 1 9 3 [],
          .work 0 .clearLoginCid, .work 0 .unregister, .work 0 .delete,
          .make 0 0, .sysTask 0 ⟨1, 9, 3, []⟩] = some final ∧
      (1, ⟨1, 9, 3, []⟩) ∈ final.enqueued ∧
      (1, 0) ∈ final.deferred ∧ (1, 1) ∉ final.deferred :=
  ⟨_, rfl, by decide, by decide, by decide⟩

end Deferrals

end GrpcMtk
