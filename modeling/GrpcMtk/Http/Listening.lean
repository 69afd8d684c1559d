import GrpcMtk.Http.Serving
import Mathlib.Data.List.ReduceOption

/-!
# Listening

`HttpServer` keeps what `Listen` was called with in an array that it doubles
when it is full, lets a TCP server listen on every port, and gives an accepted
connection the callback it finds under the port index.  The TCP server counts
the addresses it was given, not the calls of `Listen`: the two agree as long as
every port resolves to one address.
-/

namespace GrpcMtk.Http

open GrpcMtk.Proto
open GrpcMtk.Runs

structure ListenerEntry where
  port : ℤ
  callback : Callback

/-! ## The array -/

/-- `listeners_` and `n_listeners_`.  An element that `new` has made and
nothing has been assigned to is `none`. -/
structure Listeners where
  array : List (Option ListenerEntry)
  count : ℕ
  allocated : 0 < array.length
  fits : count ≤ array.length
  assigned : ∀ slot ∈ array.take count, slot ≠ none

namespace Listeners

/-- What the array holds. -/
def entries (listeners : Listeners) : List ListenerEntry :=
  (listeners.array.take listeners.count).reduceOption

/-- The array `AddHandler` writes to: twice the size of one that is full. -/
def grown (listeners : Listeners) : List (Option ListenerEntry) :=
  if listeners.count = listeners.array.length then
    listeners.array.take listeners.count ++
      List.replicate (2 * listeners.array.length - listeners.count) none
  else listeners.array

section Growth

variable (listeners : Listeners)

theorem take_grown :
    listeners.grown.take listeners.count =
      listeners.array.take listeners.count := by
  rw [grown]
  split
  case isTrue hfull =>
    have hlength : (listeners.array.take listeners.count).length =
        listeners.count := List.length_take_of_le listeners.fits
    rw [List.take_append_of_le_length hlength.ge, List.take_take, min_self]
  · rfl

theorem count_lt_length_grown :
    listeners.count < listeners.grown.length := by
  have hallocated := listeners.allocated
  have hfits := listeners.fits
  rw [grown]
  split
  case isTrue hfull =>
    rw [List.length_append, List.length_take, List.length_replicate]
    omega
  case isFalse hroom => omega

/-- The element written is the one behind those that are assigned. -/
theorem take_set_grown (entry : ListenerEntry) :
    (listeners.grown.set listeners.count (some entry)).take
        (listeners.count + 1) =
      listeners.array.take listeners.count ++ [some entry] := by
  have hlength := listeners.count_lt_length_grown
  rw [List.take_succ_eq_append_getElem (by simpa using hlength),
    List.take_set_of_le le_rfl, take_grown, List.getElem_set_self]

theorem allocated_set (entry : ListenerEntry) :
    0 < (listeners.grown.set listeners.count (some entry)).length := by
  rw [List.length_set]
  exact Nat.zero_lt_of_lt listeners.count_lt_length_grown

theorem fits_set (entry : ListenerEntry) : listeners.count + 1 ≤
    (listeners.grown.set listeners.count (some entry)).length := by
  rw [List.length_set]
  exact listeners.count_lt_length_grown

theorem assigned_set (entry : ListenerEntry) :
    ∀ slot ∈ (listeners.grown.set listeners.count (some entry)).take
      (listeners.count + 1), slot ≠ none := by
  rw [take_set_grown]
  intro slot hslot
  rcases List.mem_append.mp hslot with hold | hnew
  · exact listeners.assigned slot hold
  · rw [List.mem_singleton.mp hnew]
    exact Option.some_ne_none entry

end Growth

/-- `AddHandler`. -/
def addHandler (port : ℤ) (cb : Callback) (listeners : Listeners) :
    Listeners where
  array := listeners.grown.set listeners.count (some ⟨port, cb⟩)
  count := listeners.count + 1
  allocated := listeners.allocated_set ⟨port, cb⟩
  fits := listeners.fits_set ⟨port, cb⟩
  assigned := listeners.assigned_set ⟨port, cb⟩

theorem entries_addHandler (port : ℤ) (cb : Callback)
    (listeners : Listeners) :
    (listeners.addHandler port cb).entries =
      listeners.entries ++ [⟨port, cb⟩] := by
  rw [entries, addHandler]
  dsimp only
  rw [take_set_grown, List.reduceOption_append]
  rfl

theorem map_some_entries (listeners : Listeners) :
    listeners.entries.map some = listeners.array.take listeners.count := by
  have hassigned := listeners.assigned
  rw [entries]
  generalize listeners.array.take listeners.count = slots at hassigned
  induction slots with
  | nil => rfl
  | cons slot rest ih =>
      obtain ⟨hslot, hrest⟩ := List.forall_mem_cons.mp hassigned
      obtain ⟨entry, rfl⟩ := Option.ne_none_iff_exists'.mp hslot
      rw [List.reduceOption_cons_of_some, List.map_cons, ih hrest]

theorem getElem?_array {listeners : Listeners} {index : ℕ}
    {entry : ListenerEntry} (hentry : listeners.entries[index]? = some entry) :
    listeners.array[index]? = some (some entry) := by
  have hslot : (listeners.entries.map some)[index]? = some (some entry) := by
    rw [List.getElem?_map, hentry]
    rfl
  rw [map_some_entries, List.getElem?_take] at hslot
  split at hslot
  · exact hslot
  · contradiction

/-- `new ListenerEntry[n_listeners_capacity_]` of the constructor. -/
def new : Listeners where
  array := List.replicate 4 none
  count := 0
  allocated := Nat.succ_pos 3
  fits := Nat.zero_le _
  assigned _ hmem := absurd hmem List.not_mem_nil

end Listeners

/-! ## The server -/

/-- A `HttpServContext` that `OnAccept` has made, with the port of the address
it was accepted on. -/
structure Connection where
  portIndex : ℕ
  port : ℤ
  callback : Callback
  context : HttpServContext

/-- `HttpServer`.  `bound` lists the ports of the addresses in the order
`server_` was given them, which is that of the port indexes; `running` tells
whether `Run` has started it. -/
structure HttpServer where
  listeners : Listeners
  bound : List ℤ
  running : Bool
  connections : List Connection

/-- What looking a port up and adding its addresses to the TCP server gives:
for each address the port that was bound.  A lookup and an address can fail. -/
abbrev Lookup := Option (List (Option ℤ))

/-- Calling an empty `std::function` throws. -/
def emptyCallback : Callback := fun _ => none

namespace HttpServer

def new : HttpServer where
  listeners := .new
  bound := []
  running := false
  connections := []

/-- The loop of `DoListen` over the addresses. -/
def addPorts (port : ℤ) : List (Option ℤ) → List ℤ → Option (List ℤ)
  | [], bound => some bound
  | none :: _, _ => none
  | some tmp :: rest, bound =>
      if port ≠ tmp then none else addPorts port rest (bound ++ [tmp])

/-- `DoListen`. -/
def doListen (port : ℤ) (lookup : Lookup) (bound : List ℤ) :
    Option (List ℤ) :=
  match lookup with
  | none => none
  | some addresses => addPorts port addresses bound

/-- The loop of `Run` over the listeners, from this index on. -/
def doListens (lookups : ℕ → Lookup) :
    ℕ → List ListenerEntry → List ℤ → Option (List ℤ)
  | _, [], bound => some bound
  | index, entry :: rest, bound =>
      match doListen entry.port (lookups index) bound with
      | none => none
      | some bound => doListens lookups (index + 1) rest bound

/-- `Run` up to its loop.  When it returns false the TCP server is not
started. -/
def run (lookups : ℕ → Lookup) (server : HttpServer) : HttpServer :=
  match doListens lookups 0 server.listeners.entries [] with
  | none => server
  | some bound => { server with bound, running := true }

/-- `OnAccept`; `none` where it reads behind the array. -/
def onAccept (portIndex : ℕ) (port : ℤ) (memory : ℕ → UInt8) (fsm : HttpFSM)
    (server : HttpServer) : Option HttpServer :=
  (server.listeners.array[portIndex]?).map fun slot =>
    let connection : Connection :=
      { portIndex
        port
        callback := slot.elim emptyCallback ListenerEntry.callback
        context := .accept memory fsm }
    { server with connections := server.connections ++ [connection] }

inductive Action where
  /-- `Listen`. -/
  | listen (port : ℤ) (cb : Callback)
  | run (lookups : ℕ → Lookup)
  /-- The TCP server accepts a connection on one of its addresses. -/
  | accept (portIndex : ℕ) (memory : ℕ → UInt8) (fsm : HttpFSM)
  /-- An operation of a connection completes. -/
  | complete (index : ℕ) (action : HttpServContext.Action)

def step (server : HttpServer) : Action → Option HttpServer
  | .listen port cb =>
      some { server with listeners := server.listeners.addHandler port cb }
  | .run lookups => if server.running then none else some (server.run lookups)
  | .accept portIndex memory fsm =>
      if server.running then
        match server.bound[portIndex]? with
        | none => none
        | some port => server.onAccept portIndex port memory fsm
      else none
  | .complete index action =>
      match server.connections[index]? with
      | none => none
      | some connection =>
          (connection.context.step connection.callback action).map
            fun context =>
              { server with
                connections := server.connections.set index
                  { connection with context } }

/-- What `Listen` was called with. -/
def Action.listened : Action → Option ListenerEntry
  | .listen port cb => some ⟨port, cb⟩
  | _ => none

/-- Every port that is looked up has one address. -/
def Action.OneAddress : Action → Prop
  | .run lookups => ∀ index addresses, lookups index = some addresses →
      addresses.length = 1
  | _ => True

/-- A connection has the callback of the call of `Listen` for the port it was
accepted on, and is served by it. -/
structure Dispatched (entries : List ListenerEntry) (connection : Connection) :
    Prop where
  entry : entries[connection.portIndex]? =
    some ⟨connection.port, connection.callback⟩
  served : ∃ (memory : ℕ → UInt8) (fsm : HttpFSM),
    HttpServContext.Serving connection.callback
      (fsm.reset HttpServContext.chunkSize memory) connection.context

/-- The port indexes are those of the array. -/
structure Listening (server : HttpServer) : Prop where
  aligned : server.bound <+: server.listeners.entries.map ListenerEntry.port
  dispatched : ∀ connection ∈ server.connections,
    Dispatched server.listeners.entries connection

section Bound

variable {lookups : ℕ → Lookup}

theorem eq_of_addPorts {port : ℤ} {addresses : List (Option ℤ)}
    {bound added : List ℤ} (hone : addresses.length = 1)
    (hadded : addPorts port addresses bound = some added) :
    added = bound ++ [port] := by
  obtain ⟨address, rfl⟩ := List.length_eq_one_iff.mp hone
  cases address with
  | none => contradiction
  | some tmp =>
      rw [addPorts] at hadded
      split at hadded
      · contradiction
      case isFalse hport =>
        rw [addPorts, ← not_not.mp hport] at hadded
        exact (Option.some.inj hadded).symm

/-- With one address for each port, the ports are bound in the order of the
listeners. -/
theorem eq_of_doListens (hone : (Action.run lookups).OneAddress) {index : ℕ}
    {entries : List ListenerEntry} {bound final : List ℤ}
    (hlisten : doListens lookups index entries bound = some final) :
    final = bound ++ entries.map ListenerEntry.port := by
  induction entries generalizing index bound with
  | nil =>
      rw [List.map_nil, List.append_nil]
      exact (Option.some.inj hlisten).symm
  | cons entry rest ih =>
      rw [doListens] at hlisten
      split at hlisten
      · contradiction
      case h_2 added hadded =>
        cases hlookup : lookups index with
        | none => simp [hlookup, doListen] at hadded
        | some addresses =>
            rw [hlookup] at hadded
            rw [ih hlisten, eq_of_addPorts (hone index addresses hlookup)
              hadded, List.append_assoc]
            rfl

end Bound

section Steps

variable {server next : HttpServer}

theorem getElem?_extended {Item : Type*} {items more : List Item}
    {index : ℕ} {item : Item} (hmore : items <+: more)
    (hitem : items[index]? = some item) : more[index]? = some item := by
  obtain ⟨rest, rfl⟩ := hmore
  rw [List.getElem?_append_left (List.getElem?_eq_some_iff.mp hitem).1]
  exact hitem

theorem Dispatched.extend {entries more : List ListenerEntry}
    {connection : Connection} (hdispatched : Dispatched entries connection)
    (hmore : entries <+: more) : Dispatched more connection where
  entry := getElem?_extended hmore hdispatched.entry
  served := hdispatched.served

theorem Listening.addHandler (hlistening : Listening server) (port : ℤ)
    (cb : Callback) :
    Listening { server with
      listeners := server.listeners.addHandler port cb } := by
  have hmore : server.listeners.entries <+:
      (server.listeners.addHandler port cb).entries := by
    rw [Listeners.entries_addHandler]
    exact List.prefix_append _ _
  refine ⟨hlistening.aligned.trans (hmore.map _), ?_⟩
  intro connection hmem
  exact (hlistening.dispatched connection hmem).extend hmore

theorem Listening.run {lookups : ℕ → Lookup}
    (hone : (Action.run lookups).OneAddress) (hlistening : Listening server) :
    Listening (server.run lookups) := by
  rw [HttpServer.run]
  split
  · exact hlistening
  case h_2 bound hbound =>
    refine ⟨?_, hlistening.dispatched⟩
    rw [eq_of_doListens hone hbound]
    exact List.prefix_refl _

theorem Listening.onAccept (hlistening : Listening server) {portIndex : ℕ}
    {port : ℤ} {memory : ℕ → UInt8} {fsm : HttpFSM}
    (hport : server.bound[portIndex]? = some port)
    (haccept : server.onAccept portIndex port memory fsm = some next) :
    Listening next := by
  have hentry := getElem?_extended hlistening.aligned hport
  rw [List.getElem?_map, Option.map_eq_some_iff] at hentry
  obtain ⟨entry, hentry, rfl⟩ := hentry
  rw [HttpServer.onAccept, Listeners.getElem?_array hentry] at haccept
  obtain rfl := Option.some.inj haccept
  refine ⟨hlistening.aligned, fun connection hmem => ?_⟩
  rcases List.mem_append.mp hmem with hold | hnew
  · exact hlistening.dispatched connection hold
  · rw [List.mem_singleton.mp hnew]
    exact ⟨hentry, memory, fsm, HttpServContext.serving_accept memory fsm⟩

theorem Listening.complete (hlistening : Listening server) {index : ℕ}
    {action : HttpServContext.Action}
    (hstep : server.step (.complete index action) = some next) :
    Listening next := by
  simp only [HttpServer.step] at hstep
  split at hstep
  · contradiction
  case h_2 connection hconnection =>
    obtain ⟨context, hcontext, rfl⟩ := Option.map_eq_some_iff.mp hstep
    refine ⟨hlistening.aligned, fun other hmem => ?_⟩
    rcases List.mem_or_eq_of_mem_set hmem with hold | rfl
    · exact hlistening.dispatched other hold
    · obtain ⟨hentry, memory, fsm, hserving⟩ := hlistening.dispatched connection
        (List.mem_of_getElem? hconnection)
      exact ⟨hentry, memory, fsm, hserving.step hcontext⟩

theorem Listening.step {action : Action} (hone : action.OneAddress)
    (hlistening : Listening server) (hstep : server.step action = some next) :
    Listening next := by
  cases action with
  | listen port cb =>
      obtain rfl := Option.some.inj hstep
      exact hlistening.addHandler port cb
  | run lookups =>
      simp only [HttpServer.step] at hstep
      split at hstep
      · contradiction
      · obtain rfl := Option.some.inj hstep
        exact hlistening.run hone
  | accept portIndex memory fsm =>
      simp only [HttpServer.step] at hstep
      split at hstep
      · split at hstep
        · contradiction
        case h_2 port hport => exact hlistening.onAccept hport hstep
      · contradiction
  | complete index action => exact hlistening.complete hstep

theorem entries_step {action : Action}
    (hstep : server.step action = some next) :
    next.listeners.entries =
      server.listeners.entries ++ action.listened.toList := by
  have hquiet (hlisteners : next.listeners = server.listeners)
      (hlistened : action.listened = none) : next.listeners.entries =
        server.listeners.entries ++ action.listened.toList := by
    rw [hlisteners, hlistened]
    exact (List.append_nil _).symm
  cases action with
  | listen port cb =>
      obtain rfl := Option.some.inj hstep
      exact Listeners.entries_addHandler port cb server.listeners
  | run lookups =>
      simp only [HttpServer.step] at hstep
      split at hstep
      · contradiction
      · obtain rfl := Option.some.inj hstep
        refine hquiet ?_ rfl
        rw [HttpServer.run]
        split <;> rfl
  | accept portIndex memory fsm =>
      simp only [HttpServer.step] at hstep
      split at hstep
      · split at hstep
        · contradiction
        · obtain ⟨slot, -, rfl⟩ := Option.map_eq_some_iff.mp hstep
          exact hquiet rfl rfl
      · contradiction
  | complete index action =>
      simp only [HttpServer.step] at hstep
      split at hstep
      · contradiction
      · obtain ⟨context, -, rfl⟩ := Option.map_eq_some_iff.mp hstep
        exact hquiet rfl rfl

theorem entries_exec {actions : List Action}
    (hrun : exec step server actions = some next) :
    next.listeners.entries =
      server.listeners.entries ++ actions.filterMap Action.listened := by
  induction actions generalizing server with
  | nil =>
      obtain rfl := Option.some.inj hrun
      exact (List.append_nil _).symm
  | cons action rest ih =>
      obtain ⟨middle, hstep, hrest⟩ := exec_cons_eq_some.mp hrun
      rw [ih hrest, entries_step hstep, List.append_assoc]
      cases hlistened : action.listened with
      | none => rw [List.filterMap_cons_none hlistened]; rfl
      | some entry => rw [List.filterMap_cons_some hlistened]; rfl

end Steps

theorem listening_new : Listening new where
  aligned := List.nil_prefix
  dispatched _ hmem := absurd hmem List.not_mem_nil

/-- In every run in which each port has one address, an accept finds the call
of `Listen` for its port in the array, and every connection is served, beside
whatever others there are and however often the array has grown, by the
callback of this call. -/
theorem connections_served (actions : List Action) (final : HttpServer)
    (hone : ∀ action ∈ actions, action.OneAddress)
    (hrun : exec step new actions = some final) :
    (∀ (portIndex : ℕ) (port : ℤ), final.bound[portIndex]? = some port →
      ∃ cb, final.listeners.array[portIndex]? = some (some ⟨port, cb⟩)) ∧
    ∀ connection ∈ final.connections,
      (actions.filterMap Action.listened)[connection.portIndex]? =
          some ⟨connection.port, connection.callback⟩ ∧
        ∃ (memory : ℕ → UInt8) (fsm : HttpFSM),
          HttpServContext.Served connection.callback
            (fsm.reset HttpServContext.chunkSize memory)
            connection.context := by
  have hlistening : Listening final :=
    exec_invariant_of_forall (fun _ _ _ hlistening honeAddress hstep =>
      hlistening.step honeAddress hstep) listening_new hone hrun
  have hentries : final.listeners.entries =
      actions.filterMap Action.listened := entries_exec hrun
  constructor
  · intro portIndex port hport
    have hentry := getElem?_extended hlistening.aligned hport
    rw [List.getElem?_map, Option.map_eq_some_iff] at hentry
    obtain ⟨⟨port, cb⟩, hentry, rfl⟩ := hentry
    exact ⟨cb, Listeners.getElem?_array hentry⟩
  · intro connection hmem
    obtain ⟨hentry, memory, fsm, hserving⟩ :=
      hlistening.dispatched connection hmem
    exact ⟨hentries ▸ hentry, memory, fsm, hserving.toServed⟩

private def pong : Callback := fun _ => some [.writeResponse (ascii "pong")]

/-- Five ports, so that the array grows, and one address for each. -/
private def fivePorts : List Action :=
  [.listen 80 pong, .listen 81 pong, .listen 82 pong, .listen 83 pong,
    .listen 84 pong, .run fun index => some [some (80 + index)],
    .accept 4 (fun _ => 0) HttpFSM.blank,
    .accept 1 (fun _ => 0) HttpFSM.blank,
    .complete 0 (.read [ascii "GET / HTTP/1.1\r\n\r\n"] fun _ _ _ => 0),
    .complete 1 .readFailed, .complete 0 .written]

theorem connections_served_fivePorts :
    ∃ final, exec step new fivePorts = some final ∧
      ∀ connection ∈ final.connections,
        (fivePorts.filterMap Action.listened)[connection.portIndex]? =
            some ⟨connection.port, connection.callback⟩ ∧
          ∃ (memory : ℕ → UInt8) (fsm : HttpFSM),
            HttpServContext.Served connection.callback
              (fsm.reset HttpServContext.chunkSize memory)
              connection.context := by
  obtain ⟨final, hrun⟩ := Option.isSome_iff_exists.mp
    (by decide +kernel : (exec step new fivePorts).isSome = true)
  have hone : ∀ action ∈ fivePorts, action.OneAddress := by
    simp only [fivePorts, List.forall_mem_cons, Action.OneAddress]
    simp
  exact ⟨final, hrun, (connections_served fivePorts final hone hrun).2⟩

end HttpServer

end GrpcMtk.Http
