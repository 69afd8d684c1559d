import Mathlib.Data.List.Nodup
import Mathlib.Logic.Function.Basic
import GrpcMtk.Client.Stream

/-!
# Numbering requests

`NewMsgId` loads the seed and swaps it with a compare-and-swap that may fail,
because another thread was faster or for no reason at all, and then starts
over.  In the step relation of the client a call takes its msgid in one step;
here the load and the swap are steps of their own, of any number of threads.
-/

namespace GrpcMtk

open GrpcMtk.Proto
open GrpcMtk.Runs

/-- A thread that calls `Call`, by its number. -/
abbrev ThreadId := ℕ

/-- Where a thread is: outside of `Call`, in the loop of `NewMsgId` before the
load or behind it, or behind `NewMsgId`. -/
inductive Numbering where
  | outside
  | looping
  | loaded (expect : ℕ)
  | numbered (msgid : ℕ)
  deriving DecidableEq, Repr

/-- `msgid_seed_` with the threads that use it, the ids handed out, in the
order of the swaps, and the msgids of the requests put into `requests_`. -/
structure MsgIds where
  msgidSeed : ℕ
  threads : ThreadId → Numbering
  returned : List ℕ
  sent : List ℕ

namespace MsgIds

def initial : MsgIds where
  msgidSeed := 0
  threads := fun _ => .outside
  returned := []
  sent := []

inductive Action where
  | call (thread : ThreadId)
  | load (thread : ThreadId)
  /-- `atomic_compare_exchange_weak`, which may fail for no reason. -/
  | exchange (thread : ThreadId) (spurious : Bool)
  | enqueue (thread : ThreadId)
  deriving DecidableEq, Repr

section Step

variable (ids : MsgIds)

def goTo (thread : ThreadId) (numbering : Numbering) : MsgIds :=
  { ids with threads := Function.update ids.threads thread numbering }

/-- The swap of `NewMsgId`. -/
def exchange (thread : ThreadId) (expect : ℕ) (spurious : Bool) : MsgIds :=
  let desired := RPCStream.newMsgId expect
  if ids.msgidSeed = expect ∧ spurious = false then
    { ids with
      msgidSeed := desired
      returned := ids.returned ++ [desired] }.goTo thread (.numbered desired)
  else ids.goTo thread .looping

def step : Action → Option MsgIds
  | .call thread =>
      match ids.threads thread with
      | .outside => some (ids.goTo thread .looping)
      | _ => none
  | .load thread =>
      match ids.threads thread with
      | .looping => some (ids.goTo thread (.loaded ids.msgidSeed))
      | _ => none
  | .exchange thread spurious =>
      match ids.threads thread with
      | .loaded expect => some (ids.exchange thread expect spurious)
      | _ => none
  | .enqueue thread =>
      match ids.threads thread with
      | .numbered msgid =>
          some ({ ids with sent := ids.sent ++ [msgid] }.goTo thread .outside)
      | _ => none

end Step

/-! ## The order of the ids -/

/-- How many ids there are. -/
def cycle : ℕ := 1999999999

/-- The id that the swap with this number hands out. -/
def handedOut (turn : ℕ) : ℕ := turn % cycle + 1

/-- The seed after so many swaps. -/
def seedAfter : ℕ → ℕ
  | 0 => 0
  | turn + 1 => handedOut turn

theorem newMsgId_seedAfter (turn : ℕ) :
    RPCStream.newMsgId (seedAfter turn) = handedOut turn := by
  cases turn with
  | zero => rfl
  | succ turn =>
      rw [seedAfter, RPCStream.newMsgId]
      unfold handedOut cycle
      split <;> omega

theorem handedOut_pos (turn : ℕ) : 1 ≤ handedOut turn :=
  Nat.le_add_left 1 _

theorem handedOut_le (turn : ℕ) : handedOut turn ≤ cycle :=
  Nat.mod_lt turn (by decide)

/-- Two swaps that are less than a cycle apart hand out different ids. -/
theorem handedOut_ne {turn later : ℕ} (hlt : turn < later)
    (hnear : later < turn + cycle) : handedOut turn ≠ handedOut later := by
  unfold handedOut
  unfold cycle at *
  omega

/-- The ids so far are the first ones of the cycle, and every id that a thread
or a request has is one of them. -/
structure InOrder (ids : MsgIds) : Prop where
  seed : ids.msgidSeed = seedAfter ids.returned.length
  returned : ids.returned = (List.range ids.returned.length).map handedOut
  numbered : ∀ thread msgid, ids.threads thread = .numbered msgid →
    msgid ∈ ids.returned
  sent : ids.sent ⊆ ids.returned

theorem inOrder_initial : InOrder initial where
  seed := rfl
  returned := rfl
  numbered _ _ h := Numbering.noConfusion h
  sent := List.Subset.refl []

section InOrder

variable {ids next : MsgIds} {thread : ThreadId}

/-- A thread goes on without a new id. -/
theorem InOrder.goTo (hids : InOrder ids) {numbering : Numbering}
    (hother : ∀ msgid, numbering = .numbered msgid → msgid ∈ ids.returned) :
    InOrder (ids.goTo thread numbering) where
  seed := hids.seed
  returned := hids.returned
  numbered other msgid hnumbered := by
    by_cases hthread : other = thread
    · subst hthread
      exact hother msgid ((Function.update_self ..).symm.trans hnumbered)
    · exact hids.numbered other msgid
        ((Function.update_of_ne hthread ..).symm.trans hnumbered)
  sent := hids.sent

/-- A swap that succeeds hands out the next id. -/
theorem InOrder.handOut (hids : InOrder ids) :
    InOrder { ids with
      msgidSeed := RPCStream.newMsgId ids.msgidSeed
      returned := ids.returned ++ [RPCStream.newMsgId ids.msgidSeed] } where
  seed := by
    rw [List.length_append, List.length_singleton, hids.seed,
      newMsgId_seedAfter, seedAfter]
  returned := by
    rw [List.length_append, List.length_singleton, List.range_succ,
      List.map_append, ← hids.returned, hids.seed, newMsgId_seedAfter,
      List.map_singleton]
  numbered other msgid hnumbered :=
    List.mem_append_left _ (hids.numbered other msgid hnumbered)
  sent := List.subset_append_of_subset_left _ hids.sent

theorem InOrder.step {action : Action} (hids : InOrder ids)
    (hstep : ids.step action = some next) : InOrder next := by
  cases action with
  | call thread =>
      simp only [MsgIds.step] at hstep
      split at hstep
      · obtain rfl := Option.some.inj hstep
        exact hids.goTo nofun
      · contradiction
  | load thread =>
      simp only [MsgIds.step] at hstep
      split at hstep
      · obtain rfl := Option.some.inj hstep
        exact hids.goTo nofun
      · contradiction
  | exchange thread spurious =>
      simp only [MsgIds.step] at hstep
      split at hstep
      case h_2 => contradiction
      case h_1 expect hloaded =>
        obtain rfl := Option.some.inj hstep
        unfold exchange
        split
        case isFalse => exact hids.goTo nofun
        case isTrue hswapped =>
          obtain rfl := hswapped.1
          apply hids.handOut.goTo
          rintro msgid hnumbered
          rw [← Numbering.numbered.inj hnumbered]
          exact List.mem_append_right _ (List.mem_singleton_self _)
  | enqueue thread =>
      simp only [MsgIds.step] at hstep
      split at hstep
      case h_2 => contradiction
      case h_1 msgid hnumbered =>
        obtain rfl := Option.some.inj hstep
        have hmem := hids.numbered thread msgid hnumbered
        have hsent : InOrder { ids with sent := ids.sent ++ [msgid] } :=
          ⟨hids.seed, hids.returned, hids.numbered, List.append_subset.mpr
            ⟨hids.sent, List.cons_subset.mpr ⟨hmem, List.nil_subset _⟩⟩⟩
        exact hsent.goTo nofun

theorem InOrder.eq_handedOut (hids : InOrder ids) {turn msgid : ℕ}
    (hturn : ids.returned[turn]? = some msgid) : msgid = handedOut turn := by
  obtain ⟨hlength, -⟩ := List.getElem?_eq_some_iff.mp hturn
  rw [hids.returned, List.getElem?_map, List.getElem?_range hlength] at hturn
  exact (Option.some.inj hturn).symm

theorem InOrder.mem (hids : InOrder ids) {msgid : ℕ}
    (hmem : msgid ∈ ids.returned) : ∃ turn, msgid = handedOut turn := by
  rw [hids.returned] at hmem
  obtain ⟨turn, -, rfl⟩ := List.mem_map.mp hmem
  exact ⟨turn, rfl⟩

/-- As many ids in a row as there are in a cycle are all different. -/
theorem InOrder.nodup (hids : InOrder ids) (start : ℕ) :
    ((ids.returned.drop start).take cycle).Nodup := by
  rw [List.Nodup, List.pairwise_iff_getElem]
  intro first second hfirst hsecond hlt
  have hnear : second < cycle :=
    Nat.lt_of_lt_of_le hsecond (List.length_take_le _ _)
  have hid (place : ℕ) (hplace : place <
      ((ids.returned.drop start).take cycle).length) :
      ((ids.returned.drop start).take cycle)[place] =
        handedOut (start + place) := by
    apply hids.eq_handedOut
    rw [List.getElem_take, List.getElem_drop, List.getElem?_eq_getElem]
  rw [hid first hfirst, hid second hsecond]
  exact handedOut_ne (by omega) (by omega)

end InOrder

/-- What the ids are for: they are handed out in cyclic order from 1 on, a
cycle of them in a row are all different, an id comes back only after a whole
cycle, and no call sends a request with the msgid of a notification. -/
structure Unique (ids : MsgIds) : Prop where
  range : ∀ msgid ∈ ids.returned, 1 ≤ msgid ∧ msgid ≤ 1999999999
  cyclic : ∀ turn msgid, ids.returned[turn]? = some msgid →
    msgid = turn % 1999999999 + 1
  distinct : ∀ start, ((ids.returned.drop start).take 1999999999).Nodup
  apart : ∀ turn later msgid, turn < later →
    ids.returned[turn]? = some msgid → ids.returned[later]? = some msgid →
      turn + 1999999999 ≤ later
  sent : ∀ msgid ∈ ids.sent, msgid ∈ ids.returned ∧ msgid ≠ 0

theorem InOrder.unique {ids : MsgIds} (hids : InOrder ids) : Unique ids where
  range msgid hmsgid := by
    obtain ⟨turn, rfl⟩ := hids.mem hmsgid
    exact ⟨handedOut_pos turn, handedOut_le turn⟩
  cyclic turn msgid := hids.eq_handedOut
  distinct := hids.nodup
  apart turn later msgid hlt hturn hlater := by
    by_contra hnear
    refine handedOut_ne hlt (Nat.lt_of_not_le hnear) ?_
    rw [← hids.eq_handedOut hturn, ← hids.eq_handedOut hlater]
  sent msgid hmsgid := by
    have hmem := hids.sent hmsgid
    obtain ⟨turn, hturn⟩ := hids.mem hmem
    exact ⟨hmem, hturn ▸ Nat.ne_of_gt (handedOut_pos turn)⟩

/-- The ids are unique whatever any number of threads do, in any order and
with any swaps that fail for no reason. -/
theorem msgids_unique {actions : List Action} {ids : MsgIds}
    (hrun : exec step initial actions = some ids) : Unique ids :=
  (exec_invariant (fun _ _ _ hids hstep => hids.step hstep) inOrder_initial
    hrun).unique

/-- Two threads load the same seed; the swap of the second one fails, once
because of the first one and once for no reason. -/
private def racing : List Action :=
  [.call 1, .call 2, .load 1, .load 2, .exchange 1 false, .exchange 2 false,
    .load 2, .exchange 2 true, .load 2, .enqueue 1, .exchange 2 false]

theorem msgids_unique_racing :
    ∃ ids, exec step initial racing = some ids ∧ ids.returned = [1, 2] ∧
      ids.sent = [1] ∧ Unique ids :=
  ⟨_, rfl, rfl, rfl, @msgids_unique racing _ rfl⟩

end MsgIds

end GrpcMtk
