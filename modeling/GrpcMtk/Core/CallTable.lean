import Mathlib.Data.Set.Insert
import Mathlib.Logic.Function.Basic
import GrpcMtk.Core.Runs

/-!
# Tables of outstanding calls

A call is begun, announced under a key, registered in a table under that key,
and settled when its key is looked up with an outcome; or it is refused at
once.  Announcing and registering are separate moves, so other moves can come
between them.  Clearing the table drops the calls in it.

A call is settled at most once in every run.  It is settled or in the table
once registered, unless a move took it out of the table unsettled, and then it
is lost for good.
-/

namespace GrpcMtk

open GrpcMtk.Runs

/-- `stage` tells of a call being made whether it has been announced, and
under which key. -/
@[ext]
structure CallTable (Key Outcome : Type*) where
  next : ℕ
  stage : ℕ → Option (Option Key)
  table : Key → Option ℕ
  announced : List (ℕ × Key)
  registered : List ℕ
  settled : List (ℕ × Outcome)
  dropped : Set ℕ

namespace CallTable

variable {Key Outcome : Type*}

/-- The calls that have been settled. -/
def done (calls : CallTable Key Outcome) : List ℕ :=
  calls.settled.map Prod.fst

/-! ## Consistency -/

/-- A call is being made, in the table or settled, never two of these, and has
one key. -/
structure Consistent (calls : CallTable Key Outcome) : Prop where
  making : ∀ call key?, calls.stage call = some key? →
    call < calls.next ∧ call ∉ calls.registered ∧ call ∉ calls.done
  unannounced : ∀ call key, calls.stage call = some none →
    (call, key) ∉ calls.announced
  announced : ∀ call key, calls.stage call = some (some key) →
    (call, key) ∈ calls.announced
  outstanding : ∀ key call, calls.table key = some call →
    (call, key) ∈ calls.announced ∧ call ∈ calls.registered ∧
      call ∉ calls.done
  announced_lt : ∀ call key, (call, key) ∈ calls.announced →
    call < calls.next
  registered_lt : ∀ call ∈ calls.registered, call < calls.next
  done_lt : ∀ call ∈ calls.done, call < calls.next
  one_key : ∀ call key other, (call, key) ∈ calls.announced →
    (call, other) ∈ calls.announced → key = other
  once : calls.done.Nodup

section Consistent

variable {calls next : CallTable Key Outcome}

theorem Consistent.skip (hcalls : Consistent calls) :
    Consistent { calls with next := calls.next + 1 } where
  making call key? hstage :=
    let ⟨hlt, hrest⟩ := hcalls.making call key? hstage
    ⟨Nat.lt_succ_of_lt hlt, hrest⟩
  unannounced := hcalls.unannounced
  announced := hcalls.announced
  outstanding := hcalls.outstanding
  announced_lt call key hmem :=
    Nat.lt_succ_of_lt (hcalls.announced_lt call key hmem)
  registered_lt call hmem := Nat.lt_succ_of_lt (hcalls.registered_lt call hmem)
  done_lt call hmem := Nat.lt_succ_of_lt (hcalls.done_lt call hmem)
  one_key := hcalls.one_key
  once := hcalls.once

/-- A call with a number below `next` that is not being made nor in the table
is settled. -/
theorem Consistent.settled (hcalls : Consistent calls) {call : ℕ}
    (hlt : call < calls.next) (hstage : calls.stage call = none)
    (htable : ∀ key, calls.table key ≠ some call) (hdone : call ∉ calls.done)
    (outcome : Outcome) :
    Consistent { calls with
      settled := (call, outcome) :: calls.settled } where
  making other key? hother := by
    obtain ⟨hbelow, hunregistered, hundone⟩ := hcalls.making other key? hother
    refine ⟨hbelow, hunregistered, ?_⟩
    intro hmem
    rcases List.mem_cons.mp hmem with rfl | hold
    · rw [hstage] at hother
      contradiction
    · exact hundone hold
  unannounced := hcalls.unannounced
  announced := hcalls.announced
  outstanding key other hother := by
    obtain ⟨hannounced, hregistered, hundone⟩ :=
      hcalls.outstanding key other hother
    refine ⟨hannounced, hregistered, ?_⟩
    intro hmem
    rcases List.mem_cons.mp hmem with rfl | hold
    · exact htable key hother
    · exact hundone hold
  announced_lt := hcalls.announced_lt
  registered_lt := hcalls.registered_lt
  done_lt other hother := by
    rcases List.mem_cons.mp hother with rfl | hold
    · exact hlt
    · exact hcalls.done_lt other hold
  one_key := hcalls.one_key
  once := List.nodup_cons.mpr ⟨hdone, hcalls.once⟩

theorem Consistent.fresh (hcalls : Consistent calls) :
    calls.stage calls.next = none ∧
      (∀ key, calls.table key ≠ some calls.next) ∧
      calls.next ∉ calls.done := by
  refine ⟨?_, ?_, ?_⟩
  · cases hstage : calls.stage calls.next with
    | none => rfl
    | some key? =>
        exact absurd (hcalls.making _ key? hstage).1 (Nat.lt_irrefl _)
  · intro key hkey
    have hmem := (hcalls.outstanding key _ hkey).2.1
    exact Nat.lt_irrefl _ (hcalls.registered_lt _ hmem)
  · intro hdone
    exact Nat.lt_irrefl _ (hcalls.done_lt _ hdone)

theorem Consistent.begin (hcalls : Consistent calls) :
    Consistent { calls with
      next := calls.next + 1
      stage := Function.update calls.stage calls.next (some none) } where
  making call key? hstage := by
    dsimp only at hstage
    by_cases hcall : call = calls.next
    · subst hcall
      refine ⟨Nat.lt_succ_self _, ?_, hcalls.fresh.2.2⟩
      intro hmem
      exact Nat.lt_irrefl _ (hcalls.registered_lt _ hmem)
    · rw [Function.update_of_ne hcall] at hstage
      obtain ⟨hlt, hrest⟩ := hcalls.making call key? hstage
      exact ⟨Nat.lt_succ_of_lt hlt, hrest⟩
  unannounced call key hstage := by
    dsimp only at hstage
    by_cases hcall : call = calls.next
    · subst hcall
      intro hmem
      exact Nat.lt_irrefl _ (hcalls.announced_lt _ key hmem)
    · rw [Function.update_of_ne hcall] at hstage
      exact hcalls.unannounced call key hstage
  announced call key hstage := by
    dsimp only at hstage
    by_cases hcall : call = calls.next
    · subst hcall
      rw [Function.update_self, Option.some.injEq] at hstage
      contradiction
    · rw [Function.update_of_ne hcall] at hstage
      exact hcalls.announced call key hstage
  outstanding := hcalls.outstanding
  announced_lt call key hmem :=
    Nat.lt_succ_of_lt (hcalls.announced_lt call key hmem)
  registered_lt call hmem := Nat.lt_succ_of_lt (hcalls.registered_lt call hmem)
  done_lt call hmem := Nat.lt_succ_of_lt (hcalls.done_lt call hmem)
  one_key := hcalls.one_key
  once := hcalls.once

theorem Consistent.announce (hcalls : Consistent calls) {call : ℕ} {key : Key}
    (hstage : calls.stage call = some none) :
    Consistent { calls with
      stage := Function.update calls.stage call (some (some key))
      announced := (call, key) :: calls.announced } where
  making other key? hother := by
    dsimp only at hother
    by_cases hcall : other = call
    · subst hcall
      exact hcalls.making other none hstage
    · rw [Function.update_of_ne hcall] at hother
      exact hcalls.making other key? hother
  unannounced other key' hother := by
    dsimp only at hother
    by_cases hcall : other = call
    · subst hcall
      rw [Function.update_self, Option.some.injEq] at hother
      contradiction
    · rw [Function.update_of_ne hcall] at hother
      intro hmem
      rcases List.mem_cons.mp hmem with hnew | hold
      · exact hcall (Prod.mk.inj hnew).1
      · exact hcalls.unannounced other key' hother hold
  announced other key' hother := by
    dsimp only at hother
    by_cases hcall : other = call
    · subst hcall
      rw [Function.update_self, Option.some.injEq, Option.some.injEq] at hother
      rw [hother]
      exact List.mem_cons_self
    · rw [Function.update_of_ne hcall] at hother
      exact List.mem_cons_of_mem _ (hcalls.announced other key' hother)
  outstanding key' other hother :=
    let ⟨hannounced, hrest⟩ := hcalls.outstanding key' other hother
    ⟨List.mem_cons_of_mem _ hannounced, hrest⟩
  announced_lt other key' hmem := by
    rcases List.mem_cons.mp hmem with hnew | hold
    · rw [(Prod.mk.inj hnew).1]
      exact (hcalls.making call none hstage).1
    · exact hcalls.announced_lt other key' hold
  registered_lt := hcalls.registered_lt
  done_lt := hcalls.done_lt
  one_key other key' other' hleft hright := by
    rcases List.mem_cons.mp hleft with hnew | hold
    · obtain ⟨hcall, rfl⟩ := Prod.mk.inj hnew
      rcases List.mem_cons.mp hright with hnew' | hold'
      · exact (Prod.mk.inj hnew').2.symm
      · rw [hcall] at hold'
        exact absurd hold' (hcalls.unannounced call other' hstage)
    · rcases List.mem_cons.mp hright with hnew' | hold'
      · rw [(Prod.mk.inj hnew').1] at hold
        exact absurd hold (hcalls.unannounced call key' hstage)
      · exact hcalls.one_key other key' other' hold hold'
  once := hcalls.once

/-- A table with fewer entries. -/
theorem Consistent.shrink (hcalls : Consistent calls)
    {table : Key → Option ℕ} (dropped : Set ℕ)
    (htable : ∀ key call, table key = some call →
      calls.table key = some call) :
    Consistent { calls with table, dropped } where
  making := hcalls.making
  unannounced := hcalls.unannounced
  announced := hcalls.announced
  outstanding key call hkey := hcalls.outstanding key call (htable key call hkey)
  announced_lt := hcalls.announced_lt
  registered_lt := hcalls.registered_lt
  done_lt := hcalls.done_lt
  one_key := hcalls.one_key
  once := hcalls.once

end Consistent

/-! ## Moves -/

inductive Move (Key Outcome : Type*) where
  /-- A number is spent on something that is no call. -/
  | skip
  | refuse (outcome : Outcome)
  | begin
  | announce (call : ℕ) (key : Key)
  | register (call : ℕ)
  | drop (call : ℕ)
  | clear
  | settle (key : Key) (outcome : Outcome)

variable [DecidableEq Key]

def step (calls : CallTable Key Outcome) :
    Move Key Outcome → Option (CallTable Key Outcome)
  | .skip => some { calls with next := calls.next + 1 }
  | .refuse outcome =>
      some { calls with
        next := calls.next + 1
        settled := (calls.next, outcome) :: calls.settled }
  | .begin =>
      some { calls with
        next := calls.next + 1
        stage := Function.update calls.stage calls.next (some none) }
  | .announce call key =>
      match calls.stage call with
      | some none =>
          some { calls with
            stage := Function.update calls.stage call (some (some key))
            announced := (call, key) :: calls.announced }
      | _ => none
  | .register call =>
      match calls.stage call with
      | some (some key) =>
          some { calls with
            stage := Function.update calls.stage call none
            table := Function.update calls.table key (some call)
            registered := call :: calls.registered }
      | _ => none
  | .drop call => some { calls with dropped := insert call calls.dropped }
  | .clear =>
      some { calls with
        table := fun _ => none
        dropped := calls.dropped ∪
          {call | ∃ key, calls.table key = some call} }
  | .settle key outcome =>
      match calls.table key with
      | none => some calls
      | some call =>
          some { calls with
            table := Function.update calls.table key none
            settled := (call, outcome) :: calls.settled }

section Inversion

variable {calls next : CallTable Key Outcome}

theorem step_announce {call : ℕ} {key : Key}
    (hstep : calls.step (.announce call key) = some next) :
    calls.stage call = some none ∧
      next = { calls with
        stage := Function.update calls.stage call (some (some key))
        announced := (call, key) :: calls.announced } := by
  simp only [step] at hstep
  split at hstep
  case h_1 hstage => exact ⟨hstage, (Option.some.inj hstep).symm⟩
  · contradiction

theorem step_register {call : ℕ}
    (hstep : calls.step (.register call) = some next) :
    ∃ key, calls.stage call = some (some key) ∧
      next = { calls with
        stage := Function.update calls.stage call none
        table := Function.update calls.table key (some call)
        registered := call :: calls.registered } := by
  simp only [step] at hstep
  split at hstep
  case h_1 key hstage => exact ⟨key, hstage, (Option.some.inj hstep).symm⟩
  · contradiction

theorem step_settle {key : Key} {outcome : Outcome}
    (hstep : calls.step (.settle key outcome) = some next) :
    calls.table key = none ∧ next = calls ∨
      ∃ call, calls.table key = some call ∧
        next = { calls with
          table := Function.update calls.table key none
          settled := (call, outcome) :: calls.settled } := by
  simp only [step] at hstep
  split at hstep
  case h_1 hkey => exact Or.inl ⟨hkey, (Option.some.inj hstep).symm⟩
  case h_2 call hkey =>
    exact Or.inr ⟨call, hkey, (Option.some.inj hstep).symm⟩

end Inversion

section Consistent

variable {calls next : CallTable Key Outcome}

theorem Consistent.register (hcalls : Consistent calls) {call : ℕ} {key : Key}
    (hstage : calls.stage call = some (some key)) :
    Consistent { calls with
      stage := Function.update calls.stage call none
      table := Function.update calls.table key (some call)
      registered := call :: calls.registered } where
  making other key? hother := by
    dsimp only at hother
    have hcall : other ≠ call := by
      rintro rfl
      rw [Function.update_self] at hother
      contradiction
    rw [Function.update_of_ne hcall] at hother
    obtain ⟨hlt, hunregistered, hundone⟩ := hcalls.making other key? hother
    refine ⟨hlt, ?_, hundone⟩
    intro hmem
    rcases List.mem_cons.mp hmem with hnew | hold
    · exact hcall hnew
    · exact hunregistered hold
  unannounced other key' hother := by
    dsimp only at hother
    by_cases hcall : other = call
    · subst hcall
      rw [Function.update_self] at hother
      contradiction
    · rw [Function.update_of_ne hcall] at hother
      exact hcalls.unannounced other key' hother
  announced other key' hother := by
    dsimp only at hother
    by_cases hcall : other = call
    · subst hcall
      rw [Function.update_self] at hother
      contradiction
    · rw [Function.update_of_ne hcall] at hother
      exact hcalls.announced other key' hother
  outstanding key' other hother := by
    dsimp only at hother
    by_cases hkey : key' = key
    · subst hkey
      rw [Function.update_self, Option.some.injEq] at hother
      subst hother
      exact ⟨hcalls.announced call key' hstage, List.mem_cons_self,
        (hcalls.making call _ hstage).2.2⟩
    · rw [Function.update_of_ne hkey] at hother
      obtain ⟨hannounced, hregistered, hundone⟩ :=
        hcalls.outstanding key' other hother
      exact ⟨hannounced, List.mem_cons_of_mem _ hregistered, hundone⟩
  announced_lt := hcalls.announced_lt
  registered_lt other hmem := by
    rcases List.mem_cons.mp hmem with rfl | hold
    · exact (hcalls.making other _ hstage).1
    · exact hcalls.registered_lt other hold
  done_lt := hcalls.done_lt
  one_key := hcalls.one_key
  once := hcalls.once

theorem update_none_eq_some {table : Key → Option ℕ} {key key' : Key}
    {call : ℕ} (hkey : Function.update table key none key' = some call) :
    key' ≠ key ∧ table key' = some call := by
  have hne : key' ≠ key := by
    rintro rfl
    rw [Function.update_self] at hkey
    contradiction
  rw [Function.update_of_ne hne] at hkey
  exact ⟨hne, hkey⟩

theorem Consistent.settle (hcalls : Consistent calls) {key : Key} {call : ℕ}
    (hkey : calls.table key = some call) (outcome : Outcome) :
    Consistent { calls with
      table := Function.update calls.table key none
      settled := (call, outcome) :: calls.settled } := by
  obtain ⟨hannounced, hregistered, hundone⟩ := hcalls.outstanding key call hkey
  have hfewer : ∀ key' call',
      Function.update calls.table key none key' = some call' →
        calls.table key' = some call' :=
    fun key' call' hkey' => (update_none_eq_some hkey').2
  apply (hcalls.shrink calls.dropped hfewer).settled (hcalls.registered_lt call hregistered)
  · cases hstage : calls.stage call with
    | none => rfl
    | some key? =>
        exact absurd hregistered (hcalls.making call key? hstage).2.1
  · intro key' hkey'
    obtain ⟨hne, hkey'⟩ := update_none_eq_some hkey'
    have hother := (hcalls.outstanding key' call hkey').1
    exact hne (hcalls.one_key call key' key hother hannounced)
  · exact hundone

theorem Consistent.step (hcalls : Consistent calls) {move : Move Key Outcome}
    (hstep : calls.step move = some next) : Consistent next := by
  cases move with
  | skip =>
      obtain rfl := Option.some.inj hstep
      exact hcalls.skip
  | refuse outcome =>
      obtain rfl := Option.some.inj hstep
      obtain ⟨hstage, htable, hdone⟩ := hcalls.fresh
      exact hcalls.skip.settled (Nat.lt_succ_self _) hstage htable hdone
        outcome
  | begin =>
      obtain rfl := Option.some.inj hstep
      exact hcalls.begin
  | announce call key =>
      obtain ⟨hstage, rfl⟩ := step_announce hstep
      exact hcalls.announce hstage
  | register call =>
      obtain ⟨key, hstage, rfl⟩ := step_register hstep
      exact hcalls.register hstage
  | drop call =>
      obtain rfl := Option.some.inj hstep
      exact hcalls.shrink _ fun _ _ hkey => hkey
  | clear =>
      obtain rfl := Option.some.inj hstep
      exact hcalls.shrink _ fun _ _ hkey => absurd hkey.symm
        (Option.some_ne_none _)
  | settle key outcome =>
      rcases step_settle hstep with ⟨-, rfl⟩ | ⟨call, hkey, rfl⟩
      · exact hcalls
      · exact hcalls.settle hkey outcome

end Consistent

/-! ## Runs -/

section Runs

variable {calls next : CallTable Key Outcome} {move : Move Key Outcome}

theorem Consistent.exec {moves : List (Move Key Outcome)}
    (hcalls : Consistent calls)
    (hrun : exec CallTable.step calls moves = some next) :
    Consistent next :=
  exec_invariant (fun _ _ _ hcalls hstep => hcalls.step hstep) hcalls hrun

/-- A call that is begun, announced and registered with nothing between. -/
theorem exec_begin_announce_register (hfresh : calls.stage calls.next = none)
    (key : Key) :
    exec step calls
        [.begin, .announce calls.next key, .register calls.next] =
      some { calls with
        next := calls.next + 1
        table := Function.update calls.table key (some calls.next)
        announced := (calls.next, key) :: calls.announced
        registered := calls.next :: calls.registered } := by
  have hstage : Function.update calls.stage calls.next none = calls.stage :=
    Function.update_eq_self_iff.mpr hfresh.symm
  simp only [Runs.exec, step, Function.update_self, Function.update_idem,
    hstage]

/-- Settling the calls of a list of entries, each by its own key. -/
theorem exec_settle {Entry : Type*} (key : Entry → Key) (call : Entry → ℕ)
    {entries : List Entry} (hkeys : (entries.map key).Nodup)
    (hentries : ∀ entry ∈ entries,
      calls.table (key entry) = some (call entry))
    (outcome : Outcome) :
    exec step calls (entries.map fun entry => .settle (key entry) outcome) =
      some { calls with
        table := (entries.map key).foldl
          (fun table key => Function.update table key none) calls.table
        settled := (entries.map fun entry => (call entry, outcome)).reverse ++
          calls.settled } := by
  induction entries generalizing calls with
  | nil => rfl
  | cons entry rest ih =>
      rw [List.map_cons, List.nodup_cons] at hkeys
      have hfirst : calls.step (.settle (key entry) outcome) =
          some { calls with
            table := Function.update calls.table (key entry) none
            settled := (call entry, outcome) :: calls.settled } := by
        simp only [step, hentries entry List.mem_cons_self]
      have hlater : ∀ other ∈ rest,
          Function.update calls.table (key entry) none (key other) =
            some (call other) := by
        intro other hother
        rw [Function.update_of_ne]
        · exact hentries other (List.mem_cons_of_mem _ hother)
        · intro hsame
          apply hkeys.1
          rw [← hsame]
          exact List.mem_map_of_mem hother
      rw [List.map_cons, exec_cons_eq_some]
      refine ⟨_, hfirst, ?_⟩
      rw [ih hkeys.2 hlater]
      simp

/-- Out of the table and not settled. -/
structure Lost (calls : CallTable Key Outcome) (call : ℕ) : Prop where
  registered : call ∈ calls.registered
  absent : ∀ key, calls.table key ≠ some call
  unsettled : call ∉ calls.done

/-- Every registered call is in the table or settled. -/
def Complete (calls : CallTable Key Outcome) : Prop :=
  ∀ call, ¬Lost calls call

/-- A call is registered under a key that is free. -/
def RegistersFree (calls : CallTable Key Outcome) : Move Key Outcome → Prop
  | .register call =>
      ∀ key, calls.stage call = some (some key) → calls.table key = none
  | _ => True

/-- Nothing leaves the table unsettled. -/
def Keeps (calls : CallTable Key Outcome) : Move Key Outcome → Prop
  | .clear => ∀ key, calls.table key = none
  | move => calls.RegistersFree move

omit [DecidableEq Key] in
theorem RegistersFree.of_keeps (hkeeps : calls.Keeps move) :
    calls.RegistersFree move := by
  cases move with
  | register call => exact hkeeps
  | _ => trivial

/-- Moves that keep every table. -/
theorem allSteps_keeps {moves : List (Move Key Outcome)}
    (hmoves : ∀ move ∈ moves, ∀ calls : CallTable Key Outcome,
      calls.Keeps move) :
    AllSteps step (fun calls move _ => calls.Keeps move) calls moves := by
  induction moves generalizing calls with
  | nil => trivial
  | cons move rest ih =>
      cases hnext : calls.step move with
      | none => exact allSteps_cons_of_stuck hnext
      | some next =>
          rw [allSteps_cons_of_step hnext]
          exact ⟨hmoves move List.mem_cons_self calls,
            ih fun other hother => hmoves other (List.mem_cons_of_mem _ hother)⟩

/-- A lost call stays lost. -/
theorem Lost.step {call : ℕ} (hlost : Lost calls call)
    (hcalls : Consistent calls) (hstep : calls.step move = some next) :
    Lost next call := by
  obtain ⟨hregistered, habsent, hunsettled⟩ := hlost
  cases move with
  | skip =>
      obtain rfl := Option.some.inj hstep
      exact ⟨hregistered, habsent, hunsettled⟩
  | refuse outcome =>
      obtain rfl := Option.some.inj hstep
      refine ⟨hregistered, habsent, ?_⟩
      intro hdone
      rcases List.mem_cons.mp hdone with rfl | hold
      · exact Nat.lt_irrefl _ (hcalls.registered_lt _ hregistered)
      · exact hunsettled hold
  | begin =>
      obtain rfl := Option.some.inj hstep
      exact ⟨hregistered, habsent, hunsettled⟩
  | announce other key =>
      obtain ⟨hstage, rfl⟩ := step_announce hstep
      exact ⟨hregistered, habsent, hunsettled⟩
  | register other =>
      obtain ⟨key, hstage, rfl⟩ := step_register hstep
      refine ⟨List.mem_cons_of_mem _ hregistered, ?_, hunsettled⟩
      intro key' hkey'
      dsimp only at hkey'
      by_cases hkey : key' = key
      · subst hkey
        rw [Function.update_self, Option.some.injEq] at hkey'
        subst hkey'
        exact (hcalls.making other _ hstage).2.1 hregistered
      · rw [Function.update_of_ne hkey] at hkey'
        exact habsent key' hkey'
  | drop other =>
      obtain rfl := Option.some.inj hstep
      exact ⟨hregistered, habsent, hunsettled⟩
  | clear =>
      obtain rfl := Option.some.inj hstep
      exact ⟨hregistered, fun _ hkey => Option.some_ne_none _ hkey.symm,
        hunsettled⟩
  | settle key outcome =>
      rcases step_settle hstep with ⟨-, rfl⟩ | ⟨other, hkey, rfl⟩
      · exact ⟨hregistered, habsent, hunsettled⟩
      · refine ⟨hregistered,
          fun key' hkey' => habsent key' (update_none_eq_some hkey').2, ?_⟩
        intro hdone
        rcases List.mem_cons.mp hdone with rfl | hold
        · exact habsent key hkey
        · exact hunsettled hold

theorem Lost.exec {moves : List (Move Key Outcome)} {call : ℕ}
    (hlost : Lost calls call) (hcalls : Consistent calls)
    (hrun : exec CallTable.step calls moves = some next) : Lost next call := by
  have hkept : ∀ (calls : CallTable Key Outcome) (move : Move Key Outcome)
      (next : CallTable Key Outcome), Consistent calls ∧ Lost calls call →
      CallTable.step calls move = some next →
        Consistent next ∧ Lost next call := by
    rintro calls move next ⟨hcalls, hlost⟩ hstep
    exact ⟨hcalls.step hstep, hlost.step hcalls hstep⟩
  exact (exec_invariant hkept ⟨hcalls, hlost⟩ hrun).2

theorem Complete.step (hcomplete : Complete calls)
    (hstep : calls.step move = some next) (hkeeps : calls.Keeps move) :
    Complete next := by
  intro call hlost
  apply hcomplete call
  obtain ⟨hregistered, habsent, hunsettled⟩ := hlost
  cases move with
  | skip =>
      obtain rfl := Option.some.inj hstep
      exact ⟨hregistered, habsent, hunsettled⟩
  | refuse outcome =>
      obtain rfl := Option.some.inj hstep
      exact ⟨hregistered, habsent,
        fun hdone => hunsettled (List.mem_cons_of_mem _ hdone)⟩
  | begin =>
      obtain rfl := Option.some.inj hstep
      exact ⟨hregistered, habsent, hunsettled⟩
  | announce other key =>
      obtain ⟨hstage, rfl⟩ := step_announce hstep
      exact ⟨hregistered, habsent, hunsettled⟩
  | register other =>
      obtain ⟨key, hstage, rfl⟩ := step_register hstep
      have hfree : calls.table key = none := hkeeps key hstage
      refine ⟨?_, ?_, hunsettled⟩
      · rcases List.mem_cons.mp hregistered with rfl | hold
        · exact absurd (Function.update_self _ _ _) (habsent key)
        · exact hold
      · intro key' hkey'
        apply habsent key'
        rw [← hkey']
        apply Function.update_of_ne
        rintro rfl
        rw [hfree] at hkey'
        contradiction
  | drop other =>
      obtain rfl := Option.some.inj hstep
      exact ⟨hregistered, habsent, hunsettled⟩
  | clear =>
      obtain rfl := Option.some.inj hstep
      refine ⟨hregistered, ?_, hunsettled⟩
      intro key hkey
      rw [hkeeps key] at hkey
      contradiction
  | settle key outcome =>
      rcases step_settle hstep with ⟨-, rfl⟩ | ⟨other, hkey, rfl⟩
      · exact ⟨hregistered, habsent, hunsettled⟩
      · refine ⟨hregistered, ?_,
          fun hdone => hunsettled (List.mem_cons_of_mem _ hdone)⟩
        intro key' hkey'
        by_cases hsame : key' = key
        · subst hsame
          rw [hkey, Option.some.injEq] at hkey'
          subst hkey'
          exact hunsettled List.mem_cons_self
        · exact habsent key' ((Function.update_of_ne hsame _ _).trans hkey')

theorem lost_of_not_keeps (hcalls : Consistent calls)
    (hstep : calls.step move = some next) (hkeeps : ¬calls.Keeps move) :
    ∃ call, Lost next call := by
  cases move with
  | register call =>
      obtain ⟨key, hstage, rfl⟩ := step_register hstep
      have htaken : calls.table key ≠ none := by
        intro hfree
        apply hkeeps
        intro key' hstage'
        rw [hstage, Option.some.injEq, Option.some.injEq] at hstage'
        exact hstage' ▸ hfree
      obtain ⟨other, hother⟩ := Option.ne_none_iff_exists'.mp htaken
      obtain ⟨hannounced, hregistered, hunsettled⟩ :=
        hcalls.outstanding key other hother
      refine ⟨other, List.mem_cons_of_mem _ hregistered, ?_, hunsettled⟩
      intro key' hkey'
      dsimp only at hkey'
      by_cases hsame : key' = key
      · subst hsame
        rw [Function.update_self, Option.some.injEq] at hkey'
        subst hkey'
        exact (hcalls.making call _ hstage).2.1 hregistered
      · rw [Function.update_of_ne hsame] at hkey'
        exact hsame (hcalls.one_key other key' key
          (hcalls.outstanding key' other hkey').1 hannounced)
  | clear =>
      obtain rfl := Option.some.inj hstep
      rw [Keeps, not_forall] at hkeeps
      obtain ⟨key, htaken⟩ := hkeeps
      obtain ⟨call, hcall⟩ := Option.ne_none_iff_exists'.mp htaken
      obtain ⟨-, hregistered, hunsettled⟩ := hcalls.outstanding key call hcall
      exact ⟨call, hregistered,
        fun _ hkey => Option.some_ne_none _ hkey.symm, hunsettled⟩
  | _ => exact absurd trivial hkeeps

/-- A run loses no call if and only if each of its moves keeps the table. -/
theorem complete_exec_iff {moves : List (Move Key Outcome)}
    (hcalls : Consistent calls) (hcomplete : Complete calls)
    (hrun : exec step calls moves = some next) :
    Complete next ↔
      AllSteps step (fun calls move _ => calls.Keeps move) calls moves := by
  induction moves generalizing calls with
  | nil =>
      obtain rfl : calls = next := Option.some.inj hrun
      exact iff_of_true hcomplete trivial
  | cons move rest ih =>
      obtain ⟨middle, hmiddle, hrest⟩ := exec_cons_eq_some.mp hrun
      rw [allSteps_cons_of_step hmiddle]
      by_cases hkeeps : calls.Keeps move
      · rw [ih (hcalls.step hmiddle) (hcomplete.step hmiddle hkeeps) hrest]
        exact (and_iff_right hkeeps).symm
      · apply iff_of_false
        · obtain ⟨call, hlost⟩ := lost_of_not_keeps hcalls hmiddle hkeeps
          exact fun hnext =>
            hnext call (hlost.exec (hcalls.step hmiddle) hrest)
        · exact fun hall => hkeeps hall.1

/-- An announced call that is neither settled nor dropped is about to be
registered or in the table. -/
def Traced (calls : CallTable Key Outcome) : Prop :=
  ∀ call key, (call, key) ∈ calls.announced → call ∉ calls.done →
    call ∉ calls.dropped →
      calls.stage call = some (some key) ∨ calls.table key = some call

theorem Traced.step (htraced : Traced calls) (hcalls : Consistent calls)
    (hstep : calls.step move = some next)
    (hfree : calls.RegistersFree move) : Traced next := by
  intro call key hannounced hundone hundropped
  cases move with
  | skip =>
      obtain rfl := Option.some.inj hstep
      exact htraced call key hannounced hundone hundropped
  | refuse outcome =>
      obtain rfl := Option.some.inj hstep
      exact htraced call key hannounced
        (fun hdone => hundone (List.mem_cons_of_mem _ hdone)) hundropped
  | begin =>
      obtain rfl := Option.some.inj hstep
      dsimp only at hannounced ⊢
      have hne : call ≠ calls.next :=
        Nat.ne_of_lt (hcalls.announced_lt call key hannounced)
      rw [Function.update_of_ne hne]
      exact htraced call key hannounced hundone hundropped
  | announce other key' =>
      obtain ⟨hstage, rfl⟩ := step_announce hstep
      dsimp only at hannounced ⊢
      rcases List.mem_cons.mp hannounced with hnew | hold
      · obtain ⟨rfl, rfl⟩ := Prod.mk.inj hnew
        exact Or.inl (Function.update_self _ _ _)
      · have hne : call ≠ other := by
          rintro rfl
          exact hcalls.unannounced call key hstage hold
        rw [Function.update_of_ne hne]
        exact htraced call key hold hundone hundropped
  | register other =>
      obtain ⟨key', hstage, rfl⟩ := step_register hstep
      dsimp only at hannounced ⊢
      by_cases hsame : call = other
      · subst hsame
        have hkey : key = key' := hcalls.one_key call key key' hannounced
          (hcalls.announced call key' hstage)
        subst hkey
        exact Or.inr (Function.update_self _ _ _)
      · rw [Function.update_of_ne hsame]
        rcases htraced call key hannounced hundone hundropped
          with hmaking | htable
        · exact Or.inl hmaking
        · right
          rw [← htable]
          apply Function.update_of_ne
          rintro rfl
          rw [hfree key hstage] at htable
          contradiction
  | drop other =>
      obtain rfl := Option.some.inj hstep
      exact htraced call key hannounced hundone
        fun hdropped => hundropped (Set.mem_insert_of_mem _ hdropped)
  | clear =>
      obtain rfl := Option.some.inj hstep
      rcases htraced call key hannounced hundone
        (fun hdropped => hundropped (Or.inl hdropped)) with hmaking | htable
      · exact Or.inl hmaking
      · exact absurd (Or.inr ⟨key, htable⟩) hundropped
  | settle key' outcome =>
      rcases step_settle hstep with ⟨-, rfl⟩ | ⟨other, hkey, rfl⟩
      · exact htraced call key hannounced hundone hundropped
      · rcases htraced call key hannounced
          (fun hdone => hundone (List.mem_cons_of_mem _ hdone)) hundropped
          with hmaking | htable
        · exact Or.inl hmaking
        · right
          rw [← htable]
          apply Function.update_of_ne
          rintro rfl
          rw [hkey, Option.some.injEq] at htable
          subst htable
          exact hundone List.mem_cons_self

theorem Traced.exec {moves : List (Move Key Outcome)}
    (htraced : Traced calls) (hcalls : Consistent calls)
    (hfree : AllSteps CallTable.step
      (fun calls move _ => calls.RegistersFree move) calls moves)
    (hrun : exec CallTable.step calls moves = some next) : Traced next := by
  have hkept : ∀ (calls : CallTable Key Outcome) (move : Move Key Outcome)
      (next : CallTable Key Outcome), Consistent calls ∧ Traced calls →
      CallTable.step calls move = some next → calls.RegistersFree move →
        Consistent next ∧ Traced next := by
    rintro calls move next ⟨hcalls, htraced⟩ hstep hfree
    exact ⟨hcalls.step hstep, htraced.step hcalls hstep hfree⟩
  exact (exec_invariant_of_allSteps hkept ⟨hcalls, htraced⟩ hfree hrun).2

end Runs

end CallTable

end GrpcMtk
