import Mathlib.Data.List.Basic
import Mathlib.Data.List.Induction

/-!
# Runs of a partial step function

A system is a partial step function: an action either leads to one next state
or is not enabled.  This file fixes the two notions every safety argument
needs, the state a run ends in and a condition on all steps of a run, and
packages the two inductions over them: an invariant kept by the steps that
meet a condition, and the exchange of one step condition for another under an
invariant.
-/

namespace GrpcMtk.Runs

variable {State Action : Type*}

/-- The state reached by a run, if every action of it is enabled. -/
def exec (step : State → Action → Option State) :
    State → List Action → Option State
  | state, [] => some state
  | state, action :: rest =>
      match step state action with
      | none => none
      | some next => exec step next rest

/-- Every step the run takes satisfies `holds` of its source, its action and
its target.  The run stops at the first action that is not enabled. -/
def AllSteps (step : State → Action → Option State)
    (holds : State → Action → State → Prop) : State → List Action → Prop
  | _, [] => True
  | state, action :: rest =>
      match step state action with
      | none => True
      | some next =>
          holds state action next ∧ AllSteps step holds next rest

instance decidableAllSteps (step : State → Action → Option State)
    (holds : State → Action → State → Prop)
    [decide : ∀ state action next, Decidable (holds state action next)] :
    ∀ state actions, Decidable (AllSteps step holds state actions)
  | _, [] => isTrue trivial
  | state, action :: rest =>
      match hnext : step state action with
      | none => isTrue (by simp [AllSteps, hnext])
      | some next =>
          match decide state action next,
              decidableAllSteps step holds next rest with
          | isTrue hhere, isTrue hrest =>
              isTrue (by simpa [AllSteps, hnext] using ⟨hhere, hrest⟩)
          | isFalse hhere, _ =>
              isFalse (by simp [AllSteps, hnext, hhere])
          | _, isFalse hrest =>
              isFalse (by simp [AllSteps, hnext, hrest])

/-- What the steps of a run show, in their order. -/
def observed {Item : Type*} (step : State → Action → Option State)
    (observe : State → Action → List Item) : State → List Action → List Item
  | _, [] => []
  | state, action :: rest =>
      match step state action with
      | none => []
      | some next => observe state action ++ observed step observe next rest

section Basic

variable {step : State → Action → Option State}
variable {holds : State → Action → State → Prop}

theorem observed_cons_of_step {Item : Type*}
    {observe : State → Action → List Item} {state next : State}
    {action : Action} (hnext : step state action = some next)
    (rest : List Action) :
    observed step observe state (action :: rest) =
      observe state action ++ observed step observe next rest := by
  rw [observed, hnext]

@[simp]
theorem exec_nil (state : State) : exec step state [] = some state := rfl

theorem exec_cons_eq_some {state final : State} {action : Action}
    {rest : List Action} :
    exec step state (action :: rest) = some final ↔
      ∃ next, step state action = some next ∧
        exec step next rest = some final := by
  cases hnext : step state action <;> simp [exec, hnext]

@[simp]
theorem allSteps_nil (state : State) : AllSteps step holds state [] := trivial

theorem allSteps_cons_of_step {state next : State} {action : Action}
    {rest : List Action} (hnext : step state action = some next) :
    AllSteps step holds state (action :: rest) ↔
      holds state action next ∧ AllSteps step holds next rest := by
  simp [AllSteps, hnext]

theorem allSteps_cons_of_stuck {state : State} {action : Action}
    {rest : List Action} (hstuck : step state action = none) :
    AllSteps step holds state (action :: rest) := by
  simp [AllSteps, hstuck]

theorem AllSteps.mono {other : State → Action → State → Prop}
    (hmono : ∀ state action next, step state action = some next →
      holds state action next → other state action next)
    {state : State} {actions : List Action}
    (hall : AllSteps step holds state actions) :
    AllSteps step other state actions := by
  induction actions generalizing state with
  | nil => trivial
  | cons action rest ih =>
      cases hnext : step state action with
      | none => exact allSteps_cons_of_stuck hnext
      | some next =>
          rw [allSteps_cons_of_step hnext] at hall ⊢
          exact ⟨hmono state action next hnext hall.1, ih hall.2⟩

/-- Two step conditions that agree at every step agree along every run. -/
theorem allSteps_congr {holds other : State → Action → State → Prop}
    (hiff : ∀ state action next, step state action = some next →
      (holds state action next ↔ other state action next))
    (state : State) (actions : List Action) :
    AllSteps step holds state actions ↔ AllSteps step other state actions :=
  ⟨fun hall => hall.mono fun state action next hstep =>
      (hiff state action next hstep).mp,
    fun hall => hall.mono fun state action next hstep =>
      (hiff state action next hstep).mpr⟩

end Basic

/-- What is recorded beside the states of a system leaves its runs alone. -/
theorem exec_erase {Base : Type*} {step : State → Action → Option State}
    {base : Base → Action → Option Base} {erase : State → Base}
    (herase : ∀ state action,
      (step state action).map erase = base (erase state) action)
    (state : State) (actions : List Action) :
    (exec step state actions).map erase =
      exec base (erase state) actions := by
  induction actions generalizing state with
  | nil => rfl
  | cons action rest ih =>
      rw [exec, exec, ← herase]
      cases step state action with
      | none => rfl
      | some next => exact ih next

section Turns

variable {step : State → Action → Option State}

theorem exec_append_eq_some {state final : State} {before after : List Action} :
    exec step state (before ++ after) = some final ↔
      ∃ middle, exec step state before = some middle ∧
        exec step middle after = some final := by
  induction before generalizing state with
  | nil => simp
  | cons action rest ih =>
      rw [List.cons_append, exec_cons_eq_some]
      simp only [ih, exec_cons_eq_some]
      constructor
      · rintro ⟨next, hnext, middle, hbefore, hafter⟩
        exact ⟨middle, ⟨next, hnext, hbefore⟩, hafter⟩
      · rintro ⟨middle, ⟨next, hnext, hbefore⟩, hafter⟩
        exact ⟨next, hnext, middle, hbefore, hafter⟩

theorem allSteps_append {holds : State → Action → State → Prop}
    {state middle : State} {before after : List Action}
    (hbefore : exec step state before = some middle) :
    AllSteps step holds state (before ++ after) ↔
      AllSteps step holds state before ∧ AllSteps step holds middle after := by
  induction before generalizing state with
  | nil =>
      obtain rfl := Option.some.inj hbefore
      exact (and_iff_right trivial).symm
  | cons action rest ih =>
      obtain ⟨next, hnext, hrest⟩ := exec_cons_eq_some.mp hbefore
      rw [List.cons_append, allSteps_cons_of_step hnext,
        allSteps_cons_of_step hnext, ih hrest, and_assoc]

/-- A run that ends where it did not start has a last step that turned to
`holds`. -/
theorem exists_last_turn {holds : State → Prop} {state final : State}
    {actions : List Action} (hrun : exec step state actions = some final)
    (hinit : ¬holds state) (hfinal : holds final) :
    ∃ before action after source target,
      actions = before ++ action :: after ∧
        exec step state before = some source ∧ ¬holds source ∧
        step source action = some target ∧ holds target ∧
        exec step target after = some final ∧
        AllSteps step (fun source _ target => holds source ∧ holds target)
          target after := by
  induction actions using List.reverseRecOn generalizing final with
  | nil =>
      obtain rfl := Option.some.inj hrun
      exact absurd hfinal hinit
  | append_singleton actions last ih =>
      obtain ⟨source, hactions, hlast⟩ := exec_append_eq_some.mp hrun
      obtain ⟨target, hstep, htarget⟩ := exec_cons_eq_some.mp hlast
      obtain rfl := Option.some.inj htarget
      by_cases hsource : holds source
      · obtain ⟨before, action, after, left, right, rfl, hbefore, hleft,
          hturn, hright, hafter, hsince⟩ := ih hactions hsource
        refine ⟨before, action, after ++ [last], left, right, ?_, hbefore,
          hleft, hturn, hright, ?_, ?_⟩
        · rw [List.append_assoc, List.cons_append]
        · exact exec_append_eq_some.mpr ⟨source, hafter, hlast⟩
        · rw [allSteps_append hafter, allSteps_cons_of_step hstep]
          exact ⟨hsince, ⟨hsource, hfinal⟩, trivial⟩
      · exact ⟨actions, last, [], source, target, rfl, hactions, hsource,
          hstep, hfinal, rfl, trivial⟩

end Turns

section Invariants

variable {step : State → Action → Option State}
variable {invariant : State → Prop}

/-- A condition every step keeps holds at the end of every run. -/
theorem exec_invariant
    (hstep : ∀ state action next, invariant state →
      step state action = some next → invariant next)
    {state final : State} {actions : List Action}
    (hinit : invariant state) (hrun : exec step state actions = some final) :
    invariant final := by
  induction actions generalizing state with
  | nil =>
      obtain rfl : state = final := Option.some.inj hrun
      exact hinit
  | cons action rest ih =>
      obtain ⟨next, hnext, hrest⟩ := exec_cons_eq_some.mp hrun
      exact ih (hstep state action next hinit hnext) hrest

variable {good : State → Action → State → Prop}

/-- A condition kept by the steps that satisfy `good` holds at the end of
every run all of whose steps do. -/
theorem exec_invariant_of_allSteps
    (hstep : ∀ state action next, invariant state →
      step state action = some next → good state action next →
        invariant next)
    {state final : State} {actions : List Action}
    (hinit : invariant state)
    (hgood : AllSteps step good state actions)
    (hrun : exec step state actions = some final) :
    invariant final := by
  induction actions generalizing state with
  | nil =>
      obtain rfl : state = final := Option.some.inj hrun
      exact hinit
  | cons action rest ih =>
      obtain ⟨next, hnext, hrest⟩ := exec_cons_eq_some.mp hrun
      rw [allSteps_cons_of_step hnext] at hgood
      exact ih (hstep state action next hinit hnext hgood.1) hgood.2 hrest

/-- A condition kept by the steps of the actions in `allowed` holds at the end
of every run of such actions. -/
theorem exec_invariant_of_forall {allowed : Action → Prop}
    (hstep : ∀ state action next, invariant state → allowed action →
      step state action = some next → invariant next)
    {state final : State} {actions : List Action}
    (hinit : invariant state) (hallowed : ∀ action ∈ actions, allowed action)
    (hrun : exec step state actions = some final) : invariant final := by
  induction actions generalizing state with
  | nil =>
      obtain rfl : state = final := Option.some.inj hrun
      exact hinit
  | cons action rest ih =>
      obtain ⟨next, hnext, hrest⟩ := exec_cons_eq_some.mp hrun
      obtain ⟨haction, hothers⟩ := List.forall_mem_cons.mp hallowed
      exact ih (hstep state action next hinit haction hnext) hothers hrest

/-- A condition on the target that the steps of the actions in `allowed` only
reach from where it holds already holds at the start of such a run. -/
theorem exec_reflect_of_forall {allowed : Action → Prop} {holds : State → Prop}
    (hstep : ∀ state action next, allowed action →
      step state action = some next → holds next → holds state)
    {state final : State} {actions : List Action}
    (hallowed : ∀ action ∈ actions, allowed action)
    (hrun : exec step state actions = some final) (hfinal : holds final) :
    holds state := by
  induction actions generalizing state with
  | nil =>
      obtain rfl : state = final := Option.some.inj hrun
      exact hfinal
  | cons action rest ih =>
      obtain ⟨next, hnext, hrest⟩ := exec_cons_eq_some.mp hrun
      obtain ⟨haction, hothers⟩ := List.forall_mem_cons.mp hallowed
      exact hstep state action next haction hnext (ih hothers hrest)

/-- What every step of an action in `allowed` decreases bounds the length of
every run of such actions. -/
theorem exec_length_add_le {allowed : Action → Prop} {measure : State → ℕ}
    (hstep : ∀ state action next, invariant state → allowed action →
      step state action = some next → invariant next)
    (hless : ∀ state action next, invariant state → allowed action →
      step state action = some next → measure next < measure state)
    {state final : State} {actions : List Action}
    (hinit : invariant state) (hallowed : ∀ action ∈ actions, allowed action)
    (hrun : exec step state actions = some final) :
    actions.length + measure final ≤ measure state := by
  induction actions generalizing state with
  | nil =>
      obtain rfl : state = final := Option.some.inj hrun
      exact Nat.le_of_eq (Nat.zero_add _)
  | cons action rest ih =>
      obtain ⟨next, hnext, hrest⟩ := exec_cons_eq_some.mp hrun
      obtain ⟨haction, hothers⟩ := List.forall_mem_cons.mp hallowed
      have hrest' := ih (hstep state action next hinit haction hnext)
        hothers hrest
      have hfirst := hless state action next hinit haction hnext
      rw [List.length_cons]
      omega

/-- What an invariant gives at each step holds at every step of a run. -/
theorem allSteps_of_invariant {holds : State → Action → State → Prop}
    (hstep : ∀ state action next, invariant state →
      step state action = some next → invariant next)
    (hholds : ∀ state action next, invariant state →
      step state action = some next → holds state action next)
    {state : State} {actions : List Action} (hinit : invariant state) :
    AllSteps step holds state actions := by
  induction actions generalizing state with
  | nil => trivial
  | cons action rest ih =>
      cases hnext : step state action with
      | none => exact allSteps_cons_of_stuck hnext
      | some next =>
          rw [allSteps_cons_of_step hnext]
          exact ⟨hholds state action next hinit hnext,
            ih (hstep state action next hinit hnext)⟩

/-- What the steps that satisfy `good` do, from a state satisfying the
invariant they keep, holds at every step of a run of such steps. -/
theorem AllSteps.of_invariant {holds : State → Action → State → Prop}
    (hstep : ∀ state action next, invariant state →
      step state action = some next → good state action next →
        invariant next)
    (hholds : ∀ state action next, invariant state →
      step state action = some next → good state action next →
        holds state action next)
    {state : State} (hinit : invariant state) {actions : List Action}
    (hgood : AllSteps step good state actions) :
    AllSteps step holds state actions := by
  induction actions generalizing state with
  | nil => trivial
  | cons action rest ih =>
      cases hnext : step state action with
      | none => exact allSteps_cons_of_stuck hnext
      | some next =>
          rw [allSteps_cons_of_step hnext] at hgood ⊢
          exact ⟨hholds state action next hinit hnext hgood.1,
            ih (hstep state action next hinit hnext hgood.1) hgood.2⟩

/-- Two step conditions agree along every run when they agree at each step
taken from a state satisfying the invariant, and the second one keeps it. -/
theorem allSteps_iff_of_invariant
    {holds : State → Action → State → Prop}
    (hstep : ∀ state action next, invariant state →
      step state action = some next → good state action next →
        invariant next)
    (hiff : ∀ state action next, invariant state →
      step state action = some next →
        (holds state action next ↔ good state action next))
    {state : State} (hinit : invariant state) (actions : List Action) :
    AllSteps step holds state actions ↔ AllSteps step good state actions := by
  induction actions generalizing state with
  | nil => exact Iff.rfl
  | cons action rest ih =>
      cases hnext : step state action with
      | none => simp [AllSteps, hnext]
      | some next =>
          rw [allSteps_cons_of_step hnext, allSteps_cons_of_step hnext,
            hiff state action next hinit hnext]
          constructor
          · rintro ⟨hgood, hrest⟩
            exact ⟨hgood,
              (ih (hstep state action next hinit hnext hgood)).mp hrest⟩
          · rintro ⟨hgood, hrest⟩
            exact ⟨hgood,
              (ih (hstep state action next hinit hnext hgood)).mpr hrest⟩

/-- What holds of every step holds along every run. -/
theorem allSteps_of_forall {holds : State → Action → State → Prop}
    (hholds : ∀ state action next, step state action = some next →
      holds state action next)
    (state : State) (actions : List Action) :
    AllSteps step holds state actions :=
  @allSteps_of_invariant _ _ step (fun _ => True) holds
    (fun _ _ _ _ _ => trivial)
    (fun state action next _ => hholds state action next) state actions trivial

/-- Two step conditions that agree at each step taken from a state satisfying
the invariant agree along every run whose steps keep it. -/
theorem allSteps_congr_of_invariant
    {holds other : State → Action → State → Prop}
    (hstep : ∀ state action next, invariant state →
      step state action = some next → good state action next →
        invariant next)
    (hiff : ∀ state action next, invariant state →
      step state action = some next →
        (holds state action next ↔ other state action next))
    {state : State} (hinit : invariant state) {actions : List Action}
    (hgood : AllSteps step good state actions) :
    AllSteps step holds state actions ↔ AllSteps step other state actions := by
  induction actions generalizing state with
  | nil => exact Iff.rfl
  | cons action rest ih =>
      cases hnext : step state action with
      | none => simp [AllSteps, hnext]
      | some next =>
          rw [allSteps_cons_of_step hnext] at hgood
          rw [allSteps_cons_of_step hnext, allSteps_cons_of_step hnext,
            hiff state action next hinit hnext,
            ih (hstep state action next hinit hnext hgood.1) hgood.2]

end Invariants

/-! ## Histories -/

section Histories

variable {Item : Type*}

/-- `start` is in the history, and nothing that `ends` it comes behind it. -/
def Since (start : Item) (ends : Item → Prop) (history : List Item) : Prop :=
  ∃ before after, history = before ++ start :: after ∧
    ∀ item ∈ after, ¬ends item

variable {start : Item} {ends : Item → Prop}

@[simp]
theorem since_nil : ¬Since start ends [] := by
  rintro ⟨before, after, hhistory, -⟩
  exact List.append_ne_nil_of_right_ne_nil before (by simp) hhistory.symm

theorem since_concat {history : List Item} {item : Item} :
    Since start ends (history ++ [item]) ↔
      item = start ∨ Since start ends history ∧ ¬ends item := by
  constructor
  · rintro ⟨before, after, hhistory, hkept⟩
    induction after using List.reverseRecOn with
    | nil =>
        obtain ⟨-, hlast⟩ := List.append_inj' hhistory rfl
        exact Or.inl (List.singleton_injective hlast)
    | append_singleton after last _ =>
        rw [← List.cons_append, ← List.append_assoc] at hhistory
        obtain ⟨hrest, hlast⟩ := List.append_inj' hhistory rfl
        obtain rfl := List.singleton_injective hlast
        refine Or.inr ⟨⟨before, after, hrest, fun other hmem => ?_⟩, ?_⟩
        · exact hkept other (List.mem_append_left _ hmem)
        · exact hkept item (List.mem_append_right _ (List.mem_singleton_self _))
  · rintro (rfl | ⟨⟨before, after, rfl, hkept⟩, hends⟩)
    · exact ⟨history, [], rfl, by simp⟩
    · refine ⟨before, after ++ [item], by simp, fun other hmem => ?_⟩
      rcases List.mem_append.mp hmem with hafter | hlast
      · exact hkept other hafter
      · rwa [List.mem_singleton.mp hlast]

/-- What holds at every place of a list, with what stands before and behind
it. -/
theorem forall_split_cons {holds : List Item → Item → List Item → Prop}
    {first : Item} {rest : List Item} :
    (∀ before item after, first :: rest = before ++ item :: after →
        holds before item after) ↔
      holds [] first rest ∧
        ∀ before item after, rest = before ++ item :: after →
          holds (first :: before) item after := by
  constructor
  · intro hall
    refine ⟨hall [] first rest rfl, fun before item after hsplit => ?_⟩
    exact hall (first :: before) item after (by rw [hsplit, List.cons_append])
  · rintro ⟨hfirst, hrest⟩ before item after hsplit
    cases before with
    | nil =>
        obtain ⟨rfl, rfl⟩ := List.cons.inj hsplit
        exact hfirst
    | cons head before =>
        obtain ⟨rfl, htail⟩ := List.cons.inj hsplit
        exact hrest before item after htail

theorem Since.mem {history : List Item} (hsince : Since start ends history) :
    start ∈ history := by
  obtain ⟨before, after, rfl, -⟩ := hsince
  exact List.mem_append_right _ List.mem_cons_self

end Histories

end GrpcMtk.Runs
