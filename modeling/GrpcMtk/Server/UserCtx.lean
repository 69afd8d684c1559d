import GrpcMtk.Server.RefCount
import Mathlib.Data.List.Nodup
import Mathlib.Data.List.Pairwise
import Mathlib.Data.List.Perm.Subperm

/-!
# User contexts

`SetUserCtx` leaves a pointer of the application with a stream, and the
destructor of the stream passes it to the function that came with it: at once,
or, on OSX, in a later `SweepUserCtx`, for which it goes into a queue that all
streams share.  A pointer that another one has replaced is forgotten.
-/

namespace GrpcMtk

open GrpcMtk.Runs
open GrpcMtk.SVStream

/-- A stream with its holders and `user_ctx_`, where 0 is the null pointer;
`userCtxDtor` tells whether there is a function. -/
structure UserStream where
  holders : Holders
  userCtx : ℕ
  userCtxDtor : Bool
  deriving DecidableEq, Repr

/-- The streams of a process with `s_garbages`, and the contexts passed to
their functions so far. -/
structure UserCtxs where
  streams : List UserStream
  garbages : List ℕ
  destroyed : List ℕ
  deriving DecidableEq, Repr

namespace UserCtxs

def new : UserCtxs where
  streams := []
  garbages := []
  destroyed := []

/-- `DestroyUserCtx`, with and without `__MTK_OSX__`. -/
def destroyUserCtx (osx : Bool) (stream : UserStream) (ctxs : UserCtxs) :
    UserCtxs :=
  if stream.userCtx ≠ 0 then
    if stream.userCtxDtor then
      if osx then
        { ctxs with garbages := ctxs.garbages ++ [stream.userCtx] }
      else { ctxs with destroyed := ctxs.destroyed ++ [stream.userCtx] }
    else ctxs
  else ctxs

inductive Action where
  /-- `SVStream::SVStream`. -/
  | create
  | use (index : ℕ) (use : Use)
  /-- `SetUserCtx`, on a stream that has a holder. -/
  | setUserCtx (index ctx : ℕ) (dtor : Bool)
  /-- One iteration of `SweepUserCtx`. -/
  | sweep
  deriving DecidableEq, Repr

/-- A use that deletes the stream runs its destructor. -/
def step (osx : Bool) (ctxs : UserCtxs) : Action → Option UserCtxs
  | .create =>
      some { ctxs with streams := ctxs.streams ++ [⟨.init, 0, false⟩] }
  | .use index use =>
      match ctxs.streams[index]? with
      | none => none
      | some stream =>
          (stream.holders.step use).map fun holders =>
            let next := { ctxs with
              streams := ctxs.streams.set index { stream with holders } }
            if holders.stream.deletes = stream.holders.stream.deletes then next
            else next.destroyUserCtx osx stream
  | .setUserCtx index ctx dtor =>
      match ctxs.streams[index]? with
      | none => none
      | some stream =>
          if stream.holders.total = 0 then none
          else
            some { ctxs with
              streams := ctxs.streams.set index
                { stream with userCtx := ctx, userCtxDtor := dtor } }
  | .sweep =>
      if osx then
        match ctxs.garbages with
        | [] => none
        | ctx :: rest =>
            some { ctxs with
              garbages := rest
              destroyed := ctxs.destroyed ++ [ctx] }
      else none

end UserCtxs

/-! ## What the streams account for -/

/-- The context a stream has. -/
def UserStream.held (stream : UserStream) : List ℕ :=
  if stream.userCtx = 0 then [] else [stream.userCtx]

/-- What the destructor of a stream has to pass on. -/
def UserStream.due (stream : UserStream) : List ℕ :=
  if stream.userCtx ≠ 0 ∧ stream.userCtxDtor = true then [stream.userCtx]
  else []

/-- What the destructor of a stream has passed on. -/
def UserStream.freed (stream : UserStream) : List ℕ :=
  if stream.holders.stream.deletes = 0 then [] else stream.due

namespace UserCtxs

def contexts (ctxs : UserCtxs) : List ℕ :=
  ctxs.streams.flatMap UserStream.held

/-- Every context passed on comes from a stream that was deleted. -/
structure Accounted (osx : Bool) (ctxs : UserCtxs) : Prop where
  counted : ∀ stream ∈ ctxs.streams, Counted stream.holders
  freed : (ctxs.destroyed ++ ctxs.garbages).Perm
    (ctxs.streams.flatMap UserStream.freed)
  garbages : osx = false → ctxs.garbages = []

/-- One element of a list makes way for another. -/
theorem perm_flatMap_set {Item : Type*} {items : List Item} {index : ℕ}
    {old : Item} (hold : items[index]? = some old) (item : Item)
    (shown : Item → List ℕ) :
    ((items.set index item).flatMap shown ++ shown old).Perm
      (items.flatMap shown ++ shown item) := by
  induction items generalizing index with
  | nil => contradiction
  | cons first rest ih =>
      cases index with
      | zero =>
          obtain rfl := Option.some.inj hold
          rw [List.set_cons_zero, List.flatMap_cons, List.flatMap_cons]
          simp only [List.perm_iff_count, List.count_append]
          omega
      | succ index =>
          rw [List.set_cons_succ, List.flatMap_cons, List.flatMap_cons,
            List.append_assoc, List.append_assoc]
          exact (ih hold).append_left _

theorem perm_flatMap_set_of_eq {Item : Type*} {items : List Item} {index : ℕ}
    {old : Item} (hold : items[index]? = some old) {item : Item}
    {shown : Item → List ℕ} (hshown : shown item = shown old) :
    ((items.set index item).flatMap shown).Perm (items.flatMap shown) := by
  have hperm := perm_flatMap_set hold item shown
  rw [hshown] at hperm
  exact (List.perm_append_right_iff _).mp hperm

section Destroy

variable (osx : Bool) (stream : UserStream) (ctxs : UserCtxs)

theorem destroyUserCtx_streams :
    (ctxs.destroyUserCtx osx stream).streams = ctxs.streams := by
  unfold destroyUserCtx
  split
  · split
    · cases osx <;> rfl
    · rfl
  · rfl

theorem destroyUserCtx_perm :
    ((ctxs.destroyUserCtx osx stream).destroyed ++
        (ctxs.destroyUserCtx osx stream).garbages).Perm
      (ctxs.destroyed ++ ctxs.garbages ++ stream.due) := by
  unfold destroyUserCtx
  split
  case isTrue hctx =>
    split
    case isTrue hdtor =>
      have hdue : stream.due = [stream.userCtx] := if_pos ⟨hctx, hdtor⟩
      rw [hdue]
      cases osx with
      | false =>
          change (ctxs.destroyed ++ [stream.userCtx] ++ ctxs.garbages).Perm _
          rw [List.append_assoc, List.append_assoc]
          exact List.perm_append_comm.append_left _
      | true =>
          change (ctxs.destroyed ++ (ctxs.garbages ++ [stream.userCtx])).Perm _
          rw [List.append_assoc]
    case isFalse hdtor =>
      have hdue : stream.due = [] := if_neg fun h => hdtor h.2
      rw [hdue, List.append_nil]
  case isFalse hctx =>
    have hdue : stream.due = [] := if_neg fun h => hctx h.1
    rw [hdue, List.append_nil]

theorem destroyUserCtx_garbages (hosx : osx = false) :
    (ctxs.destroyUserCtx osx stream).garbages = ctxs.garbages := by
  subst hosx
  unfold destroyUserCtx
  split
  · split <;> rfl
  · rfl

end Destroy

end UserCtxs

/-- A stream that was deleted is used no more. -/
theorem SVStream.Counted.alive_of_step {holders next : Holders} {use : Use}
    (hcounted : Counted holders) (hstep : holders.step use = some next) :
    holders.stream.deletes = 0 := by
  by_contra hdeleted
  have hgone : holders.total = 0 ∧ holders.constructed = true := by
    by_contra hnot
    rw [hcounted.deletes, if_neg hnot] at hdeleted
    exact hdeleted rfl
  obtain ⟨hnone, hconstructed⟩ := hgone
  have hparts := hnone
  rw [Holders.total] at hparts
  cases use with
  | construct =>
      obtain ⟨hfresh, -⟩ := Option.ite_none_left_eq_some.mp hstep
      exact hfresh hconstructed
  | send reply | finish | openHandle =>
      obtain ⟨hheld, -⟩ := Option.ite_none_left_eq_some.mp hstep
      exact hheld hnone
  | turnOff =>
      obtain ⟨hguard, -⟩ := Option.ite_none_left_eq_some.mp hstep
      exact hguard (Or.inl (by omega))
  | destruct | writeDone ok | release | finishDone | dropHandle =>
      obtain ⟨hheld, -⟩ := Option.ite_none_left_eq_some.mp hstep
      exact hheld (by omega)

namespace UserCtxs

section Steps

variable {osx : Bool} {ctxs next : UserCtxs}

theorem Accounted.create (haccounted : Accounted osx ctxs) :
    Accounted osx
      { ctxs with streams := ctxs.streams ++ [⟨.init, 0, false⟩] } where
  counted stream hmem := by
    rcases List.mem_append.mp hmem with hold | hnew
    · exact haccounted.counted stream hold
    · rw [List.mem_singleton.mp hnew]
      exact counted_init
  freed := by
    have hinit : [⟨.init, 0, false⟩].flatMap UserStream.freed = [] := rfl
    rw [List.flatMap_append, hinit, List.append_nil]
    exact haccounted.freed
  garbages := haccounted.garbages

theorem Accounted.set (haccounted : Accounted osx ctxs) (index : ℕ)
    {holders : Holders} (hholders : Counted holders) (ctx : ℕ) (dtor : Bool) :
    ∀ stream ∈ ctxs.streams.set index ⟨holders, ctx, dtor⟩,
      Counted stream.holders := by
  intro stream hmem
  rcases List.mem_or_eq_of_mem_set hmem with hold | rfl
  · exact haccounted.counted stream hold
  · exact hholders

theorem Accounted.use (haccounted : Accounted osx ctxs) {index : ℕ} {use : Use}
    (hstep : ctxs.step osx (.use index use) = some next) :
    Accounted osx next := by
  simp only [UserCtxs.step] at hstep
  split at hstep
  · contradiction
  case h_2 stream hstream =>
    obtain ⟨holders, hholders, rfl⟩ := Option.map_eq_some_iff.mp hstep
    have hcounted := haccounted.counted stream (List.mem_of_getElem? hstream)
    have hnext := counted_step stream.holders use holders hcounted hholders
    have halive := hcounted.alive_of_step hholders
    have hstreams := haccounted.set index hnext stream.userCtx
      stream.userCtxDtor
    have hnone : stream.freed = [] := if_pos halive
    have hperm := perm_flatMap_set hstream { stream with holders }
      UserStream.freed
    rw [hnone, List.append_nil] at hperm
    split
    case isTrue hkept =>
      refine ⟨hstreams, ?_, haccounted.garbages⟩
      have hempty : UserStream.freed { stream with holders } = [] :=
        if_pos (hkept.trans halive)
      rw [hempty, List.append_nil] at hperm
      exact haccounted.freed.trans hperm.symm
    case isFalse hdeleted =>
      refine ⟨?_, ?_, fun hosx => ?_⟩
      · rw [destroyUserCtx_streams]
        exact hstreams
      · rw [destroyUserCtx_streams]
        have hdue : UserStream.freed { stream with holders } = stream.due :=
          if_neg fun h => hdeleted (h.trans halive.symm)
        rw [hdue] at hperm
        refine (destroyUserCtx_perm osx stream _).trans ?_
        exact (haccounted.freed.append_right _).trans hperm.symm
      · rw [destroyUserCtx_garbages osx stream _ hosx]
        exact haccounted.garbages hosx

theorem Accounted.setUserCtx (haccounted : Accounted osx ctxs)
    {index ctx : ℕ} {dtor : Bool}
    (hstep : ctxs.step osx (.setUserCtx index ctx dtor) = some next) :
    Accounted osx next := by
  simp only [UserCtxs.step] at hstep
  split at hstep
  · contradiction
  case h_2 stream hstream =>
    obtain ⟨hheld, heq⟩ := Option.ite_none_left_eq_some.mp hstep
    obtain rfl := Option.some.inj heq
    have hcounted := haccounted.counted stream (List.mem_of_getElem? hstream)
    have halive := (hcounted.held (Nat.pos_of_ne_zero hheld)).2
    refine ⟨haccounted.set index hcounted ctx dtor, ?_, haccounted.garbages⟩
    have hshown : UserStream.freed
        { stream with userCtx := ctx, userCtxDtor := dtor } =
          stream.freed := (if_pos halive).trans (if_pos halive).symm
    exact haccounted.freed.trans (perm_flatMap_set_of_eq hstream hshown).symm

theorem Accounted.sweep (haccounted : Accounted osx ctxs)
    (hstep : ctxs.step osx .sweep = some next) : Accounted osx next := by
  simp only [UserCtxs.step] at hstep
  split at hstep
  case isTrue hosx =>
    split at hstep
    · contradiction
    case h_2 ctx rest hgarbages =>
      obtain rfl := Option.some.inj hstep
      refine ⟨haccounted.counted, ?_, fun hnot => ?_⟩
      · have hfreed := haccounted.freed
        rw [hgarbages] at hfreed
        rw [List.append_assoc]
        exact hfreed
      · rw [hosx] at hnot
        contradiction
  case isFalse => contradiction

theorem Accounted.step {action : Action} (haccounted : Accounted osx ctxs)
    (hstep : ctxs.step osx action = some next) : Accounted osx next := by
  cases action with
  | create =>
      obtain rfl := Option.some.inj hstep
      exact haccounted.create
  | use index use => exact haccounted.use hstep
  | setUserCtx index ctx dtor => exact haccounted.setUserCtx hstep
  | sweep => exact haccounted.sweep hstep

theorem accounted_new : Accounted osx new where
  counted _ hmem := absurd hmem List.not_mem_nil
  freed := .nil
  garbages _ := rfl

/-- The context that `SetUserCtx` is called with. -/
def Action.put : Action → List ℕ
  | .setUserCtx _ ctx _ => if ctx = 0 then [] else [ctx]
  | _ => []

theorem contexts_step {action : Action}
    (hstep : ctxs.step osx action = some next) :
    next.contexts.Subperm (ctxs.contexts ++ action.put) := by
  cases action with
  | create =>
      obtain rfl := Option.some.inj hstep
      rw [contexts, List.flatMap_append]
      exact .refl _
  | use index use =>
      simp only [UserCtxs.step] at hstep
      split at hstep
      · contradiction
      case h_2 stream hstream =>
        obtain ⟨holders, -, rfl⟩ := Option.map_eq_some_iff.mp hstep
        have hperm : ((ctxs.streams.set index
            { stream with holders }).flatMap UserStream.held).Perm
              ctxs.contexts := perm_flatMap_set_of_eq hstream rfl
        have hnone : Action.put (.use index use) = [] := rfl
        rw [hnone, List.append_nil]
        split
        · exact hperm.subperm
        · rw [contexts, destroyUserCtx_streams]
          exact hperm.subperm
  | setUserCtx index ctx dtor =>
      simp only [UserCtxs.step] at hstep
      split at hstep
      · contradiction
      case h_2 stream hstream =>
        obtain ⟨-, heq⟩ := Option.ite_none_left_eq_some.mp hstep
        obtain rfl := Option.some.inj heq
        have hperm := perm_flatMap_set hstream
          { stream with userCtx := ctx, userCtxDtor := dtor } UserStream.held
        exact (List.sublist_append_left _ _).subperm.trans hperm.subperm
  | sweep =>
      simp only [UserCtxs.step] at hstep
      split at hstep
      · split at hstep
        · contradiction
        · obtain rfl := Option.some.inj hstep
          have hnone : Action.put .sweep = [] := rfl
          rw [hnone, List.append_nil]
          exact .refl _
      · contradiction

/-- A stream has no context that was not put. -/
theorem contexts_exec {actions : List Action}
    (hrun : exec (UserCtxs.step osx) ctxs actions = some next) :
    next.contexts.Subperm (ctxs.contexts ++ actions.flatMap Action.put) := by
  induction actions generalizing ctxs with
  | nil =>
      obtain rfl := Option.some.inj hrun
      rw [List.flatMap_nil, List.append_nil]
  | cons action rest ih =>
      obtain ⟨middle, hstep, hrest⟩ := exec_cons_eq_some.mp hrun
      rw [List.flatMap_cons, ← List.append_assoc]
      exact (ih hrest).trans
        ((List.subperm_append_right _).mpr (contexts_step hstep))

end Steps

section Freed

variable {stream other : UserStream} {streams : List UserStream}

theorem freed_sublist_held (stream : UserStream) :
    stream.freed.Sublist stream.held := by
  rw [UserStream.freed, UserStream.due]
  split
  · exact List.nil_sublist _
  · split
    case isTrue hdue => rw [UserStream.held, if_neg hdue.1]
    case isFalse => exact List.nil_sublist _

theorem flatMap_freed_sublist (streams : List UserStream) :
    (streams.flatMap UserStream.freed).Sublist
      (streams.flatMap UserStream.held) := by
  induction streams with
  | nil => exact List.Sublist.refl _
  | cons stream rest ih =>
      rw [List.flatMap_cons, List.flatMap_cons]
      exact (freed_sublist_held stream).append ih

theorem mem_freed {ctx : ℕ} : ctx ∈ stream.freed ↔
    stream.userCtx = ctx ∧ ctx ≠ 0 ∧ stream.userCtxDtor = true ∧
      stream.holders.stream.deletes ≠ 0 := by
  rw [UserStream.freed, UserStream.due]
  split
  case isTrue halive => simp [halive]
  case isFalse hdeleted =>
    split
    case isTrue hdue =>
      rw [List.mem_singleton]
      constructor
      · rintro rfl
        exact ⟨rfl, hdue.1, hdue.2, hdeleted⟩
      · exact fun h => h.1.symm
    case isFalse hnone =>
      refine iff_of_false List.not_mem_nil ?_
      rintro ⟨rfl, hctx, hdtor, -⟩
      exact hnone ⟨hctx, hdtor⟩

/-- Streams that differ have different contexts. -/
theorem userCtx_ne (hdistinct : (streams.flatMap UserStream.held).Nodup)
    (hstream : stream ∈ streams) (hother : other ∈ streams)
    (hne : stream ≠ other) (hctx : stream.userCtx ≠ 0) :
    other.userCtx ≠ stream.userCtx := by
  have hsymm : Std.Symm fun left right : UserStream =>
      left.held.Disjoint right.held := ⟨fun _ _ h => List.disjoint_symm h⟩
  have hpairs : streams.Pairwise fun left right =>
      left.held.Disjoint right.held := (List.nodup_flatMap.mp hdistinct).2
  have hdisjoint := hpairs.forall hstream hother hne
  intro hsame
  have hheld : stream.userCtx ∈ stream.held := by
    rw [UserStream.held, if_neg hctx]
    exact List.mem_singleton_self _
  have hagain : stream.userCtx ∈ other.held := by
    rw [UserStream.held, hsame, if_neg hctx]
    exact List.mem_singleton_self _
  exact hdisjoint hheld hagain

end Freed

/-- When no context is put twice, its function is called at most once, and not
while its stream has a holder: the contexts passed on, or waiting in
`s_garbages` for a sweep, are those that were put last into a stream that was
deleted since, with a function.  One that was replaced is never passed on. -/
theorem userCtx_destroyed_once (osx : Bool) (actions : List Action)
    (final : UserCtxs)
    (hdistinct : (actions.flatMap Action.put).Nodup)
    (hrun : exec (step osx) new actions = some final) :
    (final.destroyed ++ final.garbages).Nodup ∧
      (∀ ctx, ctx ∈ final.destroyed ++ final.garbages ↔
        ∃ stream ∈ final.streams, stream.userCtx = ctx ∧ ctx ≠ 0 ∧
          stream.userCtxDtor = true ∧ stream.holders.stream.deletes ≠ 0) ∧
      (∀ stream ∈ final.streams, 0 < stream.holders.total →
        stream.userCtx ∉ final.destroyed ++ final.garbages) ∧
      (osx = false → final.garbages = []) := by
  have haccounted : Accounted osx final :=
    exec_invariant (fun _ _ _ haccounted hstep => haccounted.step hstep)
      accounted_new hrun
  have hput : final.contexts.Subperm (actions.flatMap Action.put) :=
    contexts_exec hrun
  obtain ⟨taken, hperm, hsublist⟩ := hput
  have hcontexts : final.contexts.Nodup :=
    hperm.nodup_iff.mp (hdistinct.sublist hsublist)
  have hmem : ∀ ctx, ctx ∈ final.destroyed ++ final.garbages ↔
      ∃ stream ∈ final.streams, stream.userCtx = ctx ∧ ctx ≠ 0 ∧
        stream.userCtxDtor = true ∧ stream.holders.stream.deletes ≠ 0 := by
    intro ctx
    rw [haccounted.freed.mem_iff, List.mem_flatMap]
    simp only [mem_freed]
  refine ⟨?_, hmem, fun stream hstream hheld hfreed => ?_,
    haccounted.garbages⟩
  · rw [haccounted.freed.nodup_iff]
    exact hcontexts.sublist (flatMap_freed_sublist final.streams)
  · obtain ⟨other, hother, hsame, hctx, -, hdeleted⟩ := (hmem _).mp hfreed
    have halive := ((haccounted.counted stream hstream).held hheld).2
    refine userCtx_ne hcontexts hstream hother ?_ hctx hsame
    rintro rfl
    exact hdeleted halive

/-- Two connections; the first replaces its context, is deleted, and the sweep
destroys the second of its contexts. -/
private def replacing : List Action :=
  [.create, .create, .use 0 .construct, .use 1 .construct,
    .setUserCtx 0 7 true, .setUserCtx 1 8 true, .setUserCtx 0 9 true,
    .use 0 .destruct, .sweep]

theorem userCtx_destroyed_once_replacing :
    ∃ final, exec (step true) new replacing = some final ∧
      final.destroyed = [9] ∧ (final.destroyed ++ final.garbages).Nodup ∧
      ∀ stream ∈ final.streams, 0 < stream.holders.total →
        stream.userCtx ∉ final.destroyed ++ final.garbages := by
  have hdistinct : (replacing.flatMap Action.put).Nodup := by decide
  obtain ⟨honce, -, hlive, -⟩ :=
    userCtx_destroyed_once true replacing _ hdistinct rfl
  exact ⟨_, rfl, rfl, honce, hlive⟩

end UserCtxs

end GrpcMtk
