import GrpcMtk.Server.Methods

/-!
# Draining the task queue

`Destroy` calls `ConsumeTask(-1)` to process all tasks before it calls
`handler_->Close`.  `ConsumeTask` has two ways out before the end of the queue:
a worker that shuts down, and a Login task that is refused.
-/

namespace GrpcMtk

open GrpcMtk.Proto

/-- The requests of the Normal tasks of a queue. -/
def normals : List Task → List Request
  | [] => []
  | .normal request :: rest => request :: normals rest
  | .login _ :: rest | .close :: rest | .other _ :: rest => normals rest

/-- The requests that `handler_->Handle` was called with. -/
def handledOf (events : List ConnEvent) : List Request :=
  events.filterMap fun event =>
    match event with
    | .handled request => some request
    | _ => none

/-- The requests that a pass over all tasks handles, of a connection that waits
for its login or not.  A refused login ends the pass, but a connection that
waits for its login is then destroyed, and goes on with the rest. -/
def passed : Bool → List Task → List HandlerResult → List Request
  | _, [], _ => []
  | waiting, .normal request :: rest, results =>
      let result := results.headD { ok := true, close := false }
      request :: passed (waiting && !result.close) rest results.tail
  | waiting, .login (some request) :: rest, results =>
      if request.id = 0 ∧ waiting = false then [] else passed false rest results
  | _, .login none :: rest, results | _, .close :: rest, results
  | _, .other _ :: rest, results => passed false rest results

/-- No Normal task is behind a refused login that ends the pass. -/
def NoneBehind : Bool → List Task → List HandlerResult → Prop
  | _, [], _ => True
  | waiting, .normal _ :: rest, results =>
      let result := results.headD { ok := true, close := false }
      NoneBehind (waiting && !result.close) rest results.tail
  | waiting, .login (some request) :: rest, results =>
      if request.id = 0 ∧ waiting = false then normals rest = []
      else NoneBehind false rest results
  | _, .login none :: rest, results | _, .close :: rest, results
  | _, .other _ :: rest, results => NoneBehind false rest results

theorem passed_eq_normals_iff {waiting : Bool} {tasks : List Task}
    {results : List HandlerResult} :
    passed waiting tasks results = normals tasks ↔
      NoneBehind waiting tasks results := by
  induction tasks generalizing waiting results with
  | nil => exact iff_of_true rfl trivial
  | cons task rest ih =>
      cases task with
      | normal request =>
          rw [passed, normals, NoneBehind, List.cons_inj_right]
          exact ih
      | login payload =>
          cases payload with
          | none =>
              rw [passed, normals, NoneBehind]
              exact ih
          | some request =>
              rw [passed, normals, NoneBehind]
              split
              case isTrue => exact eq_comm
              case isFalse => exact ih
      | close =>
          rw [passed, normals, NoneBehind]
          exact ih
      | other kind =>
          rw [passed, normals, NoneBehind]
          exact ih

/-! ## What is recorded -/

namespace World

/-- From one world to the next these requests are handled, and `Close` is not
called. -/
def Handles (before after : World) (requests : List Request) : Prop :=
  ∃ events, after.self.history = events.reverse ++ before.self.history ∧
    .closed ∉ events ∧ handledOf events = requests

/-- From one world to the next these requests are handled before `Close` is
called, and none afterwards. -/
def HandlesFirst (before after : World) (requests : List Request) : Prop :=
  ∃ early late,
    after.self.history = (early ++ .closed :: late).reverse ++
      before.self.history ∧
    .closed ∉ early ∧ handledOf early = requests ∧ handledOf late = []

section Recorded

variable {first second third : World} {requests others : List Request}

theorem Handles.trans (hfirst : Handles first second requests)
    (hsecond : Handles second third others) :
    Handles first third (requests ++ others) := by
  obtain ⟨events, hhistory, hopen, rfl⟩ := hfirst
  obtain ⟨more, hmore, hstill, rfl⟩ := hsecond
  refine ⟨events ++ more, ?_, ?_, List.filterMap_append⟩
  · rw [hmore, hhistory, List.reverse_append, List.append_assoc]
  · rw [List.mem_append]
    exact not_or_intro hopen hstill

theorem Handles.before (hfirst : Handles first second requests)
    (hsecond : HandlesFirst second third others) :
    HandlesFirst first third (requests ++ others) := by
  obtain ⟨events, hhistory, hopen, rfl⟩ := hfirst
  obtain ⟨early, late, hmore, hstill, rfl, hlate⟩ := hsecond
  refine ⟨events ++ early, late, ?_, ?_, List.filterMap_append, hlate⟩
  · rw [hmore, hhistory, List.append_assoc, @List.reverse_append _ events,
      List.append_assoc]
  · rw [List.mem_append]
    exact not_or_intro hopen hstill

/-- Behind `Close` nothing more is handled. -/
theorem HandlesFirst.behind (hfirst : HandlesFirst first second requests)
    (events : List ConnEvent) (hnone : handledOf events = [])
    (hhistory : third.self.history = events.reverse ++ second.self.history) :
    HandlesFirst first third requests := by
  obtain ⟨early, late, hearlier, hopen, hearly, hlate⟩ := hfirst
  refine ⟨early, late ++ events, ?_, hopen, hearly, ?_⟩
  · rw [hhistory, hearlier, ← List.append_assoc, ← List.reverse_append,
      List.append_assoc, List.cons_append]
  · rw [handledOf, List.filterMap_append]
    exact List.append_eq_nil_iff.mpr ⟨hlate, hnone⟩

theorem Handles.closing (hfirst : Handles first second requests)
    {late : List ConnEvent} (hnone : handledOf late = [])
    (hhistory : third.self.history =
      (.closed :: late).reverse ++ second.self.history) :
    HandlesFirst first third requests := by
  obtain ⟨events, hevents, hopen, hhandled⟩ := hfirst
  refine ⟨events, late, ?_, hopen, hhandled, hnone⟩
  rw [hhistory, hevents, @List.reverse_append _ events, List.append_assoc]

/-- There is only one way to split what is recorded at the first call of
`Close`. -/
theorem HandlesFirst.unique (hfirst : HandlesFirst first second requests)
    (hsecond : HandlesFirst first second others) : requests = others := by
  obtain ⟨early, late, hhistory, hopen, rfl, -⟩ := hfirst
  obtain ⟨early', late', hhistory', hopen', rfl, -⟩ := hsecond
  rw [hhistory, List.append_cancel_right_eq, List.reverse_inj] at hhistory'
  have hsplit : ∀ {early late : List ConnEvent}, .closed ∉ early →
      (early ++ .closed :: late).takeWhile (fun event => event ≠ .closed) =
        early := by
    intro early late hopen
    rw [List.takeWhile_append_of_pos, List.takeWhile_cons_of_neg,
      List.append_nil]
    · simp
    · intro event hevent
      exact decide_eq_true fun hclosed => hopen (hclosed ▸ hevent)
  rw [← hsplit hopen, hhistory', hsplit hopen']

end Recorded

/-! ## A pass over all tasks -/

section Pass

variable {codec : Codec} {world : World}

theorem handles_refl (world : World) : Handles world world [] :=
  ⟨[], rfl, List.not_mem_nil, rfl⟩

theorem handles_handle (request : Request) (rest : List Task) (world : World) :
    Handles world ((world.dequeue rest).handle request).2 [request] := by
  refine ⟨[.handled request], ?_, by simp, rfl⟩
  rw [(handle_spec request (world.dequeue rest)).2]
  rfl

theorem handles_acceptLogin (request : SystemPayload.Login) (rest : List Task)
    (world : World) :
    Handles world ((world.dequeue rest).acceptLogin codec request).2 [] := by
  by_cases hid : request.id = 0
  · refine ⟨[.loginTask request.id, .denied], ?_, by simp, rfl⟩
    rw [acceptLogin, if_pos hid]
    rfl
  · obtain ⟨stream, -, heq⟩ :=
      @acceptLogin_accepts codec request (world.dequeue rest) hid
    refine ⟨[.loginTask request.id, .registered request.id], ?_, by simp, rfl⟩
    rw [heq]
    rfl

theorem acceptLogin_results (request : SystemPayload.Login) (world : World) :
    (world.acceptLogin codec request).2.results = world.results := by
  by_cases hid : request.id = 0
  · rw [acceptLogin, if_pos hid]
    rfl
  · rw [acceptLogin, if_neg hid]
    exact clearLoginCid_results (world.record (.loginTask request.id))

/-- A pass over all tasks of a connection that does not wait for its login and
is not deleted. -/
def drain (codec : Codec) : List Task → World → World
  | [], world => world
  | .normal request :: rest, world =>
      drain codec rest ((world.dequeue rest).handle request).2
  | .login (some request) :: rest, world =>
      let world := ((world.dequeue rest).acceptLogin codec request).2
      if request.id = 0 then world.closeByTask else drain codec rest world
  | .login none :: rest, world | .close :: rest, world
  | .other _ :: rest, world => drain codec rest (world.dequeue rest).closeByTask

theorem drain_closing {task : Task} (hcloses : task.Closes)
    (rest : List Task) (world : World) :
    world.drain codec (task :: rest) =
      (world.dequeue rest).closeByTask.drain codec rest := by
  match task, hcloses with
  | .login none, _ => rfl
  | .close, _ => rfl
  | .other _, _ => rfl

theorem passed_closing {task : Task} (hcloses : task.Closes) (waiting : Bool)
    (rest : List Task) (results : List HandlerResult) :
    passed waiting (task :: rest) results = passed false rest results := by
  match task, hcloses with
  | .login none, _ => rfl
  | .close, _ => rfl
  | .other _, _ => rfl

theorem consumeLoop_eq_drain (destroy : World → World) (tasks : List Task)
    {count : ℤ} (hcount : count < 0)
    (hsettled : world.self.status ≠ .waitLogin)
    (hlive : world.self.isDeleted = false) :
    world.consumeLoop codec destroy tasks count = world.drain codec tasks := by
  induction tasks generalizing count world with
  | nil => rfl
  | cons task rest ih =>
      have hnonzero : count ≠ 0 := by omega
      have hnext : count - 1 < 0 := by omega
      have hdequeued : (world.dequeue rest).self.status ≠ .waitLogin := hsettled
      rcases task.cases with ⟨request, rfl⟩ | ⟨request, rfl⟩ | hcloses
      · rw [consumeLoop_normal hnonzero, drain]
        exact ih hnext (handle_settled request hdequeued)
          ((handle_isDeleted request _).trans hlive)
      · have haccepted := @acceptLogin_settled codec request _ hdequeued
        have hopen := (@acceptLogin_isDeleted codec request (world.dequeue
          rest)).trans hlive
        rw [drain]
        by_cases hid : request.id = 0
        · rw [consumeLoop_refused hnonzero hid, if_pos hid]
          exact finish_of_not_waiting haccepted destroy
        · rw [consumeLoop_accepted hnonzero hid, if_neg hid]
          exact ih hnext haccepted hopen
      · have hopen : (world.dequeue rest).closeByTask.self.isDeleted = false :=
          hlive
        rw [consumeLoop_closing hnonzero hcloses, drain_closing hcloses,
          finish_of_not_waiting hdequeued, hopen, if_neg Bool.false_ne_true]
        exact ih hnext (by simp) hlive

theorem handles_drain (tasks : List Task) (world : World) :
    Handles world (world.drain codec tasks)
      (passed false tasks world.results) := by
  induction tasks generalizing world with
  | nil => exact handles_refl world
  | cons task rest ih =>
      rcases task.cases with ⟨request, rfl⟩ | ⟨request, rfl⟩ | hcloses
      · have hrest := ih ((world.dequeue rest).handle request).2
        rw [handle_results] at hrest
        exact (handles_handle request rest world).trans hrest
      · have haccepted := @handles_acceptLogin codec request rest world
        rw [drain, passed]
        by_cases hid : request.id = 0
        · rw [if_pos hid, if_pos ⟨hid, rfl⟩]
          exact haccepted
        · have hrest := ih ((world.dequeue rest).acceptLogin codec request).2
          rw [acceptLogin_results] at hrest
          rw [if_neg hid, if_neg fun h => hid h.1]
          exact haccepted.trans hrest
      · rw [drain_closing hcloses, passed_closing hcloses]
        exact ih (world.dequeue rest).closeByTask

/-! ## Destroy -/

theorem history_closed (world : World) :
    ((world.record .closed).unregister.delete).self.history =
      [ConnEvent.closed, .deleted].reverse ++ world.self.history :=
  congrArg (List.cons ConnEvent.deleted)
    (unregister_history (world.record .closed))

/-- A closed connection is destroyed after a pass over all its tasks. -/
theorem handlesFirst_destroyWithin (depth : ℕ)
    (hclosed : world.self.status = .close)
    (hlive : world.self.isDeleted = false) :
    HandlesFirst world (world.destroyWithin codec (depth + 1))
      (passed false world.self.stream.tasks world.results) := by
  have hsettled : world.self.status ≠ .waitLogin := by simp [hclosed]
  have hpass : world.consumeTask codec (destroyWithin codec depth) (-1) =
      world.drain codec world.self.stream.tasks := by
    rw [consumeTask, if_neg fun h => h.2 hclosed,
      consumeLoop_eq_drain _ _ (by decide) hsettled hlive]
  rw [destroyWithin, if_pos (by rw [hclosed]; rfl), hpass]
  exact (handles_drain world.self.stream.tasks world).closing rfl
    (history_closed _)

theorem handlesFirst_finish (hwait : world.self.status = .waitLogin)
    (hlive : world.self.isDeleted = false) :
    HandlesFirst world (world.finish (destroyWithin codec 1) true)
      (passed false world.self.stream.tasks world.results) := by
  rw [finish_byTask, if_pos hwait]
  exact @handlesFirst_destroyWithin codec world.closeByTask 0 rfl hlive

/-- A pass of a connection that waits for its login may destroy it. -/
def Consumes (before after : World) (requests : List Request) : Prop :=
  Handles before after requests ∨ HandlesFirst before after requests

theorem Handles.andConsumes {first second third : World}
    {requests others : List Request} (hfirst : Handles first second requests)
    (hsecond : Consumes second third others) :
    Consumes first third (requests ++ others) :=
  hsecond.imp hfirst.trans hfirst.before

theorem consumes_settled (destroy : World → World) (tasks : List Task)
    {count : ℤ} (hcount : count < 0)
    (hsettled : world.self.status ≠ .waitLogin)
    (hlive : world.self.isDeleted = false) :
    Consumes world (world.consumeLoop codec destroy tasks count)
      (passed false tasks world.results) := by
  rw [consumeLoop_eq_drain destroy tasks hcount hsettled hlive]
  exact Or.inl (handles_drain tasks world)

section Waiting

variable (rest : List Task) {count : ℤ} (hcount : count < 0)
  (hwait : world.self.status = .waitLogin)
  (hlive : world.self.isDeleted = false)

include hcount hwait hlive

/-- A closing task destroys a connection that waits for its login. -/
theorem consumes_closing {task : Task} (hcloses : task.Closes) :
    Consumes world
      (world.consumeLoop codec (destroyWithin codec 1) (task :: rest) count)
      (passed true (task :: rest) world.results) := by
  have hfinish := @handlesFirst_finish codec (world.dequeue rest) hwait hlive
  have hgone : ((world.dequeue rest).finish (destroyWithin codec 1)
      true).self.isDeleted = true := by
    rw [finish_byTask, if_pos (show (world.dequeue rest).self.status =
      .waitLogin from hwait), destroyWithin]
    exact delete_isDeleted _
  rw [consumeLoop_closing (by omega) hcloses, if_pos hgone,
    passed_closing hcloses]
  exact Or.inr (hfinish.behind [.usedAfterDelete] rfl rfl)

/-- So does a refused login, and behind an accepted one it waits no more. -/
theorem consumes_login (request : SystemPayload.Login) :
    Consumes world
      (world.consumeLoop codec (destroyWithin codec 1)
        (.login (some request) :: rest) count)
      (passed true (.login (some request) :: rest) world.results) := by
  have haccepted := @handles_acceptLogin codec request rest world
  have hopen := (@acceptLogin_isDeleted codec request (world.dequeue
    rest)).trans hlive
  have hpassed : passed true (.login (some request) :: rest)
      world.results = passed false rest
        ((world.dequeue rest).acceptLogin codec request).2.results := by
    rw [passed, if_neg (by simp), acceptLogin_results]
    rfl
  rw [hpassed]
  apply haccepted.andConsumes
  by_cases hid : request.id = 0
  · have hstill : ((world.dequeue rest).acceptLogin codec
        request).2.self.status = .waitLogin := by
      rw [acceptLogin, if_pos hid]
      exact hwait
    have hfinish := @handlesFirst_finish codec _ hstill hopen
    rw [acceptLogin_tasks] at hfinish
    rw [consumeLoop_refused (by omega) hid]
    exact Or.inr hfinish
  · have hread := @acceptLogin_opened codec request hid (world.dequeue rest)
    rw [consumeLoop_accepted (by omega) hid]
    exact consumes_settled _ rest (by omega) (by simp [hread]) hopen

end Waiting

theorem consumes_waiting (tasks : List Task) {count : ℤ} (hcount : count < 0)
    (hwait : world.self.status = .waitLogin)
    (hlive : world.self.isDeleted = false) :
    Consumes world
      (world.consumeLoop codec (destroyWithin codec 1) tasks count)
      (passed true tasks world.results) := by
  induction tasks generalizing count world with
  | nil => exact Or.inl (handles_refl world)
  | cons task rest ih =>
      have hnext : count - 1 < 0 := by omega
      rcases task.cases with ⟨request, rfl⟩ | ⟨request, rfl⟩ | hcloses
      · have hhandled := handles_handle request rest world
        have hopen := (handle_isDeleted request (world.dequeue rest)).trans
          hlive
        have hstatus := handle_status_eq request (world.dequeue rest)
        have hresults : ((world.dequeue rest).handle request).2.results =
            world.results.tail := handle_results request (world.dequeue rest)
        rw [consumeLoop_normal (by omega), passed]
        apply hhandled.andConsumes
        rw [← hresults]
        cases hclose : (world.results.headD
            { ok := true, close := false }).close with
        | true =>
            have hclosed : ((world.dequeue rest).handle
                request).2.self.status = .close :=
              hstatus.trans (if_pos hclose)
            exact consumes_settled _ rest hnext (by simp [hclosed]) hopen
        | false =>
            have hstill : ((world.dequeue rest).handle
                request).2.self.status = .waitLogin :=
              (hstatus.trans (if_neg (Bool.not_eq_true _ ▸ hclose))).trans hwait
            exact ih hnext hstill hopen
      · exact consumes_login rest hcount hwait hlive request
      · exact consumes_closing rest hcount hwait hlive hcloses

/-- `ConsumeTask` closes the connection instead of consuming its tasks. -/
def Closing (world : World) : Prop :=
  world.dying = true ∧ world.self.status ≠ .close ∧
    world.self.status ≠ .waitLogin

instance (world : World) : Decidable world.Closing :=
  inferInstanceAs (Decidable (_ ∧ _ ∧ _))

/-- The connection waits for its login while it consumes its tasks. -/
def waits (world : World) : Bool :=
  world.self.status = .waitLogin ∧ world.dying = false

/-- The requests that `Destroy` handles. -/
def destroyed (world : World) : List Request :=
  if world.Closing then []
  else passed world.waits world.self.stream.tasks world.results

theorem consumes_consumeTask (hlive : world.self.isDeleted = false) :
    Consumes world (world.consumeTask codec (destroyWithin codec 1) (-1))
      world.destroyed := by
  rw [consumeTask, destroyed]
  by_cases hwait : world.self.status = .waitLogin
  · have hopen : ¬world.Closing := fun h => h.2.2 hwait
    rw [if_neg hopen]
    cases hdying : world.dying with
    | true =>
        have hwaits : world.waits = false := by simp [waits, hdying]
        rw [if_pos (by simp [hwait]), hwaits]
        exact Or.inr (handlesFirst_finish hwait hlive)
    | false =>
        have hwaits : world.waits = true := by simp [waits, hwait, hdying]
        rw [if_neg (by simp), hwaits]
        exact consumes_waiting _ (by decide) hwait hlive
  · have hwaits : world.waits = false := by simp [waits, hwait]
    by_cases hclosing : world.dying = true ∧ world.self.status ≠ .close
    · rw [if_pos hclosing, if_pos ⟨hclosing.1, hclosing.2, hwait⟩,
        finish_of_not_waiting hwait]
      exact Or.inl (handles_refl world)
    · rw [if_neg hclosing, if_neg fun h => hclosing ⟨h.1, h.2.1⟩, hwaits]
      exact consumes_settled _ _ (by decide) hwait hlive

theorem handlesFirst_destroy (hpeer : world.self.status.hasPeer = true)
    (hlive : world.self.isDeleted = false) :
    HandlesFirst world (world.destroy codec) world.destroyed := by
  rw [destroy, destroyWithin, if_pos hpeer]
  rcases @consumes_consumeTask codec world hlive with hopen | hclosed
  · exact hopen.closing rfl (history_closed _)
  · exact hclosed.behind _ rfl (history_closed _)

/-- The worker does not close the connection before it consumes its tasks,
unless there is no Normal task, and none is behind a refused login that ends
the pass. -/
def DrainsAll (world : World) : Prop :=
  if world.Closing then normals world.self.stream.tasks = []
  else NoneBehind world.waits world.self.stream.tasks world.results

/-- `Destroy` handles every Normal task of the queue before it calls `Close`,
in their order, and none afterwards, exactly if nothing ends its pass before
the last of them. -/
theorem destroy_drains_iff (codec : Codec)
    (hpeer : world.self.status.hasPeer = true)
    (hlive : world.self.isDeleted = false) :
    HandlesFirst world (world.destroy codec) (normals world.self.stream.tasks) ↔
      world.DrainsAll := by
  have hdestroyed := @handlesFirst_destroy codec world hpeer hlive
  have hall : HandlesFirst world (world.destroy codec)
      (normals world.self.stream.tasks) ↔
        world.destroyed = normals world.self.stream.tasks := by
    constructor
    · exact hdestroyed.unique
    · intro heq
      rwa [heq] at hdestroyed
  rw [hall, destroyed, DrainsAll]
  split
  · exact eq_comm
  · exact passed_eq_normals_iff

end Pass

private def queuedRequest : Request :=
  { type := 1, msgid := 1, kind := .normal, payload := [7] }

/-- A connection in READ with one task in its queue. -/
private def queued (dying : Bool) : World where
  self :=
    { Conn.new 0 0 with
      status := .read
      stream := { SVStream.new.ref with tasks := [.normal queuedRequest] } }
  reg :=
    { cmap := fun _ => none
      pmap := fun _ => none
      loginCidSeed := 0
      connections := fun _ => [0]
      dying := fun _ => dying }
  results := []

theorem destroy_drains_iff_queued :
    HandlesFirst (queued false) ((queued false).destroy .small)
        [queuedRequest] ↔ (queued false).DrainsAll :=
  destroy_drains_iff .small rfl rfl

/-- When the worker shuts down, the task is dropped. -/
theorem destroy_drains_iff_fails :
    (queued true).self.status.hasPeer = true ∧
      ((queued true).destroy .small).self.history = [.deleted, .closed] ∧
      ¬HandlesFirst (queued true) ((queued true).destroy .small)
        [queuedRequest] := by
  have hhistory : ((queued true).destroy .small).self.history =
      [.deleted, .closed] := by decide
  refine ⟨rfl, hhistory, fun hhandled => ?_⟩
  have hdestroyed := @handlesFirst_destroy .small (queued true) rfl rfl
  have hnone : (queued true).destroyed = [] := rfl
  rw [hnone] at hdestroyed
  exact absurd (hhandled.unique hdestroyed) (List.cons_ne_nil _ _)

end World

end GrpcMtk
