import GrpcMtk.Server.SVStream

/-!
# Who holds a stream

A stream is deleted by the `Unref` that takes `refc_` down to 0.  Its holders
are its `Conn`, the `Conn::Stream` handles, the `StreamCloser`s, and the
outstanding write, whose reference is taken in `Send`, carried through a chain
of `Step`s and given back by the `Step` that finds the queue empty or by
`Destroy`.  That `Step` unlocks `mtx_` before it gives the reference back, and
in between another thread may start the next write.
-/

namespace GrpcMtk

open GrpcMtk.Proto
open GrpcMtk.Runs

namespace SVStream

/-- What `Step` does with an empty queue up to the unlock. -/
def turnOff (stream : SVStream) : SVStream :=
  { stream with isSending := false, writing := stream.writing - 1 }

theorem writeDone_of_empty {stream : SVStream} (hempty : stream.queue = []) :
    stream.writeDone true = stream.turnOff.unref := by
  rw [writeDone, if_pos rfl, step]
  dsimp only
  split
  case h_1 reply rest hqueue =>
    rw [hempty] at hqueue
    contradiction
  case h_2 => rfl

/-- A stream and its holders.  The `StreamCloser`s and the write are counted in
the stream; `releasing` counts the `Step`s between the unlock and the
`Unref`. -/
structure Holders where
  stream : SVStream
  constructed : Bool
  conns : ℕ
  handles : ℕ
  releasing : ℕ
  deriving DecidableEq, Repr

/-- The stream a constructor of `Conn` has just made. -/
def Holders.init : Holders where
  stream := new
  constructed := false
  conns := 0
  handles := 0
  releasing := 0

def Holders.total (holders : Holders) : ℕ :=
  holders.conns + holders.handles + holders.stream.closers +
    holders.stream.writing + holders.releasing

inductive Use where
  /-- `Conn::Conn`. -/
  | construct
  /-- `Conn::~Conn`. -/
  | destruct
  | send (reply : Reply)
  /-- The completion of a write and the whole `Step` or `Destroy`. -/
  | writeDone (ok : Bool)
  /-- The completion of a write and a `Step` up to its unlock, the queue being
  empty. -/
  | turnOff
  /-- The `Unref` of that `Step`. -/
  | release
  /-- A `StreamCloser` and the Finish it is the tag of. -/
  | finish
  | finishDone
  /-- `Conn::Stream`, made of a pointer. -/
  | openHandle
  | dropHandle
  deriving DecidableEq, Repr

/-- A stream is used, and gets another holder, only while it has one. -/
def Holders.step (holders : Holders) : Use → Option Holders
  | .construct =>
      if holders.constructed then none
      else
        some { holders with
          stream := holders.stream.ref
          constructed := true
          conns := holders.conns + 1 }
  | .destruct =>
      if holders.conns = 0 then none
      else
        some { holders with
          stream := holders.stream.unref
          conns := holders.conns - 1 }
  | .send reply =>
      if holders.total = 0 then none
      else some { holders with stream := holders.stream.send reply }
  | .writeDone ok =>
      if holders.stream.writing = 0 then none
      else some { holders with stream := holders.stream.writeDone ok }
  | .turnOff =>
      if holders.stream.writing = 0 ∨ holders.stream.queue ≠ [] then none
      else
        some { holders with
          stream := holders.stream.turnOff
          releasing := holders.releasing + 1 }
  | .release =>
      if holders.releasing = 0 then none
      else
        some { holders with
          stream := holders.stream.unref
          releasing := holders.releasing - 1 }
  | .finish =>
      if holders.total = 0 then none
      else some { holders with stream := holders.stream.finishWithCloser }
  | .finishDone =>
      if holders.stream.closers = 0 then none
      else some { holders with stream := holders.stream.closerDone }
  | .openHandle =>
      if holders.total = 0 then none
      else
        some { holders with
          stream := holders.stream.ref
          handles := holders.handles + 1 }
  | .dropHandle =>
      if holders.handles = 0 then none
      else
        some { holders with
          stream := holders.stream.unref
          handles := holders.handles - 1 }

/-! ## What an operation does to the count -/

section Counting

variable (stream : SVStream) (reply : Reply)

theorem unref_refc : stream.unref.refc = stream.refc - 1 := by
  rw [unref, apply_ite refc, ite_self]

theorem unref_deletes : stream.unref.deletes =
    if stream.refc ≤ 1 then stream.deletes + 1 else stream.deletes := by
  rw [unref, apply_ite deletes]
  refine if_congr ?_ rfl rfl
  change stream.refc - 1 ≤ 0 ↔ stream.refc ≤ 1
  omega

theorem unref_closers : stream.unref.closers = stream.closers := by
  rw [unref, apply_ite closers, ite_self]

/-- A reference is taken with every write that is started. -/
theorem send_counts :
    (stream.send reply).refc - (stream.send reply).writing =
        stream.refc - stream.writing ∧
      (stream.send reply).deletes = stream.deletes ∧
      (stream.send reply).closers = stream.closers ∧
      stream.writing ≤ (stream.send reply).writing := by
  rw [send]
  split
  · exact ⟨rfl, rfl, rfl, le_rfl⟩
  · refine ⟨?_, rfl, rfl, Nat.le_succ _⟩
    change stream.refc + 1 - ((stream.writing + 1 : ℕ) : ℤ) = _
    omega

end Counting

/-- The invariant of the count. -/
structure Counted (holders : Holders) : Prop where
  refc : holders.stream.refc = holders.total
  deletes : holders.stream.deletes =
    if holders.total = 0 ∧ holders.constructed = true then 1 else 0
  constructed : holders.constructed = false → holders.total = 0
  ordered : ∃ sends, Ordered ⟨holders.stream, sends⟩

theorem counted_init : Counted Holders.init where
  refc := rfl
  deletes := rfl
  constructed _ := rfl
  ordered := ⟨[], ordered_init⟩

section Steps

variable {holders : Holders}

/-- A holder that exists shows that the stream is constructed, and not deleted. -/
theorem Counted.held (hcounted : Counted holders) (hheld : 0 < holders.total) :
    holders.constructed = true ∧ holders.stream.deletes = 0 := by
  have hconstructed : holders.constructed = true := by
    by_contra hnot
    have hnone := hcounted.constructed ((Bool.not_eq_true _).mp hnot)
    omega
  refine ⟨hconstructed, ?_⟩
  rw [hcounted.deletes, if_neg (fun h => by omega)]

/-- The queue equation does not mention the count. -/
theorem Ordered.congr {stream other : SVStream} {sends : List Reply}
    (hordered : Ordered ⟨stream, sends⟩) (hqueue : other.queue = stream.queue)
    (hwritten : other.written = stream.written)
    (hsending : other.isSending = stream.isSending)
    (hwriting : other.writing = stream.writing) : Ordered ⟨other, sends⟩ where
  queue_eq := by
    rw [hqueue, hwritten]
    exact hordered.queue_eq
  idle hidle := by
    rw [hqueue, hwriting]
    exact hordered.idle (hsending ▸ hidle)
  single := hwriting ▸ hordered.single

theorem Ordered.unref {stream : SVStream} {sends : List Reply}
    (hordered : Ordered ⟨stream, sends⟩) : Ordered ⟨stream.unref, sends⟩ :=
  hordered.congr (unref_queue stream) (unref_written stream)
    (unref_isSending stream) (unref_writing stream)

theorem Ordered.of_unref {stream : SVStream} {sends : List Reply}
    (hordered : Ordered ⟨stream.unref, sends⟩) : Ordered ⟨stream, sends⟩ :=
  hordered.congr (unref_queue stream).symm (unref_written stream).symm
    (unref_isSending stream).symm (unref_writing stream).symm

/-- References are taken while there is a holder. -/
theorem Counted.take (hcounted : Counted holders) {next : Holders}
    (hheld : 0 < holders.total) (hgrows : holders.total ≤ next.total)
    (hrefc : next.stream.refc - next.total =
      holders.stream.refc - holders.total)
    (hdeletes : next.stream.deletes = holders.stream.deletes)
    (hconstructed : next.constructed = holders.constructed)
    (hordered : ∃ sends, Ordered ⟨next.stream, sends⟩) : Counted next := by
  obtain ⟨hwas, halive⟩ := hcounted.held hheld
  have hbefore := hcounted.refc
  refine ⟨by omega, ?_, fun hnot => ?_, hordered⟩
  · rw [hdeletes, halive, if_neg (fun h => by omega)]
  · rw [hconstructed, hwas] at hnot
    contradiction

/-- A holder gives its reference back; the last one deletes the stream. -/
theorem Counted.give (hcounted : Counted holders) {next : Holders}
    {base : SVStream} (hnext : next.stream = base.unref)
    (htotal : next.total + 1 = holders.total)
    (hrefc : base.refc = holders.stream.refc)
    (hdeletes : base.deletes = holders.stream.deletes)
    (hconstructed : next.constructed = holders.constructed)
    (hordered : ∃ sends, Ordered ⟨base, sends⟩) : Counted next := by
  have hheld : 0 < holders.total := by omega
  obtain ⟨hwas, halive⟩ := hcounted.held hheld
  have hbefore := hcounted.refc
  obtain ⟨sends, hkept⟩ := hordered
  refine ⟨?_, ?_, fun hnot => ?_, sends, hnext ▸ hkept.unref⟩
  · rw [hnext, unref_refc]
    omega
  · rw [hnext, unref_deletes, hrefc, hdeletes, halive, hconstructed, hwas]
    refine if_congr ?_ rfl rfl
    rw [and_iff_left rfl]
    omega
  · rw [hconstructed, hwas] at hnot
    contradiction

/-- A reference is taken for one more holder. -/
theorem Counted.takeOne (hcounted : Counted holders) {next : Holders}
    (hheld : holders.total ≠ 0) (htotal : next.total = holders.total + 1)
    (hrefc : next.stream.refc = holders.stream.refc + 1)
    (hdeletes : next.stream.deletes = holders.stream.deletes)
    (hconstructed : next.constructed = holders.constructed)
    (hordered : ∃ sends, Ordered ⟨next.stream, sends⟩) : Counted next := by
  refine hcounted.take (Nat.pos_of_ne_zero hheld) (by omega) ?_ hdeletes
    hconstructed hordered
  rw [htotal, hrefc]
  omega

/-- A `Conn`, a handle or a `Step` gives its reference back. -/
theorem Counted.giveOne (hcounted : Counted holders) {next : Holders}
    (hnext : next.stream = holders.stream.unref)
    (hothers : next.conns + next.handles + next.releasing + 1 =
      holders.conns + holders.handles + holders.releasing)
    (hconstructed : next.constructed = holders.constructed) :
    Counted next := by
  refine hcounted.give hnext ?_ rfl rfl hconstructed hcounted.ordered
  rw [Holders.total, Holders.total, hnext, unref_closers, unref_writing]
  omega

/-- The stream without the write that has completed. -/
def delivered (stream : SVStream) : SVStream :=
  { stream with writing := stream.writing - 1 }

/-- The completion of a write passes its reference on or gives it back. -/
theorem Counted.writeDone (hcounted : Counted holders)
    (houtstanding : holders.stream.writing ≠ 0) (ok : Bool) :
    Counted { holders with stream := holders.stream.writeDone ok } := by
  obtain ⟨sends, hordered⟩ := hcounted.ordered
  have hdone := hordered.writeDone houtstanding ok
  cases ok with
  | false =>
      have hbase : holders.stream.writeDone false =
          holders.stream.delivered.unref := rfl
      rw [hbase] at hdone ⊢
      refine hcounted.give rfl ?_ rfl rfl rfl ⟨sends, hdone.of_unref⟩
      rw [Holders.total, Holders.total, unref_closers, unref_writing]
      simp only [delivered]
      omega
  | true =>
      cases hqueue : holders.stream.queue with
      | nil =>
          rw [writeDone_of_empty hqueue] at hdone ⊢
          refine hcounted.give rfl ?_ rfl rfl rfl ⟨sends, hdone.of_unref⟩
          rw [Holders.total, Holders.total, unref_closers, unref_writing]
          simp only [turnOff]
          omega
      | cons reply rest =>
          have hstep : holders.stream.writeDone true =
              { holders.stream.delivered.write reply with queue := rest } := by
            rw [SVStream.writeDone, if_pos rfl, SVStream.step]
            dsimp only
            rw [hqueue]
            rfl
          have hsame : holders.stream.writing - 1 + 1 =
              holders.stream.writing := by omega
          have htotal :
              { holders with stream := holders.stream.writeDone true }.total =
                holders.total := by
            rw [Holders.total, Holders.total, hstep]
            change holders.conns + holders.handles + holders.stream.closers +
              (holders.stream.writing - 1 + 1) + holders.releasing = _
            rw [hsame]
          have hheld : 0 < holders.total := by
            rw [Holders.total]
            omega
          refine hcounted.take hheld (Nat.le_of_eq htotal.symm) ?_ ?_ rfl ⟨sends, hdone⟩
          · rw [htotal, hstep]
            rfl
          · rw [hstep]
            rfl

/-- The constructor of `Conn` is the first holder. -/
theorem Counted.construct (hcounted : Counted holders)
    (hfresh : holders.constructed = false) :
    Counted { holders with
      stream := holders.stream.ref
      constructed := true
      conns := holders.conns + 1 } := by
  obtain ⟨sends, hordered⟩ := hcounted.ordered
  have hnone := hcounted.constructed hfresh
  have hrefc := hcounted.refc
  have hdeletes := hcounted.deletes
  rw [hfresh, if_neg (by simp)] at hdeletes
  have htotal : { holders with
      stream := holders.stream.ref
      constructed := true
      conns := holders.conns + 1 }.total = 1 := by
    rw [Holders.total] at hnone ⊢
    change holders.conns + 1 + holders.handles + holders.stream.closers +
      holders.stream.writing + holders.releasing = 1
    omega
  refine ⟨?_, ?_, by simp, sends, hordered.congr rfl rfl rfl rfl⟩
  · rw [htotal]
    change holders.stream.refc + 1 = 1
    omega
  · rw [htotal, if_neg (fun h => Nat.one_ne_zero h.1)]
    exact hdeletes

/-- `Send` starts a write, which holds the stream, or leaves the count. -/
theorem Counted.send (hcounted : Counted holders) (hheld : holders.total ≠ 0)
    (reply : Reply) :
    Counted { holders with stream := holders.stream.send reply } := by
  obtain ⟨sends, hordered⟩ := hcounted.ordered
  obtain ⟨hrefc, hdeletes, hclosers, hwriting⟩ :=
    send_counts holders.stream reply
  refine hcounted.take (Nat.pos_of_ne_zero hheld) ?_ ?_ hdeletes rfl
    ⟨_, hordered.send reply⟩
  all_goals
    rw [Holders.total, Holders.total, hclosers]
    dsimp only
    omega

/-- The reference of the write stays with its `Step`. -/
theorem Counted.turnOff (hcounted : Counted holders)
    (houtstanding : holders.stream.writing ≠ 0)
    (hempty : holders.stream.queue = []) :
    Counted { holders with
      stream := holders.stream.turnOff
      releasing := holders.releasing + 1 } := by
  obtain ⟨sends, hordered⟩ := hcounted.ordered
  have hdone := hordered.writeDone houtstanding true
  rw [writeDone_of_empty hempty] at hdone
  have htotal : { holders with
      stream := holders.stream.turnOff
      releasing := holders.releasing + 1 }.total = holders.total := by
    rw [Holders.total, Holders.total]
    simp only [SVStream.turnOff]
    omega
  have hheld : 0 < holders.total := by
    rw [Holders.total]
    omega
  refine hcounted.take hheld (Nat.le_of_eq htotal.symm) ?_ rfl rfl
    ⟨sends, hdone.of_unref⟩
  rw [htotal]
  rfl

/-- A `StreamCloser` holds the stream until its Finish is done. -/
theorem Counted.closerDone (hcounted : Counted holders)
    (hcloser : holders.stream.closers ≠ 0) :
    Counted { holders with stream := holders.stream.closerDone } := by
  obtain ⟨sends, hordered⟩ := hcounted.ordered
  refine hcounted.give rfl ?_ rfl rfl rfl
    ⟨sends, hordered.congr rfl rfl rfl rfl⟩
  rw [Holders.total, Holders.total, SVStream.closerDone, unref_closers,
    unref_writing]
  dsimp only
  omega

theorem counted_step (holders : Holders) (use : Use) (next : Holders)
    (hcounted : Counted holders) (hstep : holders.step use = some next) :
    Counted next := by
  obtain ⟨sends, hordered⟩ := hcounted.ordered
  cases use with
  | construct =>
      obtain ⟨hfresh, heq⟩ := Option.ite_none_left_eq_some.mp hstep
      obtain rfl := Option.some.inj heq
      exact hcounted.construct ((Bool.not_eq_true _).mp hfresh)
  | destruct =>
      obtain ⟨hconn, heq⟩ := Option.ite_none_left_eq_some.mp hstep
      obtain rfl := Option.some.inj heq
      refine hcounted.giveOne rfl ?_ rfl
      dsimp only
      omega
  | send reply =>
      obtain ⟨hheld, heq⟩ := Option.ite_none_left_eq_some.mp hstep
      obtain rfl := Option.some.inj heq
      exact hcounted.send hheld reply
  | writeDone ok =>
      obtain ⟨houtstanding, heq⟩ := Option.ite_none_left_eq_some.mp hstep
      obtain rfl := Option.some.inj heq
      exact hcounted.writeDone houtstanding ok
  | turnOff =>
      obtain ⟨hguard, heq⟩ := Option.ite_none_left_eq_some.mp hstep
      obtain rfl := Option.some.inj heq
      rw [not_or, not_not] at hguard
      exact hcounted.turnOff hguard.1 hguard.2
  | release =>
      obtain ⟨hreleasing, heq⟩ := Option.ite_none_left_eq_some.mp hstep
      obtain rfl := Option.some.inj heq
      refine hcounted.giveOne rfl ?_ rfl
      dsimp only
      omega
  | finish =>
      obtain ⟨hheld, heq⟩ := Option.ite_none_left_eq_some.mp hstep
      obtain rfl := Option.some.inj heq
      have htotal : { holders with
          stream := holders.stream.finishWithCloser }.total =
            holders.total + 1 := by
        rw [Holders.total, Holders.total]
        simp only [finishWithCloser, SVStream.finish, ref]
        omega
      exact hcounted.takeOne hheld htotal rfl rfl rfl
        ⟨sends, hordered.congr rfl rfl rfl rfl⟩
  | finishDone =>
      obtain ⟨hcloser, heq⟩ := Option.ite_none_left_eq_some.mp hstep
      obtain rfl := Option.some.inj heq
      exact hcounted.closerDone hcloser
  | openHandle =>
      obtain ⟨hheld, heq⟩ := Option.ite_none_left_eq_some.mp hstep
      obtain rfl := Option.some.inj heq
      have htotal : { holders with
          stream := holders.stream.ref
          handles := holders.handles + 1 }.total = holders.total + 1 := by
        rw [Holders.total, Holders.total]
        simp only [ref]
        omega
      exact hcounted.takeOne hheld htotal rfl rfl rfl
        ⟨sends, hordered.congr rfl rfl rfl rfl⟩
  | dropHandle =>
      obtain ⟨hhandle, heq⟩ := Option.ite_none_left_eq_some.mp hstep
      obtain rfl := Option.some.inj heq
      refine hcounted.giveOne rfl ?_ rfl
      dsimp only
      omega

end Steps

/-- Only an interrupted `Step` has a reference still to give back. -/
theorem releasing_step {holders next : Holders} {use : Use}
    (hstep : holders.step use = some next) (hwhole : use ≠ .turnOff)
    (hnone : holders.releasing = 0) : next.releasing = 0 := by
  cases use with
  | turnOff => exact absurd rfl hwhole
  | release =>
      obtain ⟨hreleasing, -⟩ := Option.ite_none_left_eq_some.mp hstep
      exact absurd hnone hreleasing
  | _ =>
      obtain ⟨-, heq⟩ := Option.ite_none_left_eq_some.mp hstep
      obtain rfl := Option.some.inj heq
      exact hnone

theorem releasing_exec {uses : List Use} {holders final : Holders}
    (hrun : exec Holders.step holders uses = some final)
    (hwhole : ∀ use ∈ uses, use ≠ .turnOff)
    (hnone : holders.releasing = 0) : final.releasing = 0 := by
  induction uses generalizing holders with
  | nil =>
      obtain rfl := Option.some.inj hrun
      exact hnone
  | cons use rest ih =>
      obtain ⟨next, hnext, hrest⟩ := exec_cons_eq_some.mp hrun
      rw [List.forall_mem_cons] at hwhole
      exact ih hrest hwhole.2 (releasing_step hnext hwhole.1 hnone)

/-- After every interleaving `refc_` is the number of holders, the write being
one while it is outstanding and each `Step` that still has to give its
reference back another.  The stream was deleted once if it has had holders and
has none left, and not at all otherwise. -/
theorem refc_counts (uses : List Use) (final : Holders)
    (hrun : exec Holders.step Holders.init uses = some final) :
    final.stream.refc =
        final.conns + final.handles + final.stream.closers +
          (if final.stream.writing ≠ 0 then 1 else 0) + final.releasing ∧
      ((∀ use ∈ uses, use ≠ .turnOff) → final.releasing = 0) ∧
      final.stream.deletes =
        (if final.constructed = true ∧ final.total = 0 then 1 else 0) ∧
      (final.stream.writing ≠ 0 ∨ final.stream.closers ≠ 0 →
        final.stream.deletes = 0) := by
  have hcounted := exec_invariant counted_step counted_init hrun
  obtain ⟨sends, hordered⟩ := hcounted.ordered
  have hsingle : final.stream.writing ≤ 1 := hordered.single
  have hrefc := hcounted.refc
  rw [Holders.total] at hrefc
  refine ⟨?_, fun hwhole => releasing_exec hrun hwhole rfl, ?_, fun hheld => ?_⟩
  · split <;> omega
  · rw [hcounted.deletes]
    exact if_congr and_comm rfl rfl
  · refine (hcounted.held ?_).2
    rw [Holders.total]
    omega

private def notice : Reply :=
  { type := 1, msgid := 0, error := none, payload := [] }

/-- A handle keeps the stream while its `Conn` is destructed, and a write while
the handle is dropped; the `Step` that finds the queue empty deletes it. -/
theorem refc_counts_handover :
    ∃ final, exec Holders.step Holders.init
        [.construct, .openHandle, .send notice, .finish, .destruct,
          .dropHandle, .finishDone, .turnOff, .release] = some final ∧
      (final.stream.refc =
          final.conns + final.handles + final.stream.closers +
            (if final.stream.writing ≠ 0 then 1 else 0) + final.releasing ∧
        ((∀ use ∈ [Use.construct, .openHandle, .send notice, .finish,
            .destruct, .dropHandle, .finishDone, .turnOff, .release],
            use ≠ .turnOff) → final.releasing = 0) ∧
        final.stream.deletes =
          (if final.constructed = true ∧ final.total = 0 then 1 else 0) ∧
        (final.stream.writing ≠ 0 ∨ final.stream.closers ≠ 0 →
          final.stream.deletes = 0)) :=
  ⟨_, rfl, refc_counts
    [.construct, .openHandle, .send notice, .finish, .destruct, .dropHandle,
      .finishDone, .turnOff, .release] _ rfl⟩

end SVStream

end GrpcMtk
