import GrpcMtk.Dialogue.Delivery

/-!
# Replies across a connection

A callback that is given a reply gets what a `Conn` has written to it after it
had read the request of the call.  The msgid is all that links the two: the
server puts none but those it has read into its replies, if its application
does not either, and the client finds the call by it.  So the link holds as long
as no msgid is issued to two calls.
-/

namespace GrpcMtk

open GrpcMtk.Proto
open GrpcMtk.Runs

/-! ## What the client takes for a reply -/

namespace Tracked

section Replies

variable {tracked next : Tracked}

instance (tracked : Tracked) : ∀ action, Decidable (tracked.Matched action)
  | .ioEvent _ true _ => inferInstanceAs (Decidable (_ ∨ _ ∨ _))
  | .ioEvent _ false _ | .release | .releaseEnqueue | .callBegin _
  | .callNumber _ _ | .callEnqueue _ | .callInsert _ | .update _ | .stop
  | .stopTimeout | .ioTimeout | .ioShutdown | .ioDrain => isTrue trivial

/-- A completion leaves the replies alone or pushes the event of a new stream,
unless it is that of a read which has filled the reply it pushes. -/
theorem Tracks.replys_taken {index tag : ℕ} {ok : Bool} {message : Reply}
    (htracks : Tracks tracked)
    (hmatched : tracked.Matched (.ioEvent index ok message))
    (htag : tracked.stream.iothr.cq[index]? = some tag) :
    (ok = true → ¬tracked.Fills index) ∧
        ((tracked.stream.takeEvent index ok tag message).replys =
            tracked.stream.replys ∨
          (tracked.stream.takeEvent index ok tag message).replys =
            tracked.stream.replys ++ [.establishedEvent]) ∨
      ok = true ∧ tracked.Fills index ∧
        (tracked.stream.takeEvent index ok tag message).replys =
          tracked.stream.replys ++ [.reply message] := by
  obtain ⟨operation, hoperation, hkind⟩ := htracks.operation htag
  cases hwrite : IOThread.isWriteOperation tag with
  | true =>
      rw [hwrite, decide_eq_true_eq] at hkind
      refine Or.inl ⟨fun _ ⟨hread, hbuffer⟩ => ?_,
        Or.inl (RPCStream.replys_takeEvent_write hwrite _ _ _)⟩
      obtain ⟨buffer, hsome⟩ := Option.ne_none_iff_exists'.mp hbuffer
      rw [hsome, hoperation, hkind, Option.map_some, Option.some.injEq] at hread
      exact Operation.noConfusion hread
  | false =>
      rw [hwrite, decide_eq_false_iff_not] at hkind
      have hread :=
        (htracks.tags tag (List.mem_of_getElem? htag)).resolve_left
          (by rw [hwrite]; exact Bool.false_ne_true)
      rw [RPCStream.replys_takeEvent_read hwrite hread]
      cases ok with
      | false =>
          exact Or.inl ⟨fun hok => absurd hok Bool.false_ne_true, Or.inl rfl⟩
      | true =>
          have hbuffer := htracks.buffer
          cases hset : tracked.stream.iothr.replyWork with
          | false =>
              rw [hset, Option.isSome_eq_false_iff, Option.isNone_iff_eq_none]
                at hbuffer
              exact Or.inl ⟨fun _ hfills => hfills.2 hbuffer, Or.inr rfl⟩
          | true =>
              refine Or.inr ⟨rfl, ?_, rfl⟩
              rw [hset] at hbuffer
              rcases hmatched with ⟨-, hnone⟩ | hfills | hother
              · rw [hnone] at hbuffer
                contradiction
              · exact hfills
              · rw [hoperation, Option.some.injEq] at hother
                exact absurd hother hkind

/-- A reply is new in the queue only if a read has filled it. -/
theorem reply_pushed {action : RPCStream.Action} {reply : Reply}
    (htracks : Tracks tracked) (hmatched : tracked.Matched action)
    (hstep : tracked.step action = some next)
    (hmem : .reply reply ∈ next.stream.replys) :
    .reply reply ∈ tracked.stream.replys ∨
      ∃ index, action = .ioEvent index true reply ∧ tracked.Fills index := by
  have hact :=
    (RPCStream.step_eq_some.mp (step_eq_some.mp hstep).1).2
  rcases RPCStream.act_cases hact with ⟨huntouched, -, -⟩ | ⟨rfl, hnext⟩ |
    ⟨index, ok, message, tag, rfl, htag, hnext⟩
  · exact Or.inl
      ((huntouched.pushes _ hmem).resolve_right ReplyItem.noConfusion)
  · obtain ⟨requests, iothr, consumed, crashed, heq⟩ :=
      RPCStream.ioTimeout_eq tracked.stream
    rw [hnext, heq] at hmem
    exact Or.inl hmem
  · rw [hnext] at hmem
    rcases htracks.replys_taken hmatched htag with
      ⟨-, hkept | hestablished⟩ | ⟨rfl, hfills, hreply⟩
    · exact Or.inl (hkept ▸ hmem)
    · rw [hestablished] at hmem
      exact Or.inl ((List.mem_append.mp hmem).resolve_right fun hnew =>
        absurd (List.mem_singleton.mp hnew) ReplyItem.noConfusion)
    · rw [hreply] at hmem
      rcases List.mem_append.mp hmem with hold | hnew
      · exact Or.inl hold
      · obtain rfl := ReplyItem.reply.inj (List.mem_singleton.mp hnew)
        exact Or.inr ⟨index, rfl, hfills⟩

end Replies

end Tracked

namespace Dialogue

/-- A `Conn` of the client has written this reply. -/
def WrittenTo (dialogue : Dialogue) (reply : Reply) : Prop :=
  ∃ conn self, dialogue.peers conn ≠ none ∧
    dialogue.server.conns conn = some self ∧ reply ∈ self.stream.written

/-- The msgid of a request that a `Conn` has read, or that of no request. -/
def Heard (dialogue : Dialogue) (conn : ConnId) (msgid : ℕ) : Prop :=
  msgid = 0 ∨ ∃ request ∈ dialogue.heard conn, request.msgid = msgid

instance (dialogue : Dialogue) (conn : ConnId) (msgid : ℕ) :
    Decidable (dialogue.Heard conn msgid) :=
  inferInstanceAs (Decidable (_ ∨ _))

/-- What completes at the client is what it has started last, and the
application of the server answers only what the same `Conn` has read. -/
def Orderly (dialogue : Dialogue) : Action → Prop
  | .client action => dialogue.client.Matched action
  | .receive index _ reply =>
      dialogue.client.Matched (.ioEvent index true reply)
  | .server (.send conn reply) => dialogue.Heard conn reply.msgid
  | .server (.finishLogin lcid _ msgid _) =>
      ∀ conn ∈ dialogue.server.reg.pmap lcid, dialogue.Heard conn msgid
  | _ => True

/-! ## What a step leaves alone -/

/-- What a `Conn` has met, read and written it has met, read and written. -/
structure Onwards (dialogue next : Dialogue) : Prop where
  server : Server.Goes dialogue.server next.server
  peers : ∀ conn, dialogue.peers conn ≠ none →
    next.peers conn = dialogue.peers conn
  heard : ∀ conn, dialogue.heard conn ⊆ next.heard conn

section Onwards

variable {codec : Codec} {dialogue next : Dialogue}

theorem Onwards.writtenTo (honwards : Onwards dialogue next) {reply : Reply}
    (hwritten : dialogue.WrittenTo reply) : next.WrittenTo reply := by
  obtain ⟨conn, self, hpeer, hconn, hmem⟩ := hwritten
  obtain ⟨self', hself', hprefix, -⟩ := honwards.server.kept conn self hconn
  exact ⟨conn, self', honwards.peers conn hpeer ▸ hpeer, hself',
    hprefix.subset hmem⟩

theorem Onwards.known (honwards : Onwards dialogue next) {conn : ConnId}
    {msgid : ℕ} (hheard : dialogue.Heard conn msgid) :
    next.Heard conn msgid := by
  rcases hheard with hzero | ⟨request, hmem, hmsgid⟩
  · exact Or.inl hzero
  · exact Or.inr ⟨request, honwards.heard conn hmem, hmsgid⟩

theorem Delivering.onwards {action : Action} (hdelivering : Delivering dialogue)
    (hstep : dialogue.step codec action = some next) :
    Onwards dialogue next := by
  have hgoes {server : Server} {serverAction : Server.Action}
      (hserver : dialogue.server.step codec serverAction = some server) :
      Server.Goes dialogue.server server :=
    Server.goes_step hdelivering.wellFormed hserver
  cases action with
  | client action =>
      obtain ⟨-, hserver, hpeers, hheard, -⟩ :=
        clientStep_eq (step_client hstep).2
      exact ⟨hserver ▸ .of_conns rfl, fun conn _ => congrFun hpeers conn,
        fun conn => hheard ▸ List.Subset.refl _⟩
  | receive index conn reply =>
      obtain ⟨_, middle, -, -, -, hmiddle, rfl⟩ := step_receive hstep
      obtain ⟨-, hserver, hpeers, hheard, -⟩ := clientStep_eq hmiddle
      exact ⟨hserver ▸ .of_conns rfl, fun conn _ => congrFun hpeers conn,
        fun conn => hheard ▸ List.Subset.refl _⟩
  | server action =>
      obtain ⟨-, server, hserver, rfl⟩ := step_server hstep
      exact ⟨hgoes hserver, fun _ _ => rfl, fun other =>
        (dialogue.sublist_heardAfter action other).subset⟩
  | accept conn peer =>
      obtain ⟨self, server, hconn, hstatus, -, hserver, rfl⟩ :=
        step_accept hstep
      refine ⟨hgoes hserver, fun other hpeer => ?_,
        fun _ => List.Subset.refl _⟩
      refine Function.update_of_ne ?_ _ _
      rintro rfl
      exact hpeer (hdelivering.waiting other self hconn hstatus).2
  | read conn acceptor results =>
      obtain ⟨peer, sent, server, -, -, hserver, rfl⟩ := step_read hstep
      exact ⟨hgoes hserver, fun _ _ => rfl, fun other =>
        (sublist_update_append _ conn sent.request other).subset⟩

end Onwards

/-! ## The runs -/

/-- The replies in the queue of the client and those given to callbacks were
written to it, with msgids that their `Conn` has read. -/
structure Attested (dialogue : Dialogue) : Prop where
  delivering : Delivering dialogue
  tracks : Tracked.Tracks dialogue.client
  consistent : CallTable.Consistent dialogue.client.stream.calls
  answers : dialogue.server.Answers dialogue.Heard
  queued : ∀ reply, .reply reply ∈ dialogue.client.stream.replys →
    dialogue.WrittenTo reply
  delivered : ∀ call reply,
    (call, .replied reply) ∈ dialogue.client.stream.invoked →
      dialogue.WrittenTo reply ∧ reply.msgid ≠ 0 ∧
        (call, reply.msgid) ∈ dialogue.client.stream.issued

theorem attested_init : Attested init where
  delivering := delivering_init
  tracks := Tracked.tracks_new
  consistent := RPCStream.consistent_new
  answers :=
    { conns := fun _ _ hconn => absurd hconn (Option.some_ne_none _).symm
      finishing := fun _ _ hmem => absurd hmem List.not_mem_nil }
  queued _ hmem := absurd hmem List.not_mem_nil
  delivered _ _ hmem := absurd hmem List.not_mem_nil

section Attested

variable {codec : Codec} {dialogue next : Dialogue}

/-- The client goes on, and a reply it puts into its queue was written. -/
theorem Attested.clientStep {action : RPCStream.Action} {middle : Dialogue}
    (hattested : Attested dialogue) (hdelivering : Delivering next)
    (honwards : Onwards dialogue next)
    (hstep : dialogue.clientStep action = some middle)
    (hclient : next.client = middle.client)
    (hserver : next.server = dialogue.server)
    (hmatched : dialogue.client.Matched action)
    (hreceived : ∀ index reply, action = .ioEvent index true reply →
      dialogue.client.Fills index → dialogue.WrittenTo reply) :
    Attested next := by
  have htracked := (clientStep_eq hstep).1
  rw [← hclient] at htracked
  have hstream := (Tracked.step_eq_some.mp htracked).1
  have hdid := RPCStream.did_of_step hstream
  have hissued := RPCStream.issued_subset (RPCStream.passage_of_did hdid)
  refine {
    delivering := hdelivering
    tracks := hattested.tracks.step htracked
    consistent := RPCStream.consistent_step hattested.consistent hstream
    answers := ?_
    queued := fun reply hmem => ?_
    delivered := fun call reply hmem => ?_ }
  · rw [hserver]
    exact hattested.answers.mono fun conn msgid => honwards.known
  · rcases Tracked.reply_pushed hattested.tracks hmatched htracked hmem with
      hold | ⟨index, rfl, hfills⟩
    · exact honwards.writtenTo (hattested.queued reply hold)
    · exact honwards.writtenTo (hreceived index reply rfl hfills)
  · obtain ⟨run, hinvoked, hjustified⟩ :=
      RPCStream.did_own hattested.consistent hdid
    rw [hinvoked] at hmem
    rcases List.mem_append.mp hmem with hnew | hold
    · cases hjustified call _ hnew with
      | reply haction hupdating hreplys hrestarting hmsgid hknown =>
          exact ⟨honwards.writtenTo
            (hattested.queued reply (hreplys ▸ List.mem_cons_self)),
            hmsgid, hissued hknown⟩
    · obtain ⟨hwritten, hmsgid, hknown⟩ := hattested.delivered call reply hold
      exact ⟨honwards.writtenTo hwritten, hmsgid, hissued hknown⟩

/-- The server goes on and leaves the client alone. -/
theorem Attested.serverStep {action : Server.Action}
    (hattested : Attested dialogue) (hdelivering : Delivering next)
    (honwards : Onwards dialogue next)
    (hclient : next.client = dialogue.client)
    (hstep : dialogue.server.step codec action = some next.server)
    (haction : action.Answers next.Heard dialogue.server) : Attested next where
  delivering := hdelivering
  tracks := hclient ▸ hattested.tracks
  consistent := hclient ▸ hattested.consistent
  answers := by
    have hknown := hattested.answers.mono fun conn msgid => honwards.known
    exact (Server.advances_step hattested.delivering.wellFormed
      (fun _ => Or.inl rfl) hknown haction hstep).answers
  queued reply hmem := honwards.writtenTo
    (hattested.queued reply (hclient ▸ hmem))
  delivered call reply hmem := by
    rw [hclient] at hmem ⊢
    obtain ⟨hwritten, hmsgid, hknown⟩ := hattested.delivered call reply hmem
    exact ⟨honwards.writtenTo hwritten, hmsgid, hknown⟩

theorem Attested.step {action : Action} (hattested : Attested dialogue)
    (hstep : dialogue.step codec action = some next)
    (horderly : dialogue.Orderly action) : Attested next := by
  have hdelivering := hattested.delivering.step hstep
  have honwards := hattested.delivering.onwards hstep
  cases action with
  | client action =>
      obtain ⟨hreceives, hclient⟩ := step_client hstep
      refine hattested.clientStep hdelivering honwards hclient rfl
        (clientStep_eq hclient).2.1 horderly ?_
      rintro index reply rfl ⟨hread, hbuffer⟩
      obtain ⟨buffer, hsome⟩ := Option.ne_none_iff_exists'.mp hbuffer
      rw [hsome, Option.map_some] at hread
      exact absurd (by rw [Receives, ← hread]; rfl) hreceives
  | receive index conn reply =>
      obtain ⟨self, middle, hconn, hpeer, hnext, hmiddle, rfl⟩ :=
        step_receive hstep
      refine hattested.clientStep hdelivering honwards hmiddle rfl
        (clientStep_eq hmiddle).2.1 horderly ?_
      rintro index' reply' heq hfills
      obtain ⟨rfl, -, rfl⟩ := RPCStream.Action.ioEvent.inj heq
      exact ⟨conn, self, hpeer, hconn, List.mem_of_getElem? (hnext hfills)⟩
  | server action =>
      obtain ⟨hforeign, server, hserver, rfl⟩ := step_server hstep
      refine hattested.serverStep hdelivering honwards rfl hserver ?_
      cases action with
      | complete conn ok request acceptor results =>
          rintro self hconn rfl hstatus
          rcases hforeign with hnone | ⟨self', hself', -, hsame⟩
          · refine Or.inr ⟨request, ?_, rfl⟩
            dsimp only [heardAfter]
            rw [hconn]
            dsimp only
            rw [if_neg hstatus, if_pos hnone, Function.update_self]
            exact List.mem_append_right _ (List.mem_singleton_self _)
          · exact hsame ▸ honwards.known
              (hattested.answers.conns conn self' hself').req
      | finishLogin lcid cid msgid data =>
          exact fun conn hentry => honwards.known (horderly conn hentry)
      | send conn reply => exact honwards.known horderly
      | _ => trivial
  | accept conn peer =>
      obtain ⟨self, server, hconn, hstatus, -, hserver, rfl⟩ :=
        step_accept hstep
      refine hattested.serverStep hdelivering honwards rfl hserver ?_
      rintro self' hself' - hother
      rw [hconn, Option.some.injEq] at hself'
      exact absurd (hself' ▸ hstatus) hother
  | read conn acceptor results =>
      obtain ⟨peer, sent, server, -, -, hserver, rfl⟩ := step_read hstep
      refine hattested.serverStep hdelivering honwards rfl hserver ?_
      rintro self - - -
      refine Or.inr ⟨sent.request, ?_, rfl⟩
      dsimp only
      rw [Function.update_self]
      exact List.mem_append_right _ (List.mem_singleton_self _)

end Attested

instance (dialogue : Dialogue) : ∀ action, Decidable (dialogue.Orderly action)
  | .client action => inferInstanceAs (Decidable (Tracked.Matched _ action))
  | .receive index _ reply =>
      inferInstanceAs
        (Decidable (Tracked.Matched _ (.ioEvent index true reply)))
  | .server (.send conn reply) =>
      inferInstanceAs (Decidable (dialogue.Heard conn reply.msgid))
  | .server (.finishLogin lcid _ msgid _) =>
      inferInstanceAs (Decidable
        (∀ conn ∈ dialogue.server.reg.pmap lcid, dialogue.Heard conn msgid))
  | .accept _ _ | .read _ _ _ | .server (.launch _)
  | .server (.complete _ _ _ _ _) | .server (.consume _ _)
  | .server (.shutdown _ _) | .server (.prepareShutdown _)
  | .server (.postLogin _ _) | .server (.getStream _)
  | .server (.closeStream _) | .server (.addTask _ _)
  | .server (.writeDone _ _) | .server (.closerDone _ _) => isTrue trivial

/-- If the runs are orderly and no msgid was issued to two calls, a reply that
a callback was given is one that a `Conn` has written which has read the
request of this very call, under the msgid of the reply. -/
theorem replied_by_reader (codec : Codec) (actions : List Action)
    (dialogue : Dialogue)
    (hrun : exec (step codec) init actions = some dialogue)
    (horderly : AllSteps (step codec)
      (fun dialogue action _ => dialogue.Orderly action) init actions)
    (hunique : (dialogue.client.stream.issued.map Prod.snd).Nodup)
    (call : CallId) (reply : Reply)
    (hreplied : (call, .replied reply) ∈ dialogue.client.stream.invoked) :
    ∃ conn self sent, dialogue.server.conns conn = some self ∧
      reply ∈ self.stream.written ∧ sent ∈ dialogue.readBy conn ∧
      sent.call = call ∧ sent.request.msgid = reply.msgid := by
  have hattested := exec_invariant_of_allSteps
    (fun _ _ _ hattested hstep horderly =>
      Attested.step hattested hstep horderly) attested_init horderly hrun
  have hdelivering := hattested.delivering
  obtain ⟨⟨conn, self, hpeer, hconn, hwritten⟩, hmsgid, hissued⟩ :=
    hattested.delivered call reply hreplied
  have hknown := (hattested.answers.conns conn self hconn).stream.replies reply
    (List.mem_append_left _ hwritten)
  rcases hknown with hzero | ⟨request, hheard, hsame⟩
  · exact absurd hzero hmsgid
  rw [hdelivering.heard conn hpeer] at hheard
  obtain ⟨sent, hread, rfl⟩ := List.mem_map.mp hheard
  have hmade := hdelivering.outgoing.created sent.call sent.request
    (List.mem_append_left _
      (hdelivering.written sent (of_mem_readBy hread).1))
  have hown := hmade.resolve_right (hsame ▸ hmsgid)
  have hcall := List.inj_on_of_nodup_map hunique hown hissued hsame
  exact ⟨conn, self, sent, hconn, hwritten, hread,
    (Prod.mk.inj hcall).1, hsame⟩

theorem replied_by_reader_exchange :
    ∃ dialogue reply, exec (step Codec.small) init exchange = some dialogue ∧
      (1, .replied reply) ∈ dialogue.client.stream.invoked ∧
      ∃ conn self sent, dialogue.server.conns conn = some self ∧
        reply ∈ self.stream.written ∧ sent ∈ dialogue.readBy conn ∧
        sent.call = 1 ∧ sent.request.msgid = reply.msgid := by
  let replied : Reply := { type := 1, msgid := 2, error := none, payload := [] }
  obtain ⟨dialogue, hrun⟩ := Option.isSome_iff_exists.mp
    (by decide +kernel :
      (exec (step Codec.small) init exchange).isSome = true)
  have hfinal : (exec (step Codec.small) init exchange).all (fun dialogue =>
      decide ((dialogue.client.stream.issued.map Prod.snd).Nodup ∧
        (1, .replied replied) ∈ dialogue.client.stream.invoked)) = true := by
    decide +kernel
  rw [hrun, Option.all_some, decide_eq_true_eq] at hfinal
  exact ⟨dialogue, replied, hrun, hfinal.2,
    replied_by_reader Codec.small exchange dialogue hrun (by decide +kernel)
      hfinal.1 1 replied hfinal.2⟩

end Dialogue

end GrpcMtk
