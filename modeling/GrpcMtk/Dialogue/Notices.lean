import GrpcMtk.Dialogue.Replies

/-!
# Notifications

A reply with msgid 0 goes to the callback of `RegisterNotifyCB`.  Some of them
are lost: `DrainQueue` drops what is in `replys_`, and a client that restarts
ignores what it takes from it.  All others come once, and those of one `Conn` in
the order in which it has written them.
-/

namespace GrpcMtk

open GrpcMtk.Proto
open GrpcMtk.Runs

/-- A notification. -/
def ReplyItem.notice : ReplyItem → Option Reply
  | .reply message => if message.msgid = 0 then some message else none
  | .disconnectEvent => none
  | .establishedEvent => none

namespace RPCStream

/-- The notifications passed to `notifier_`, and behind them those that are
still in `replys_`. -/
def notices (stream : RPCStream) : List Reply :=
  stream.notified.reverse ++ stream.replys.filterMap ReplyItem.notice

/-- The notifications that a step of `DrainQueue` deletes, or that a client
ignores while it restarts. -/
def dropped (stream : RPCStream) : Action → List Reply
  | .update _ =>
      match stream.updating, stream.replys with
      | .drainReplys _, item :: _ => item.notice.toList
      | .processReply, item :: _ =>
          if stream.restarting then item.notice.toList else []
      | _, _ => []
  | _ => []

/-! ## What the client does with them -/

/-- One list is the other without some entries that stand together in it. -/
def Without (lost notices kept : List Reply) : Prop :=
  ∃ before behind, notices = before ++ (lost ++ behind) ∧
    kept = before ++ behind

section Without

variable {lost notices kept : List Reply}

theorem without_of_eq (hsame : kept = notices) : Without [] notices kept :=
  ⟨[], notices, rfl, hsame⟩

theorem Without.sublist (hwithout : Without lost notices kept) :
    kept.Sublist notices := by
  obtain ⟨before, behind, rfl, rfl⟩ := hwithout
  exact (List.sublist_append_right lost behind).append_left before

theorem Without.perm (hwithout : Without lost notices kept) :
    (kept ++ lost).Perm notices := by
  obtain ⟨before, behind, rfl, rfl⟩ := hwithout
  rw [List.append_assoc]
  exact List.perm_append_comm.append_left before

end Without

section Notices

variable {stream next : RPCStream}

theorem notices_of_eq (hnotified : next.notified = stream.notified)
    (hreplys : next.replys = stream.replys) :
    next.notices = stream.notices := by
  rw [notices, notices, hnotified, hreplys]

/-- The first item of the queue is taken and not passed on. -/
theorem notices_of_taken (item : ReplyItem) {rest : List ReplyItem}
    (hreplys : stream.replys = item :: rest)
    (hnotified : next.notified = stream.notified)
    (hrest : next.replys = rest) :
    Without item.notice.toList stream.notices next.notices := by
  refine ⟨stream.notified.reverse, rest.filterMap ReplyItem.notice, ?_, ?_⟩
  · rw [notices, hreplys]
    cases hnotice : item.notice with
    | none => rw [List.filterMap_cons_none hnotice]; rfl
    | some reply => rw [List.filterMap_cons_some hnotice]; rfl
  · rw [notices, hnotified, hrest]

theorem notices_pushReply (stream : RPCStream) (item : ReplyItem) :
    (stream.pushReply item).notices =
      stream.notices ++ item.notice.toList := by
  rw [notices, notices, pushReply]
  dsimp only
  rw [List.filterMap_append, List.append_assoc]
  cases hnotice : item.notice with
  | none => rw [List.filterMap_cons_none hnotice]; rfl
  | some reply => rw [List.filterMap_cons_some hnotice]; rfl

theorem notices_pushDisconnect (stream : RPCStream) :
    (stream.pushReply .disconnectEvent).notices = stream.notices := by
  rw [notices_pushReply]
  exact List.append_nil _

theorem notices_respond (entry : SEntry) (outcome : Outcome)
    (onOpenStream : Bool) (stream : RPCStream) :
    (stream.respond entry outcome onOpenStream).notices = stream.notices := by
  rw [respond]
  dsimp only
  split
  · rfl
  · split
    · rfl
    · exact notices_pushDisconnect _

theorem notices_foldl_respond (entries : List SEntry) (outcome : Outcome)
    (onOpenStream : Bool) (stream : RPCStream) :
    (entries.foldl (fun stream entry =>
      stream.respond entry outcome onOpenStream) stream).notices =
        stream.notices := by
  induction entries generalizing stream with
  | nil => rfl
  | cons entry rest ih => rw [List.foldl_cons, ih, notices_respond]

/-- A notification taken from the queue is passed on, or ignored. -/
theorem notices_processReply {reply : Reply} {rest : List ReplyItem}
    (hreplys : stream.replys = .reply reply :: rest) (onOpenStream : Bool) :
    Without
      (if stream.restarting then (ReplyItem.reply reply).notice.toList else [])
      stream.notices
      ({ stream with replys := rest }.processReply reply
        onOpenStream).notices := by
  rw [processReply]
  dsimp only
  split
  · exact notices_of_taken _ hreplys rfl rfl
  · split
    case isTrue hmsgid =>
      have hnotice : (ReplyItem.reply reply).notice = some reply :=
        if_pos hmsgid
      apply without_of_eq
      rw [notices, notices, hreplys, List.filterMap_cons_some hnotice]
      dsimp only
      rw [List.reverse_cons, List.append_assoc]
      rfl
    case isFalse hmsgid =>
      have hnotice : (ReplyItem.reply reply).notice = none := if_neg hmsgid
      have hrest : Without [] stream.notices
          { stream with replys := rest }.notices := by
        have htaken : Without (ReplyItem.reply reply).notice.toList
            stream.notices { stream with replys := rest }.notices :=
          notices_of_taken _ hreplys rfl rfl
        rw [hnotice] at htaken
        exact htaken
      split
      · exact hrest
      · rw [notices_respond]
        exact hrest

theorem notices_switchStatus (input : UpdateInput) (stream : RPCStream) :
    (stream.switchStatus input).notices = stream.notices := by
  rcases switchStatus_eq stream input with ⟨updating, heq⟩ |
    ⟨status, reconnectAttempt, iothr, -, heq⟩ | ⟨-, heq⟩
  all_goals
    rw [heq]
    exact notices_of_eq rfl rfl

theorem notices_update {input : UpdateInput}
    (hupdate : stream.update input = some next) :
    Without (stream.dropped (.update input)) stream.notices next.notices := by
  rw [dropped]
  rw [update] at hupdate
  split at hupdate
  case h_1 hupdating =>
    rw [hupdating]
    split at hupdate <;> obtain rfl := Option.some.inj hupdate <;>
      exact without_of_eq (notices_of_eq rfl rfl)
  case h_2 hupdating =>
    rw [hupdating]
    split at hupdate
    case h_1 hreplys =>
      obtain rfl := Option.some.inj hupdate
      rw [hreplys]
      exact without_of_eq (notices_of_eq rfl hreplys.symm)
    case h_4 reply rest hreplys =>
      obtain rfl := Option.some.inj hupdate
      have hkept := notices_processReply hreplys input.onOpenStream
      rw [hreplys]
      exact hkept
    -- An event is no notification, whether it is ignored or not.
    case h_2 rest hreplys =>
      obtain rfl := Option.some.inj hupdate
      rw [hreplys]
      dsimp only
      split <;> exact notices_of_taken .disconnectEvent hreplys rfl rfl
    case h_3 rest hreplys =>
      obtain rfl := Option.some.inj hupdate
      rw [hreplys]
      dsimp only
      split <;> exact notices_of_taken .establishedEvent hreplys rfl rfl
  case h_3 reason hupdating =>
    rw [hupdating]
    split at hupdate
    case h_1 hreplys =>
      obtain rfl := Option.some.inj hupdate
      rw [hreplys]
      exact without_of_eq (notices_of_eq rfl hreplys.symm)
    case h_2 item rest hreplys =>
      obtain rfl := Option.some.inj hupdate
      rw [hreplys]
      exact notices_of_taken item hreplys rfl rfl
  case h_4 reason hupdating =>
    rw [hupdating]
    apply without_of_eq
    split at hupdate
    · obtain rfl := Option.some.inj hupdate
      exact notices_of_eq rfl rfl
    case h_2 item rest hrequests =>
      obtain rfl := Option.some.inj hupdate
      obtain ⟨consumed, drained, crashed, heq⟩ :=
        deleteRequest_eq { stream with requests := rest } item
      rw [heq]
      exact notices_of_eq rfl rfl
  case h_5 reason hupdating =>
    rw [hupdating]
    apply without_of_eq
    obtain rfl := Option.some.inj hupdate
    obtain ⟨restarting, reconnectWhen, reconnectAttempt, status, heq⟩ :=
      settle_eq { stream with updating := .switch }.clearReqmap reason input
    rw [heq]
    exact notices_of_eq rfl rfl
  case h_6 hupdating =>
    rw [hupdating]
    obtain rfl := Option.some.inj hupdate
    exact without_of_eq (notices_switchStatus input stream)
  case h_7 now hupdating =>
    rw [hupdating]
    apply without_of_eq
    obtain rfl := Option.some.inj hupdate
    rw [processTimeout, notices_foldl_respond]
    exact notices_of_eq rfl rfl
  case h_8 => contradiction

theorem notices_stop (stream : RPCStream) :
    stream.stop.notices = stream.notices := by
  obtain ⟨iothr, -, -, -, heq | heq⟩ := stop_eq stream
  all_goals
    rw [heq]
    exact notices_of_eq rfl rfl

theorem notices_ioTimeout (stream : RPCStream) :
    stream.ioTimeout.notices = stream.notices := by
  obtain ⟨requests, iothr, consumed, crashed, heq⟩ := ioTimeout_eq stream
  rw [heq]
  exact notices_of_eq rfl rfl

theorem notices_ioDrain (seq : ℕ) (stream : RPCStream) :
    (stream.ioDrain seq).notices = stream.notices := by
  rw [ioDrain]
  split
  case h_1 item rest hrequests =>
    obtain ⟨consumed, drained, crashed, heq⟩ :=
      deleteRequest_eq { stream with requests := rest } item
    rw [heq]
    exact notices_of_eq rfl rfl
  case h_2 =>
    dsimp only
    split
    · rw [notices_pushDisconnect]
      exact notices_of_eq rfl rfl
    · exact notices_of_eq rfl rfl

/-- Only a completion can bring a notification. -/
theorem notices_of_act {action : Action} (hact : stream.act action = some next)
    (hevent : ∀ index ok reply, action ≠ .ioEvent index ok reply) :
    Without (stream.dropped action) stream.notices next.notices := by
  cases did_of_act hact with
  | update hupdated => exact notices_update hact
  | releaseEnqueue =>
      apply without_of_eq
      rw [releaseEnqueue, notices_pushDisconnect]
      exact notices_of_eq rfl rfl
  | callBegin request =>
      apply without_of_eq
      obtain ⟨-, heq⟩ | heq := callBegin_eq stream request
      all_goals
        rw [heq]
        exact notices_of_eq rfl rfl
  | stop => exact without_of_eq (notices_stop stream)
  | ioTimeout => exact without_of_eq (notices_ioTimeout stream)
  | ioEvent ok reply htag => exact absurd rfl (hevent _ ok reply)
  | ioDrain seq => exact without_of_eq (notices_ioDrain seq stream)
  | _ => exact without_of_eq (notices_of_eq rfl rfl)

end Notices

end RPCStream

/-- Only a read that fills the Reply brings a notification. -/
theorem Tracked.notices_step {tracked next : Tracked}
    {action : RPCStream.Action} (htracks : Tracks tracked)
    (hmatched : tracked.Matched action)
    (hstep : tracked.step action = some next) :
    (∀ index reply, action = .ioEvent index true reply →
        ¬tracked.Fills index) ∧
        RPCStream.Without (tracked.stream.dropped action)
          tracked.stream.notices next.stream.notices ∨
      ∃ index reply, action = .ioEvent index true reply ∧
        tracked.Fills index ∧
        next.stream.notices =
          tracked.stream.notices ++ (ReplyItem.reply reply).notice.toList := by
  have hact :=
    (RPCStream.step_eq_some.mp (step_eq_some.mp hstep).1).2
  rcases RPCStream.act_cases hact with ⟨-, -, hevent⟩ | ⟨rfl, -⟩ |
    ⟨index, ok, message, tag, rfl, htag, hnext⟩
  · exact Or.inl ⟨fun index reply haction => absurd haction
      (hevent index true reply), RPCStream.notices_of_act hact hevent⟩
  · exact Or.inl ⟨nofun, RPCStream.notices_of_act hact nofun⟩
  · have hnotified : next.stream.notified = tracked.stream.notified := by
      obtain ⟨replys, requests, iothr, consumed, crashed, heq⟩ :=
        RPCStream.takeEvent_eq tracked.stream index ok tag message
      rw [hnext, heq]
    have hpushed {item : ReplyItem}
        (hreplys : next.stream.replys = tracked.stream.replys ++ [item]) :
        next.stream.notices =
          tracked.stream.notices ++ item.notice.toList := by
      rw [← RPCStream.notices_pushReply, RPCStream.notices, RPCStream.notices,
        hnotified, hreplys]
      rfl
    rcases htracks.replys_taken hmatched htag with ⟨hother, hreplys⟩ |
      ⟨rfl, hfills, hreply⟩
    · refine Or.inl ⟨fun index' reply' haction => ?_,
        RPCStream.without_of_eq ?_⟩
      · obtain ⟨rfl, hok, -⟩ := RPCStream.Action.ioEvent.inj haction
        exact hother hok
      · rcases hreplys with hkept | hestablished
        · exact RPCStream.notices_of_eq hnotified (hnext ▸ hkept)
        · exact (hpushed (hnext ▸ hestablished)).trans (List.append_nil _)
    · exact Or.inr ⟨index, message, rfl, hfills, hpushed (hnext ▸ hreply)⟩

namespace Dialogue

/-- The notifications of a `Conn` of the client, as far as this has read what
the `Conn` has written. -/
def noticesOf (dialogue : Dialogue) (conn : ConnId) : List Reply :=
  match dialogue.peers conn, dialogue.server.conns conn with
  | some _, some self =>
      (self.stream.written.take (dialogue.received conn)).filter fun reply =>
        reply.msgid = 0
  | _, _ => []

/-- Those among notifications with their origins that are from a `Conn`. -/
def noticesFrom (conn : ConnId) (notices : List (ConnId × Reply)) :
    List Reply :=
  (notices.filter fun notice => notice.1 = conn).map Prod.snd

/-- What completes at the client is what it has started last. -/
def Matched (dialogue : Dialogue) : Action → Prop
  | .client action => dialogue.client.Matched action
  | .receive index _ reply =>
      dialogue.client.Matched (.ioEvent index true reply)
  | .server _ | .accept _ _ | .read _ _ _ => True

instance (dialogue : Dialogue) : ∀ action, Decidable (dialogue.Matched action)
  | .client action => inferInstanceAs (Decidable (Tracked.Matched _ action))
  | .receive index _ reply =>
      inferInstanceAs
        (Decidable (Tracked.Matched _ (.ioEvent index true reply)))
  | .server _ | .accept _ _ | .read _ _ _ => isTrue trivial

/-- The notifications that the client drops in a step. -/
def dropped (dialogue : Dialogue) : Action → List Reply
  | .client action => dialogue.client.stream.dropped action
  | .receive _ _ _ | .server _ | .accept _ _ | .read _ _ _ => []

/-! ## What a step adds to them -/

/-- The client has not read more of a `Conn` than this has written, and nothing
of one that is not its own. -/
structure Counted (dialogue : Dialogue) : Prop where
  unread : ∀ conn, dialogue.peers conn = none → dialogue.received conn = 0
  behind : ∀ conn self, dialogue.server.conns conn = some self →
    dialogue.received conn ≤ self.stream.written.length

section Sources

variable {codec : Codec} {dialogue next : Dialogue}

/-- What a `Conn` writes, the client has not read yet. -/
theorem noticesOf_of_onwards (hdelivering : Delivering dialogue)
    (hcounted : Counted dialogue) (honwards : Onwards dialogue next)
    {conn : ConnId} (hreceived : next.received conn = dialogue.received conn) :
    next.noticesOf conn = dialogue.noticesOf conn := by
  rw [noticesOf, noticesOf, hreceived]
  cases hpeer : dialogue.peers conn with
  | none =>
      rw [hcounted.unread conn hpeer]
      split <;> rfl
  | some peer =>
      cases hconn : dialogue.server.conns conn with
      | none =>
          rw [(hdelivering.future conn hconn).2] at hpeer
          contradiction
      | some self =>
          obtain ⟨self', hself', ⟨rest, hrest⟩, -⟩ :=
            honwards.server.kept conn self hconn
          have hkept := honwards.peers conn (hpeer ▸ Option.some_ne_none peer)
          rw [hkept, hpeer, hself']
          dsimp only
          rw [← hrest, List.take_append_of_le_length
            (hcounted.behind conn self hconn)]

theorem Counted.onwards (hdelivering : Delivering dialogue)
    (hcounted : Counted dialogue) (honwards : Onwards dialogue next)
    (hreceived : next.received = dialogue.received) : Counted next where
  unread conn hnone := by
    rw [hreceived]
    by_contra hread
    have hpeer : dialogue.peers conn ≠ none :=
      fun hold => hread (hcounted.unread conn hold)
    exact hpeer (honwards.peers conn hpeer ▸ hnone)
  behind conn self' hself' := by
    rw [hreceived]
    cases hconn : dialogue.server.conns conn with
    | none =>
        rw [hcounted.unread conn (hdelivering.future conn hconn).2]
        exact Nat.zero_le _
    | some self =>
        obtain ⟨_, hsame, hextends, -⟩ :=
          honwards.server.kept conn self hconn
        obtain rfl := Option.some.inj (hsame.symm.trans hself')
        exact (hcounted.behind conn self hconn).trans hextends.length_le

theorem Counted.receive {conn : ConnId} {self : Conn}
    (hcounted : Counted dialogue) (hserver : next.server = dialogue.server)
    (hpeers : next.peers = dialogue.peers)
    (hreceived : next.received = Function.update dialogue.received conn
      (dialogue.received conn + 1))
    (hpeer : dialogue.peers conn ≠ none)
    (hconn : dialogue.server.conns conn = some self)
    (hless : dialogue.received conn < self.stream.written.length) :
    Counted next where
  unread other hnone := by
    rw [hpeers] at hnone
    rw [hreceived, Function.update_of_ne]
    · exact hcounted.unread other hnone
    · rintro rfl
      exact hpeer hnone
  behind other self' hself' := by
    rw [hserver] at hself'
    rw [hreceived, Function.update_apply]
    split
    case isTrue hother =>
      rw [hother, hconn] at hself'
      exact Option.some.inj hself' ▸ hless
    · exact hcounted.behind other self' hself'

theorem noticesOf_receive {conn : ConnId} {reply : Reply} {self : Conn}
    (hserver : next.server = dialogue.server)
    (hpeers : next.peers = dialogue.peers)
    (hreceived : next.received conn = dialogue.received conn + 1)
    (hpeer : dialogue.peers conn ≠ none)
    (hconn : dialogue.server.conns conn = some self)
    (hreply : self.stream.written[dialogue.received conn]? = some reply) :
    next.noticesOf conn =
      dialogue.noticesOf conn ++ (ReplyItem.reply reply).notice.toList := by
  obtain ⟨peer, hsome⟩ := Option.ne_none_iff_exists'.mp hpeer
  rw [noticesOf, noticesOf, hserver, hpeers, hreceived, hsome, hconn]
  dsimp only
  rw [List.take_add_one, hreply, List.filter_append, ReplyItem.notice]
  by_cases hmsgid : reply.msgid = 0
  · rw [if_pos hmsgid]
    exact congrArg _ (List.filter_cons_of_pos (decide_eq_true hmsgid))
  · rw [if_neg hmsgid]
    refine congrArg _ (List.filter_cons_of_neg ?_)
    rw [decide_eq_true_eq]
    exact hmsgid

theorem received_clientStep {action : RPCStream.Action}
    (hstep : dialogue.clientStep action = some next) :
    next.received = dialogue.received := by
  obtain ⟨client, -, rfl⟩ := Option.map_eq_some_iff.mp hstep
  rfl

theorem noticesFrom_append (conn : ConnId)
    (notices more : List (ConnId × Reply)) :
    noticesFrom conn (notices ++ more) =
      noticesFrom conn notices ++ noticesFrom conn more := by
  rw [noticesFrom, List.filter_append, List.map_append]
  rfl

theorem noticesFrom_self (conn : ConnId) (replies : List Reply) :
    noticesFrom conn (replies.map (Prod.mk conn)) = replies := by
  have hall : ∀ notice ∈ replies.map (Prod.mk conn),
      decide (notice.1 = conn) = true := by
    intro notice hmem
    obtain ⟨reply, -, rfl⟩ := List.mem_map.mp hmem
    exact decide_eq_true rfl
  rw [noticesFrom, List.filter_eq_self.mpr hall, List.map_map]
  exact List.map_id _

theorem noticesFrom_of_ne {conn other : ConnId} (hother : other ≠ conn)
    (replies : List Reply) :
    noticesFrom other (replies.map (Prod.mk conn)) = [] := by
  have hnone : ∀ notice ∈ replies.map (Prod.mk conn),
      ¬decide (notice.1 = other) = true := by
    intro notice hmem
    obtain ⟨reply, -, rfl⟩ := List.mem_map.mp hmem
    rw [decide_eq_true_eq]
    exact hother.symm
  rw [noticesFrom, List.filter_eq_nil_iff.mpr hnone, List.map_nil]

/-- A read of the client that completes has filled the Reply. -/
theorem fills_of_read {index : ℕ} {reply : Reply}
    (hread : (dialogue.client.operations.pending[index]?).any
      Operation.isRead = true)
    (hmatched : dialogue.client.Matched (.ioEvent index true reply)) :
    dialogue.client.Fills index := by
  rcases hmatched with ⟨hstart, -⟩ | hfills | hwrite
  · rw [Tracked.StartsNewest] at hstart
    rw [hstart] at hread
    contradiction
  · exact hfills
  · rw [hwrite] at hread
    contradiction

theorem step_receive_reads {index : ℕ} {conn : ConnId} {reply : Reply}
    {self : Conn} (hconn : dialogue.server.conns conn = some self)
    (hstep : dialogue.step codec (.receive index conn reply) = some next) :
    (dialogue.client.operations.pending[index]?).any
        Operation.isRead = true ∧
      dialogue.received conn < self.stream.written.length := by
  rw [step, hconn] at hstep
  dsimp only at hstep
  split at hstep
  case isTrue hread => exact ⟨hread.1, hread.2.2.2.1⟩
  · contradiction

/-- What one step of the dialogue does: the client drops some of the
notifications it had, or gets the next one of a `Conn`. -/
theorem Delivering.noticed {action : Action}
    (hdelivering : Delivering dialogue)
    (htracks : Tracked.Tracks dialogue.client) (hcounted : Counted dialogue)
    (hstep : dialogue.step codec action = some next)
    (hmatched : dialogue.Matched action) :
    Counted next ∧
      (RPCStream.Without (dialogue.dropped action)
          dialogue.client.stream.notices next.client.stream.notices ∧
        (∀ conn, next.noticesOf conn = dialogue.noticesOf conn) ∨
      ∃ conn reply, dialogue.dropped action = [] ∧
        next.client.stream.notices = dialogue.client.stream.notices ++
          (ReplyItem.reply reply).notice.toList ∧
        next.noticesOf conn = dialogue.noticesOf conn ++
          (ReplyItem.reply reply).notice.toList ∧
        ∀ other, other ≠ conn →
          next.noticesOf other = dialogue.noticesOf other) := by
  have honwards := hdelivering.onwards hstep
  have hsame (hreceived : next.received = dialogue.received) (conn : ConnId) :
      next.noticesOf conn = dialogue.noticesOf conn :=
    noticesOf_of_onwards hdelivering hcounted honwards
      (congrFun hreceived conn)
  cases action with
  | client action =>
      obtain ⟨hreceives, hclient⟩ := step_client hstep
      have hreceived := received_clientStep hclient
      refine ⟨hcounted.onwards hdelivering honwards hreceived, ?_⟩
      rcases Tracked.notices_step htracks hmatched (clientStep_eq hclient).1
        with ⟨-, hwithout⟩ | ⟨index, reply, rfl, ⟨hread, hbuffer⟩, -⟩
      · exact Or.inl ⟨hwithout, hsame hreceived⟩
      · obtain ⟨buffer, hsome⟩ := Option.ne_none_iff_exists'.mp hbuffer
        rw [hsome, Option.map_some] at hread
        exact absurd (by rw [Receives, ← hread]; rfl) hreceives
  | receive index conn reply =>
      obtain ⟨self, middle, hconn, hpeer, hfilled, hmiddle, hnext⟩ :=
        step_receive hstep
      obtain ⟨hread, hless⟩ := step_receive_reads hconn hstep
      obtain ⟨htracked, hserver, hpeers, -⟩ := clientStep_eq hmiddle
      have hmatched : dialogue.client.Matched (.ioEvent index true reply) :=
        hmatched
      have hfills := fills_of_read hread hmatched
      have hreceived : next.received = Function.update dialogue.received conn
          (dialogue.received conn + 1) := by rw [hnext]
      replace hserver : next.server = dialogue.server := by rw [hnext, hserver]
      replace hpeers : next.peers = dialogue.peers := by rw [hnext, hpeers]
      rw [show middle.client = next.client by rw [hnext]] at htracked
      refine ⟨hcounted.receive hserver hpeers hreceived hpeer hconn hless,
        Or.inr ⟨conn, reply, rfl, ?_, ?_, fun other hother => ?_⟩⟩
      · rcases Tracked.notices_step htracks hmatched htracked with
          ⟨hnone, -⟩ | ⟨index', reply', heq, -, hnotices⟩
        · exact absurd hfills (hnone index reply rfl)
        · obtain ⟨rfl, -, rfl⟩ := RPCStream.Action.ioEvent.inj heq
          exact hnotices
      · exact noticesOf_receive hserver hpeers
          (by rw [hreceived, Function.update_self]) hpeer hconn
          (hfilled hfills)
      · exact noticesOf_of_onwards hdelivering hcounted honwards
          (by rw [hreceived, Function.update_of_ne hother])
  | server action =>
      obtain ⟨-, server, -, rfl⟩ := step_server hstep
      exact ⟨hcounted.onwards hdelivering honwards rfl,
        Or.inl ⟨RPCStream.without_of_eq rfl, hsame rfl⟩⟩
  | accept conn peer =>
      obtain ⟨self, server, -, -, -, -, rfl⟩ := step_accept hstep
      exact ⟨hcounted.onwards hdelivering honwards rfl,
        Or.inl ⟨RPCStream.without_of_eq rfl, hsame rfl⟩⟩
  | read conn acceptor results =>
      obtain ⟨peer, sent, server, -, -, -, rfl⟩ := step_read hstep
      exact ⟨hcounted.onwards hdelivering honwards rfl,
        Or.inl ⟨RPCStream.without_of_eq rfl, hsame rfl⟩⟩

theorem tracks_step {action : Action} (htracks : Tracked.Tracks dialogue.client)
    (hstep : dialogue.step codec action = some next) :
    Tracked.Tracks next.client := by
  cases action with
  | client action =>
      exact htracks.step (clientStep_eq (step_client hstep).2).1
  | receive index conn reply =>
      obtain ⟨_, middle, -, -, -, hmiddle, rfl⟩ := step_receive hstep
      exact htracks.step (clientStep_eq hmiddle).1
  | server action =>
      obtain ⟨-, server, -, rfl⟩ := step_server hstep
      exact htracks
  | accept conn peer =>
      obtain ⟨self, server, -, -, -, -, rfl⟩ := step_accept hstep
      exact htracks
  | read conn acceptor results =>
      obtain ⟨peer, sent, server, -, -, -, rfl⟩ := step_read hstep
      exact htracks

end Sources

/-! ## The runs -/

/-- Every notification that the client has read is in its queue, passed on or
among those dropped. -/
structure Noticed (lost : List Reply) (dialogue : Dialogue) : Prop where
  delivering : Delivering dialogue
  tracks : Tracked.Tracks dialogue.client
  counted : Counted dialogue
  traced : ∃ notices : List (ConnId × Reply),
    (∀ conn, noticesFrom conn notices = dialogue.noticesOf conn) ∧
    dialogue.client.stream.notices.Sublist (notices.map Prod.snd) ∧
    (dialogue.client.stream.notices ++ lost).Perm (notices.map Prod.snd)

theorem noticed_init : Noticed [] init where
  delivering := delivering_init
  tracks := Tracked.tracks_new
  counted := ⟨fun _ _ => rfl, fun _ _ _ => Nat.zero_le _⟩
  traced := ⟨[], fun _ => rfl, List.Sublist.refl _, List.Perm.refl _⟩

section Noticed

variable {codec : Codec} {lost : List Reply} {dialogue next : Dialogue}

theorem Noticed.step {action : Action} (hnoticed : Noticed lost dialogue)
    (hstep : dialogue.step codec action = some next)
    (hmatched : dialogue.Matched action) :
    Noticed (lost ++ dialogue.dropped action) next := by
  obtain ⟨hcounted, hcases⟩ := hnoticed.delivering.noticed hnoticed.tracks
    hnoticed.counted hstep hmatched
  refine ⟨hnoticed.delivering.step hstep, tracks_step hnoticed.tracks hstep,
    hcounted, ?_⟩
  obtain ⟨notices, hfrom, hsublist, hperm⟩ := hnoticed.traced
  rcases hcases with ⟨hwithout, hsame⟩ |
    ⟨conn, reply, hnone, hadded, hread, hother⟩
  · refine ⟨notices, fun conn => (hfrom conn).trans (hsame conn).symm,
      hwithout.sublist.trans hsublist, ?_⟩
    calc List.Perm
          (next.client.stream.notices ++ (lost ++ dialogue.dropped action))
          (next.client.stream.notices ++ (dialogue.dropped action ++ lost)) :=
        List.perm_append_comm.append_left _
      List.Perm _ (dialogue.client.stream.notices ++ lost) := by
        rw [← List.append_assoc]
        exact hwithout.perm.append_right _
      List.Perm _ (notices.map Prod.snd) := hperm
  · have hmap : (notices ++ (ReplyItem.reply reply).notice.toList.map
        (Prod.mk conn)).map Prod.snd =
          notices.map Prod.snd ++ (ReplyItem.reply reply).notice.toList := by
      rw [List.map_append, List.map_map]
      exact congrArg _ (List.map_id _)
    refine ⟨notices ++ (ReplyItem.reply reply).notice.toList.map
      (Prod.mk conn), fun other => ?_, ?_, ?_⟩
    · rw [noticesFrom_append, hfrom]
      by_cases hconn : other = conn
      · rw [hconn, noticesFrom_self, hread]
      · rw [noticesFrom_of_ne hconn, List.append_nil, hother other hconn]
    · rw [hmap, hadded]
      exact hsublist.append_right _
    · rw [hmap, hadded, hnone, List.append_nil, List.append_assoc]
      refine (List.perm_append_comm.append_left _).trans ?_
      rw [← List.append_assoc]
      exact hperm.append_right _

theorem noticed_exec {actions : List Action} {final : Dialogue}
    (hnoticed : Noticed lost dialogue)
    (hrun : exec (step codec) dialogue actions = some final)
    (hmatched : AllSteps (step codec)
      (fun dialogue action _ => dialogue.Matched action) dialogue actions) :
    Noticed (lost ++ observed (step codec) dropped dialogue actions) final := by
  induction actions generalizing lost dialogue with
  | nil =>
      obtain rfl : dialogue = final := Option.some.inj hrun
      rw [observed, List.append_nil]
      exact hnoticed
  | cons action rest ih =>
      obtain ⟨middle, hstep, hrest⟩ := exec_cons_eq_some.mp hrun
      rw [allSteps_cons_of_step hstep] at hmatched
      rw [observed_cons_of_step hstep, ← List.append_assoc]
      exact ih (hnoticed.step hstep hmatched.1) hrest hmatched.2

end Noticed

/-- The notifications that the client has read of its `Conn`s are those that
the callback of `RegisterNotifyCB` was called with, those in `replys_` and those
that were dropped, each as often as it was written; those of one `Conn` came in
the order of its writes. -/
theorem notified_in_order (codec : Codec) (actions : List Action)
    (dialogue : Dialogue)
    (hrun : exec (step codec) init actions = some dialogue)
    (hmatched : AllSteps (step codec)
      (fun dialogue action _ => dialogue.Matched action) init actions) :
    ∃ notices passed : List (ConnId × Reply),
      (∀ conn, noticesFrom conn notices = dialogue.noticesOf conn) ∧
      passed.Sublist notices ∧
      passed.map Prod.snd = dialogue.client.stream.notified.reverse ∧
      (dialogue.client.stream.notices ++
        observed (step codec) dropped init actions).Perm
          (notices.map Prod.snd) := by
  obtain ⟨notices, hfrom, hsublist, hperm⟩ :=
    (noticed_exec noticed_init hrun hmatched).traced
  have hpassed : dialogue.client.stream.notified.reverse.Sublist
      (notices.map Prod.snd) :=
    (List.sublist_append_left _ _).trans hsublist
  obtain ⟨passed, hkept, hmap⟩ := List.sublist_map_iff.mp hpassed
  exact ⟨notices, passed, hfrom, hkept, hmap.symm, hperm⟩

def notification (type : ℕ) : Reply where
  type := type
  msgid := 0
  error := none
  payload := []

/-- The server notifies the client, which reads it. -/
def notify (type : ℕ) : List Action :=
  [.server (.writeDone 0 true), .server (.send 0 (notification type)),
    .receive 1 0 (notification type)]

/-- The second notification comes between the two halves of `Release`. -/
def notifying : List Action :=
  exchange ++ notify 7 ++ updates 6 ++ [.client .release] ++ notify 8 ++
    updates 6

theorem notified_in_order_notifying :
    ∃ dialogue, exec (step Codec.small) init notifying = some dialogue ∧
      ∃ notices passed : List (ConnId × Reply),
        (∀ conn, noticesFrom conn notices = dialogue.noticesOf conn) ∧
        passed.Sublist notices ∧
        passed.map Prod.snd = [notification 7] ∧
        ([notification 7] ++ [notification 8]).Perm
          (notices.map Prod.snd) := by
  obtain ⟨dialogue, hrun⟩ := Option.isSome_iff_exists.mp
    (by decide +kernel :
      (exec (step Codec.small) init notifying).isSome = true)
  obtain ⟨notices, passed, hfrom, hkept, hpassed, hperm⟩ :=
    notified_in_order Codec.small notifying dialogue hrun (by decide +kernel)
  have hfinal : (exec (step Codec.small) init notifying).map
      (fun dialogue => (dialogue.client.stream.notified.reverse,
        dialogue.client.stream.notices)) =
          some ([notification 7], [notification 7]) := by decide +kernel
  have hdropped : observed (step Codec.small) dropped init notifying =
      [notification 8] := by decide +kernel
  rw [hrun] at hfinal
  obtain ⟨hnotified, hnotices⟩ := Prod.mk.inj (Option.some.inj hfinal)
  rw [hnotices, hdropped] at hperm
  exact ⟨dialogue, hrun, notices, passed, hfrom, hkept,
    hpassed.trans hnotified, hperm⟩

end Dialogue

end GrpcMtk
