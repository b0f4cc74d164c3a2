import Mqtr.Broker.Routing
import Mqtr.Core.Relay

/-! The shards of a node and the message queues between them. A shard's thread takes its back log, sends
it to the queues of the other shards and of itself, and puts back what a queue has no room for. Other
threads may run between any two of these sends, so that the queues change on the way. -/
namespace Mqtr
open Outcome Std

/-- `flushing` is what `flush_to_shards` has taken out of the back log of a shard, and `inbox` what
`try_recvs` has taken from the queue of a shard, both in the middle of the call. Queues carry the sender
of each message beside it; `received` and `appended` are records of what happened. `msg_channel` gives the
queue and the batches of a shard the same size; nothing depends on that. -/
structure Network where
  capacity : UInt32 → ℕ
  msgBatchSize : UInt32 → ℕ
  shards : UInt32 → Shard
  flushing : UInt32 → List (UInt32 × List Message)
  queue : UInt32 → List (UInt32 × Message)
  inbox : UInt32 → List (UInt32 × Message)
  received : UInt32 → List (UInt32 × Message)
  appended : UInt32 → List (UInt32 × Message)

inductive NetworkEvent where
  | routeToClient (a : UInt32) (sess : Session) (subscrs : List Subscription) (publ : Publish)
  | ackMessages (a : UInt32)
  /-- The start of `flush_to_shards`. -/
  | flushToShards (a : UInt32)
  /-- One turn of the loops of `flush_to_shards` and `try_sends`. -/
  | trySend (a : UInt32)
  /-- One turn of the loop of `try_recvs`. -/
  | tryRecv (b : UInt32)
  /-- What `in_messages` books of the messages that it got from `try_recvs`. -/
  | inMessages (b : UInt32)
  | removeUnacks (a : UInt32)
  | removeSession (a : UInt32) (clientId : ClientID)

/-- The message that `route_to_client` puts into the back log. -/
def Shard.routedMessage (self : Shard) (sess : Session) (subscrs : List Subscription)
    (publ : Publish) : Message :=
  .packet sess.clientId self.shardId self.cinp.seqno 0 subscrs (.publish publ)

def Shard.acks (self : Shard) : List (UInt32 × Message) :=
  self.ackTimestamp.toList.map fun entry => (entry.1, .localAck entry.1 entry.2)

namespace Shard

/-- What routing a message does to a shard. -/
theorem routeToClient_cases {s s' : Shard} {sess : Session} {subscr : Subscription}
    {subscrs : List Subscription} {publ : Publish}
    (h : s.routeToClient sess (subscr :: subscrs) publ = .ok s') :
    ∃ serverQos unacks timestamp, s.config.serverQos = .ok serverQos ∧
      s' = { s with
        shardBackLog := Multimap.push s.shardBackLog subscr.shardId
          (s.routedMessage sess (subscr :: subscrs) publ)
        cinp := ⟨saturatingSucc s.cinp.seqno, unacks, timestamp⟩ } ∧
      (serverQos.min publ.qos = .atMostOnce ∧ unacks = s.cinp.unacks ∧
          timestamp = s.cinp.timestamp ∨
        serverQos.min publ.qos = .atLeastOnce ∧
          unacks = s.cinp.unacks.insert s.cinp.seqno
            (s.routedMessage sess (subscr :: subscrs) publ) ∧
          timestamp = s.cinp.timestamp.insert subscr.shardId
            (s.cinp.seqno, (s.cinp.timestamp[subscr.shardId]?.map Prod.snd).getD 0)) := by
  obtain ⟨serverQos, hserver, h⟩ := bind_eq_ok.mp h
  obtain ⟨t, ht, h⟩ := bind_eq_ok.mp h
  cases h
  unfold bookUnacked at ht
  cases hq : serverQos.min publ.qos with
  | atMostOnce =>
    rw [hq] at ht
    cases ht
    exact ⟨serverQos, _, _, hserver, rfl, .inl ⟨hq, rfl, rfl⟩⟩
  | atLeastOnce =>
    rw [hq] at ht
    cases ht
    exact ⟨serverQos, _, _, hserver, rfl, .inr ⟨hq, rfl, rfl⟩⟩
  | exactlyOnce =>
    rw [hq] at ht
    cases ht

/-- What taking a message books: an acknowledgement for a shard to which something was routed, or the
number of a packet. -/
theorem partitionMessage_cases {s s' : Shard} {groups groups' : ExtTreeMap ClientID (List Message)}
    {msg : Message} (h : partitionMessage (s, groups) msg = .ok (s', groups')) :
    (∃ shardId last routed received, msg = .localAck shardId last ∧
      s.cinp.timestamp[shardId]? = some (routed, received) ∧
      s' = { s with cinp := { s.cinp with
        timestamp := s.cinp.timestamp.insert shardId (routed, last) } }) ∨
    (∃ clientId shardId seqno packetId subscrs pkt,
      msg = .packet clientId shardId seqno packetId subscrs pkt ∧
      s' = { s with ackTimestamp := s.ackTimestamp.insert shardId seqno }) := by
  cases msg with
  | localAck shardId last =>
    obtain ⟨t, ht, h⟩ := bind_eq_ok.mp h
    cases h
    obtain ⟨routed, received, htime, rfl⟩ := bookLocalAck_cases ht
    exact .inl ⟨shardId, last, routed, received, rfl, htime, rfl⟩
  | packet clientId shardId seqno packetId subscrs pkt =>
    cases h
    exact .inr ⟨clientId, shardId, seqno, packetId, subscrs, pkt, rfl, rfl⟩
  | clientAck pkt => cases h

/-- What the book-keeping of a batch leaves alone: the routed messages and their numbers; and no entry
goes away. -/
structure Keeps (s s' : Shard) : Prop where
  shardBackLog : s'.shardBackLog = s.shardBackLog
  seqno : s'.cinp.seqno = s.cinp.seqno
  unacks : s'.cinp.unacks = s.cinp.unacks
  timestamp : ∀ b ∈ s.cinp.timestamp, b ∈ s'.cinp.timestamp

theorem partitionMessage_keeps {s s' : Shard} {groups groups' : ExtTreeMap ClientID (List Message)}
    {msg : Message} (h : partitionMessage (s, groups) msg = .ok (s', groups')) : s.Keeps s' := by
  obtain ⟨_, _, _, _, -, -, rfl⟩ | ⟨_, _, _, _, _, _, -, rfl⟩ := partitionMessage_cases h
  · exact ⟨rfl, rfl, rfl, fun b hb => OrdMap.mem_insert.mpr (.inr hb)⟩
  · exact ⟨rfl, rfl, rfl, fun b hb => hb⟩

theorem partition_keeps {s s' : Shard} {groups groups' : ExtTreeMap ClientID (List Message)}
    {msgs : List Message} (h : msgs.foldlM partitionMessage (s, groups) = .ok (s', groups')) :
    s.Keeps s' := by
  refine foldlM_invariant (P := fun state => s.Keeps state.1) ?_ ⟨rfl, rfl, rfl, fun b hb => hb⟩ h
  rintro ⟨t, g⟩ msg - ⟨t', g'⟩ ht hmsg
  have hkeeps := partitionMessage_keeps hmsg
  exact ⟨hkeeps.shardBackLog.trans ht.shardBackLog, hkeeps.seqno.trans ht.seqno,
    hkeeps.unacks.trans ht.unacks, fun b hb => hkeeps.timestamp b (ht.timestamp b hb)⟩

/-- Entries go away for a reason, and none comes. -/
structure Shrinks (unacks unacks' : ExtTreeMap UInt64 Message) (reason : UInt64 → Message → Prop) :
    Prop where
  sub : ∀ (k : UInt64) (msg : Message), unacks'[k]? = some msg → unacks[k]? = some msg
  gone : ∀ (k : UInt64) (msg : Message), unacks[k]? = some msg → unacks'[k]? ≠ some msg → reason k msg

theorem Shrinks.foldl_erase {unacks : ExtTreeMap UInt64 Message} {entries : List (UInt64 × Message)}
    {reason : UInt64 → Message → Prop}
    (h : ∀ e ∈ entries, unacks[e.1]? = some e.2 ∧ reason e.1 e.2) :
    Shrinks unacks (entries.foldl (fun unacks e => unacks.erase e.1) unacks) reason where
  sub k msg hk := by
    rw [OrdMap.getElem?_foldl_erase] at hk
    split_ifs at hk
    exact hk
  gone k msg hk hgone := by
    rw [OrdMap.getElem?_foldl_erase] at hgone
    split_ifs at hgone with hmem
    · obtain ⟨e, he, rfl⟩ := List.mem_map.mp hmem
      obtain ⟨hentry, hreason⟩ := h e he
      obtain rfl := Option.some.inj (hentry.symm.trans hk)
      exact hreason
    · exact absurd hk hgone

theorem removeUnacks_cases (s : Shard) :
    ∃ unacks, s.removeUnacks.2 = { s with cinp := { s.cinp with unacks := unacks } } ∧
      Shrinks s.cinp.unacks unacks fun k _ => k < s.lastReceivedAck := by
  unfold removeUnacks
  dsimp only
  split_ifs
  · exact ⟨_, rfl, fun _ _ hk => hk, fun _ _ hk hgone => absurd hk hgone⟩
  · refine ⟨_, rfl, .foldl_erase fun e he => ?_⟩
    obtain ⟨hentry, hlast⟩ := List.mem_filter.mp he
    exact ⟨ExtTreeMap.mem_toList_iff_getElem?_eq_some.mp hentry, of_decide_eq_true hlast⟩

theorem removeSession_cases {s s' : Shard} {clientId : ClientID}
    (h : s.removeSession clientId = .ok s') :
    ∃ unacks, s' = { s with cinp := { s.cinp with unacks := unacks } } ∧
      Shrinks s.cinp.unacks unacks fun _ msg => msg.asClientId = .ok clientId := by
  obtain ⟨cinp, hcinp, h⟩ := bind_eq_ok.mp h
  obtain ⟨removed, hremoved, hcinp⟩ := bind_eq_ok.mp hcinp
  cases h
  cases hcinp
  refine ⟨_, rfl, .foldl_erase fun e he => ?_⟩
  obtain ⟨hentry, hasked⟩ := mem_filterM hremoved he
  obtain ⟨id, hid, hsame⟩ := bind_eq_ok.mp hasked
  have hclient : id = clientId := by simpa using hsame
  exact ⟨ExtTreeMap.mem_toList_iff_getElem?_eq_some.mp hentry, hclient ▸ hid⟩

/-- The same but for the sessions, the connections and the trie of filters. -/
structure SameBooks (s t : Shard) : Prop where
  shardId : t.shardId = s.shardId
  config : t.config = s.config
  ackTimestamp : t.ackTimestamp = s.ackTimestamp
  shardBackLog : t.shardBackLog = s.shardBackLog
  cinp : t.cinp = s.cinp

theorem SameBooks.trans {s t r : Shard} (h : s.SameBooks t) (h' : t.SameBooks r) : s.SameBooks r :=
  ⟨h'.1.trans h.1, h'.2.trans h.2, h'.3.trans h.3, h'.4.trans h.4, h'.5.trans h.5⟩

theorem SameBooks.removeSession {s t t' : Shard} {clientId : ClientID} (h : s.SameBooks t)
    (ht : t.removeSession clientId = .ok t') :
    ∃ s', s.removeSession clientId = .ok s' ∧ s'.SameBooks t' := by
  obtain ⟨cinp, hcinp, ht⟩ := bind_eq_ok.mp ht
  cases ht
  rw [h.cinp] at hcinp
  exact ⟨_, bind_eq_ok.mpr ⟨cinp, hcinp, rfl⟩, h.shardId, h.config, h.ackTimestamp, h.shardBackLog, rfl⟩

theorem handToSession_sameBooks {d d' : Delivery} {entry : ClientID × List Message}
    (h : handToSession d entry = .ok d') : d.shard.SameBooks d'.shard := by
  unfold handToSession at h
  dsimp only at h
  split at h
  · obtain ⟨_, -, h⟩ := bind_eq_ok.mp h
    cases h
    exact ⟨rfl, rfl, rfl, rfl, rfl⟩
  · cases h
    exact ⟨rfl, rfl, rfl, rfl, rfl⟩

/-- Dropping a slow client removes a session at most. -/
theorem dropSlow_books {s s' : Shard} {clientId : ClientID} (h : s.dropSlow clientId = .ok s') :
    s.SameBooks s' ∨ ∃ c t, s.removeSession c = .ok t ∧ t.SameBooks s' := by
  unfold dropSlow dropConnection handleFlushConnection at h
  dsimp only at h
  split at h
  · split at h
    · obtain ⟨cinp, hcinp, h⟩ := bind_eq_ok.mp h
      obtain ⟨_, -, h⟩ := bind_eq_ok.mp h
      cases h
      exact .inr ⟨_, _, bind_eq_ok.mpr ⟨cinp, hcinp, rfl⟩, rfl, rfl, rfl, rfl, rfl⟩
    · cases h
      exact .inl ⟨rfl, rfl, rfl, rfl, rfl⟩
  · cases h
    exact .inl ⟨rfl, rfl, rfl, rfl, rfl⟩

end Shard

namespace Network

/-- The shards of a node as they are started. -/
def spawn (config : Config) (size : ℕ) : Network where
  capacity _ := size
  msgBatchSize _ := size
  shards := Shard.spawn config
  flushing _ := []
  queue _ := []
  inbox _ := []
  received _ := []
  appended _ := []

def setShard (self : Network) (a : UInt32) (shard : Shard) : Network :=
  { self with shards := Function.update self.shards a shard }

def append (self : Network) (a : UInt32) (msgs : List (UInt32 × Message)) : Network :=
  { self with appended := Function.update self.appended a (self.appended a ++ msgs) }

/-- Put back what is left for a target, and go on to the next one. -/
def reindex (self : Network) (a b : UInt32) (msgs : List Message)
    (rest : List (UInt32 × List Message)) : Network :=
  let shard := self.shards a
  { self.setShard a { shard with shardBackLog := shard.shardBackLog.insert b msgs } with
    flushing := Function.update self.flushing a rest }

/-- A thread that is in `flush_to_shards` does nothing else that touches its back log. `none` is also
what a panic of a shard amounts to. -/
def step (self : Network) : NetworkEvent → Option Network
  | .routeToClient a sess subscrs publ =>
    match self.flushing a, subscrs with
    | [], subscr :: _ => do
      let shard ← ((self.shards a).routeToClient sess subscrs publ).toOption
      let msg := (self.shards a).routedMessage sess subscrs publ
      some ((self.setShard a shard).append a [(subscr.shardId, msg)])
    | _, _ => none
  | .ackMessages a =>
    match self.flushing a with
    | [] => some ((self.setShard a (self.shards a).ackMessages).append a (self.shards a).acks)
    | _ => none
  | .flushToShards a =>
    match self.flushing a with
    | [] =>
      let shard := self.shards a
      some { self.setShard a { shard with shardBackLog := ∅ } with
        flushing := Function.update self.flushing a shard.shardBackLog.toList }
    | _ => none
  | .trySend a =>
    match self.flushing a with
    | [] => none
    | (b, []) :: rest => some (self.reindex a b [] rest)
    | (b, msg :: msgs) :: rest =>
      if (self.queue b).length < self.capacity b then
        some { self with
          flushing := Function.update self.flushing a ((b, msgs) :: rest)
          queue := Function.update self.queue b (self.queue b ++ [(a, msg)]) }
      else some (self.reindex a b (msg :: msgs) rest)
  | .tryRecv b =>
    match self.queue b with
    | [] => none
    | entry :: rest =>
      -- a batch ends with the first message beyond its size
      if (self.inbox b).length ≤ self.msgBatchSize b then
        some { self with
          queue := Function.update self.queue b rest
          inbox := Function.update self.inbox b (self.inbox b ++ [entry])
          received := Function.update self.received b (self.received b ++ [entry]) }
      else none
  | .inMessages b => do
    let (shard, _) ← (((self.inbox b).map Prod.snd).foldlM Shard.partitionMessage
      (self.shards b, ∅)).toOption
    some { self.setShard b shard with inbox := Function.update self.inbox b [] }
  | .removeUnacks a => some (self.setShard a (self.shards a).removeUnacks.2)
  | .removeSession a clientId => do
    let shard ← ((self.shards a).removeSession clientId).toOption
    some (self.setShard a shard)

/-- What a step can do. -/
inductive Takes (s : Network) : NetworkEvent → Network → Prop
  | routed {a : UInt32} {sess : Session} {subscr : Subscription} {subscrs : List Subscription}
      {publ : Publish} {shard : Shard} (idle : s.flushing a = [])
      (routes : (s.shards a).routeToClient sess (subscr :: subscrs) publ = .ok shard) :
      Takes s (.routeToClient a sess (subscr :: subscrs) publ)
        ((s.setShard a shard).append a
          [(subscr.shardId, (s.shards a).routedMessage sess (subscr :: subscrs) publ)])
  | acked {a : UInt32} (idle : s.flushing a = []) :
      Takes s (.ackMessages a)
        ((s.setShard a (s.shards a).ackMessages).append a (s.shards a).acks)
  | flushed {a : UInt32} (idle : s.flushing a = []) :
      Takes s (.flushToShards a)
        { s.setShard a { s.shards a with shardBackLog := ∅ } with
          flushing := Function.update s.flushing a (s.shards a).shardBackLog.toList }
  | reindexed {a b : UInt32} {msgs : List Message} {rest : List (UInt32 × List Message)}
      (turn : s.flushing a = (b, msgs) :: rest)
      (refused : msgs = [] ∨ s.capacity b ≤ (s.queue b).length) :
      Takes s (.trySend a) (s.reindex a b msgs rest)
  | sent {a b : UInt32} {msg : Message} {msgs : List Message} {rest : List (UInt32 × List Message)}
      (turn : s.flushing a = (b, msg :: msgs) :: rest)
      (room : (s.queue b).length < s.capacity b) :
      Takes s (.trySend a)
        { s with
          flushing := Function.update s.flushing a ((b, msgs) :: rest)
          queue := Function.update s.queue b (s.queue b ++ [(a, msg)]) }
  | received {b : UInt32} {entry : UInt32 × Message} {rest : List (UInt32 × Message)}
      (front : s.queue b = entry :: rest) (within : (s.inbox b).length ≤ s.msgBatchSize b) :
      Takes s (.tryRecv b)
        { s with
          queue := Function.update s.queue b rest
          inbox := Function.update s.inbox b (s.inbox b ++ [entry])
          received := Function.update s.received b (s.received b ++ [entry]) }
  | booked {b : UInt32} {shard : Shard} {sessionMsgs : ExtTreeMap ClientID (List Message)}
      (books : ((s.inbox b).map Prod.snd).foldlM Shard.partitionMessage (s.shards b, ∅) =
        .ok (shard, sessionMsgs)) :
      Takes s (.inMessages b) { s.setShard b shard with inbox := Function.update s.inbox b [] }
  | cleared (a : UInt32) : Takes s (.removeUnacks a) (s.setShard a (s.shards a).removeUnacks.2)
  | removed {a : UInt32} {clientId : ClientID} {shard : Shard}
      (removes : (s.shards a).removeSession clientId = .ok shard) :
      Takes s (.removeSession a clientId) (s.setShard a shard)

theorem step_takes {s s' : Network} {event : NetworkEvent} (h : s.step event = some s') :
    s.Takes event s' := by
  cases event with
  | routeToClient a sess subscrs publ =>
    simp only [step] at h
    split at h
    case h_1 subscr subscrs hidle =>
      obtain ⟨shard, hshard, h⟩ := Option.bind_eq_some_iff.mp h
      cases h
      exact .routed hidle (toOption_eq_some.mp hshard)
    case h_2 => cases h
  | ackMessages a =>
    simp only [step] at h
    split at h
    case h_1 hidle =>
      cases h
      exact .acked hidle
    case h_2 => cases h
  | flushToShards a =>
    simp only [step] at h
    split at h
    case h_1 hidle =>
      cases h
      exact .flushed hidle
    case h_2 => cases h
  | trySend a =>
    simp only [step] at h
    split at h
    case h_1 => cases h
    case h_2 b rest hturn =>
      cases h
      exact .reindexed hturn (.inl rfl)
    case h_3 b msg msgs rest hturn =>
      split_ifs at h with hroom
      · cases h
        exact .sent hturn hroom
      · cases h
        exact .reindexed hturn (.inr (Nat.le_of_not_lt hroom))
  | tryRecv b =>
    simp only [step] at h
    split at h
    case h_1 => cases h
    case h_2 entry rest hfront =>
      split_ifs at h with hwithin
      cases h
      exact .received hfront hwithin
  | inMessages b =>
    obtain ⟨⟨shard, sessionMsgs⟩, hbooks, h⟩ := Option.bind_eq_some_iff.mp h
    cases h
    exact .booked (toOption_eq_some.mp hbooks)
  | removeUnacks a =>
    cases h
    exact .cleared a
  | removeSession a clientId =>
    obtain ⟨shard, hremoves, h⟩ := Option.bind_eq_some_iff.mp h
    cases h
    exact .removed (toOption_eq_some.mp hremoves)

theorem dropSlow_run {s : Network} {b : UInt32} {shard shard' : Shard} {clients : List ClientID}
    (hsame : (s.shards b).SameBooks shard)
    (h : clients.foldlM Shard.dropSlow shard = .ok shard') :
    ∃ (removed : List ClientID) (s' : Network),
      Transition.run step s (removed.map (.removeSession b)) = some s' ∧
      (s'.shards b).SameBooks shard' := by
  induction clients generalizing s shard with
  | nil =>
    cases h
    exact ⟨[], s, rfl, hsame⟩
  | cons c clients ih =>
    rw [List.foldlM_cons] at h
    obtain ⟨t, ht, h⟩ := bind_eq_ok.mp h
    rcases Shard.dropSlow_books ht with hkept | ⟨c', r, hr, hrt⟩
    · exact ih (hsame.trans hkept) h
    · obtain ⟨r', hr', hrr⟩ := hsame.removeSession hr
      have hstep : s.step (.removeSession b c') = some (s.setShard b r') := by
        simp [step, hr', toOption]
      have hshard : ((s.setShard b r').shards b).SameBooks t := by
        simpa [setShard] using hrr.trans hrt
      obtain ⟨removed, s', hrun, hs'⟩ := ih hshard h
      exact ⟨c' :: removed, s', Transition.run_cons.mpr ⟨_, hstep, hrun⟩, hs'⟩

/-- The whole of `in_messages` is, for the books, the event of that name and the removal of the sessions
of slow clients. -/
theorem inMessages_run {s : Network} {b : UInt32} {d : Shard.Delivery}
    (h : (s.shards b).inMessages ((s.inbox b).map Prod.snd) = .ok d) :
    ∃ (removed : List ClientID) (s' : Network),
      Transition.run step s (.inMessages b :: removed.map (.removeSession b)) = some s' ∧
      (s'.shards b).SameBooks d.shard := by
  obtain ⟨⟨shard, sessionMsgs⟩, hbooks, h⟩ := bind_eq_ok.mp h
  obtain ⟨delivery, hhanded, h⟩ := bind_eq_ok.mp h
  obtain ⟨shard', hdropped, h⟩ := bind_eq_ok.mp h
  cases h
  have hsame : shard.SameBooks delivery.shard := by
    refine foldlM_invariant (P := fun d => shard.SameBooks d.shard) ?_ ⟨rfl, rfl, rfl, rfl, rfl⟩ hhanded
    intro d entry _ d' hd hentry
    exact hd.trans (Shard.handToSession_sameBooks hentry)
  have hstep : s.step (.inMessages b) =
      some { s.setShard b shard with inbox := Function.update s.inbox b [] } := by
    simp [step, hbooks, toOption]
  have hshard : (({ s.setShard b shard with
      inbox := Function.update s.inbox b [] } : Network).shards b).SameBooks delivery.shard := by
    simpa [setShard] using hsame
  obtain ⟨removed, s', hrun, hs'⟩ := dropSlow_run hshard hdropped
  exact ⟨removed, s', Transition.run_cons.mpr ⟨_, hstep, hrun⟩, hs'⟩

def relay (self : Network) : Relay.State UInt32 Message where
  backLog a := (self.shards a).shardBackLog
  flushing := self.flushing
  queue := self.queue
  received := self.received
  appended := self.appended

/-- What an event is for the relay: most of the book-keeping is nothing to it. -/
def relayEvents (self : Network) : NetworkEvent → List (Relay.Event UInt32 Message)
  | .routeToClient a sess subscrs publ =>
    match subscrs with
    | subscr :: _ => [.append a subscr.shardId ((self.shards a).routedMessage sess subscrs publ)]
    | [] => []
  | .ackMessages a => (self.shards a).acks.map fun e => .append a e.1 e.2
  | .flushToShards a => [.flush a]
  | .trySend a => [.send a]
  | .tryRecv b => [.recv b]
  | .inMessages _ | .removeUnacks _ | .removeSession _ _ => []

theorem backLog_update (shards : UInt32 → Shard) (a : UInt32) (shard : Shard) :
    (fun i => (Function.update shards a shard i).shardBackLog) =
      Function.update (fun i => (shards i).shardBackLog) a shard.shardBackLog :=
  Function.comp_update Shard.shardBackLog shards a shard

/-- Replacing a shard by one with the same back log is nothing to the relay. -/
theorem relay_setShard {s : Network} {a : UInt32} {shard : Shard}
    (h : shard.shardBackLog = (s.shards a).shardBackLog) : (s.setShard a shard).relay = s.relay := by
  simp only [relay, setShard, backLog_update, h]
  rw [Function.update_eq_self a fun i => (s.shards i).shardBackLog]

/-- A shard that puts messages into its back log appends them one after another. -/
theorem run_appended {s : Network} {a : UInt32} {shard : Shard}
    (msgs : List (UInt32 × Message)) (idle : s.flushing a = []) (h : shard.shardBackLog =
      msgs.foldl (fun t e => Multimap.push t e.1 e.2) (s.shards a).shardBackLog) :
    Transition.run (Relay.step s.capacity) s.relay (msgs.map fun e => .append a e.1 e.2) =
      some ((s.setShard a shard).append a msgs).relay := by
  rw [Relay.run_append_all idle]
  simp only [relay, setShard, append, backLog_update, h]

theorem step_refines {s s' : Network} {event : NetworkEvent} (h : s.Takes event s') :
    Transition.run (Relay.step s.capacity) s.relay (s.relayEvents event) = some s'.relay := by
  cases h with
  | routed idle routes =>
    obtain ⟨_, _, _, -, rfl, -⟩ := Shard.routeToClient_cases routes
    exact run_appended [(_, _)] idle rfl
  | acked idle =>
    exact run_appended _ idle (by simp [Shard.ackMessages, Shard.acks, List.foldl_map])
  | flushed idle =>
    simp [relayEvents, Transition.run, Relay.step, relay, setShard, backLog_update, idle]
  | @reindexed a b msgs rest turn refused =>
    rcases msgs with _ | ⟨msg, msgs⟩
    · simp [relayEvents, Transition.run, Relay.step, relay, reindex, setShard, backLog_update, turn]
    · have hfull : ¬ (s.queue b).length < s.capacity b := by simpa using refused
      simp [relayEvents, Transition.run, Relay.step, relay, reindex, setShard, backLog_update, turn,
        hfull]
  | sent turn room => simp [relayEvents, Transition.run, Relay.step, relay, turn, room]
  | received front within => simp [relayEvents, Transition.run, Relay.step, relay, front]
  | booked books =>
    exact congrArg some (relay_setShard (Shard.partition_keeps books).shardBackLog).symm
  | cleared a =>
    obtain ⟨_, heq, -⟩ := Shard.removeUnacks_cases (s.shards a)
    exact congrArg some (relay_setShard (by rw [heq])).symm
  | removed removes =>
    obtain ⟨_, heq, -⟩ := Shard.removeSession_cases removes
    exact congrArg some (relay_setShard (by rw [heq])).symm

/-- A network that has done nothing yet. -/
structure Start (s : Network) : Prop where
  backLog : ∀ a, (s.shards a).shardBackLog = ∅
  flushing : ∀ a, s.flushing a = []
  queue : ∀ b, s.queue b = []
  inbox : ∀ b, s.inbox b = []
  received : ∀ b, s.received b = []
  appended : ∀ a, s.appended a = []

theorem spawn_start (config : Config) (size : ℕ) : (spawn config size).Start where
  backLog _ := rfl
  flushing _ := rfl
  queue _ := rfl
  inbox _ := rfl
  received _ := rfl
  appended _ := rfl

theorem Start.relay_inv {s : Network} (h : s.Start) : Relay.Inv s.relay where
  keys a := by simp [relay, h.flushing]
  apart a e he := by simp [relay, h.flushing] at he
  line a b := by
    simp [relay, Relay.unsent, Relay.inFlush, h.backLog, h.flushing, h.queue, h.received, h.appended]

theorem step_relay_inv {s s' : Network} {event : NetworkEvent} (hinv : Relay.Inv s.relay)
    (h : s.step event = some s') : Relay.Inv s'.relay :=
  Transition.run_invariant (fun _ _ _ => Relay.step_inv) hinv (step_refines (step_takes h))

/-- What `b` has received from `a`, then what its queue has from `a`, then what `a` still has for it, is
what `a` appended for it. While `a` is in `flush_to_shards`, the rest of what it has taken out of its back
log comes before what it has put back. -/
theorem fifo_delivery {s₀ s : Network} {events : List NetworkEvent} (hstart : s₀.Start)
    (hrun : Transition.run step s₀ events = some s) (a b : UInt32) :
    Relay.ofKey a (s.received b) ++ Relay.ofKey a (s.queue b) ++
        ((Relay.ofKey b (s.flushing a)).flatten ++ (s.shards a).shardBackLog[b]?.getD []) =
      Relay.ofKey b (s.appended a) ∧
    (s.flushing a = [] →
      Relay.ofKey a (s.received b) ++ Relay.ofKey a (s.queue b) ++
        (s.shards a).shardBackLog[b]?.getD [] = Relay.ofKey b (s.appended a)) := by
  have hinv := Transition.run_invariant (fun _ _ _ => step_relay_inv) hstart.relay_inv hrun
  have hline := hinv.line a b
  refine ⟨hline, fun hidle => ?_⟩
  simpa [relay, Relay.unsent, Relay.inFlush, hidle] using hline

/-- `alice` publishes for `bob`, who is at the shard `b`. -/
def publishNews (a b : UInt32) (qos : QoS) : NetworkEvent :=
  .routeToClient a (Session.idle "alice")
    [⟨⟨"news"⟩, ⟨"bob"⟩, b, none, .atMostOnce, false, false, .onEverySubscribe⟩]
    ⟨false, qos, false, ⟨"news"⟩, none, none, none⟩

/-- The queue has room for the first of two messages only; the second one stays in the back log. -/
theorem fifo_delivery_refused :
    ∃ s, Transition.run step (spawn {} 1) [publishNews 1 2 .atMostOnce, publishNews 1 2 .atMostOnce,
        .flushToShards 1, .trySend 1, .trySend 1] = some s ∧
      (s.shards 1).shardBackLog[(2 : UInt32)]?.getD [] ≠ [] ∧
      Relay.ofKey 1 (s.received 2) ++ Relay.ofKey 1 (s.queue 2) ++
        (s.shards 1).shardBackLog[(2 : UInt32)]?.getD [] = Relay.ofKey 2 (s.appended 1) := by
  have hrefused : (Transition.run step (spawn {} 1) [publishNews 1 2 .atMostOnce,
      publishNews 1 2 .atMostOnce, .flushToShards 1, .trySend 1, .trySend 1]).any fun s =>
        decide (s.flushing 1 = []) && decide ((s.shards 1).shardBackLog[(2 : UInt32)]?.getD [] ≠ []) := by
    decide
  obtain ⟨s, hrun, hs⟩ := (Option.any_eq_true _ _).mp hrefused
  obtain ⟨hidle, hback⟩ := Bool.and_eq_true_iff.mp hs
  exact ⟨s, hrun, of_decide_eq_true hback,
    (fifo_delivery (spawn_start {} 1) hrun 1 2).2 (of_decide_eq_true hidle)⟩

end Network
end Mqtr
