import Mqtr.Broker.Shard

/-! Whose session gets a routed PUBLISH. The sending shard names the publisher in the message, and
the receiving shard files the message under the client it names. -/
namespace Mqtr
open Outcome Std

namespace Message

/-- The client that a packet message names. -/
def sender : Message → Option ClientID
  | .packet clientId _ _ _ _ _ => some clientId
  | .localAck _ _ | .clientAck _ => none

end Message

namespace Shard

theorem bookLocalAck_cases {s s' : Shard} {shardId : UInt32} {ack : UInt64}
    (h : s.bookLocalAck shardId ack = .ok s') :
    ∃ routed received, s.cinp.timestamp[shardId]? = some (routed, received) ∧
      s' = { s with cinp := { s.cinp with
        timestamp := s.cinp.timestamp.insert shardId (routed, ack) } } := by
  unfold bookLocalAck at h
  cases htime : s.cinp.timestamp[shardId]? with
  | none =>
    rw [htime] at h
    cases h
  | some entry =>
    rw [htime] at h
    cases h
    exact ⟨entry.1, entry.2, rfl, rfl⟩

variable {groups groups' : ExtTreeMap ClientID (List Message)} {s s' : Shard}

/-- One message leaves the sessions alone and is filed under its sender. -/
theorem partitionMessage_spec {m : Message}
    (h : partitionMessage (s, groups) m = .ok (s', groups')) :
    s'.sessions = s.sessions ∧
      ∀ c b, b ∈ groups'[c]?.getD [] ↔ b ∈ groups[c]?.getD [] ∨ b = m ∧ b.sender = some c := by
  cases m with
  | localAck shardId ack =>
    obtain ⟨s₁, hbook, hrest⟩ := bind_eq_ok.mp h
    cases hrest
    constructor
    · obtain ⟨_, _, -, rfl⟩ := bookLocalAck_cases hbook
      rfl
    · intro c b
      constructor
      · exact .inl
      · rintro (hb | ⟨rfl, hsender⟩)
        · exact hb
        · cases hsender
  | packet clientId shardId seqno packetId subscrs pkt =>
    cases h
    constructor
    · rfl
    · intro c b
      rw [Multimap.mem_getD_push]
      apply or_congr_right
      constructor
      · rintro ⟨rfl, rfl⟩
        exact ⟨rfl, rfl⟩
      · rintro ⟨rfl, hsender⟩
        exact ⟨Option.some.inj hsender, rfl⟩
  | clientAck pkt => cases h

/-- After a batch, a client's messages are those that name it. -/
theorem partition_spec {batch : List Message}
    (h : batch.foldlM partitionMessage (s, groups) = .ok (s', groups')) :
    s'.sessions = s.sessions ∧
      ∀ c b, b ∈ groups'[c]?.getD [] ↔
        b ∈ groups[c]?.getD [] ∨ b ∈ batch ∧ b.sender = some c := by
  induction batch generalizing s groups with
  | nil =>
    cases h
    simp
  | cons m batch ih =>
    obtain ⟨⟨s₁, groups₁⟩, hm, hbatch⟩ := bind_eq_ok.mp h
    obtain ⟨hsessions, hfiled⟩ := partitionMessage_spec hm
    obtain ⟨hsessions', hfiled'⟩ := ih hbatch
    constructor
    · exact hsessions'.trans hsessions
    · intro c b
      rw [hfiled', hfiled, List.mem_cons, or_and_right, or_assoc]

/-- A call to a session changes no client's having one. -/
theorem handToSession_spec {d d' : Delivery} {entry : ClientID × List Message}
    (h : handToSession d entry = .ok d') :
    (∀ c, c ∈ d'.shard.sessions ↔ c ∈ d.shard.sessions) ∧
      ∀ e, e ∈ d'.handed ↔ e ∈ d.handed ∨ e = entry ∧ e.1 ∈ d.shard.sessions := by
  unfold handToSession at h
  cases hsession : d.shard.sessions[entry.1]? with
  | none =>
    simp only [hsession] at h
    cases h
    have habsent : entry.1 ∉ d.shard.sessions := by
      simp [ExtTreeMap.mem_iff_isSome_getElem?, hsession]
    constructor
    · intro c
      exact Iff.rfl
    · intro e
      constructor
      · exact .inl
      · rintro (he | ⟨rfl, hc⟩)
        · exact he
        · exact absurd hc habsent
  | some session =>
    have hpresent : entry.1 ∈ d.shard.sessions := by
      simp [ExtTreeMap.mem_iff_isSome_getElem?, hsession]
    simp only [hsession] at h
    obtain ⟨⟨session', status⟩, -, hrest⟩ := bind_eq_ok.mp h
    cases hrest
    constructor
    · intro c
      rw [OrdMap.mem_insert]
      constructor
      · rintro (rfl | hc)
        · exact hpresent
        · exact hc
      · exact .inr
    · intro e
      rw [List.mem_append, List.mem_singleton]
      apply or_congr_right
      constructor
      · rintro rfl
        exact ⟨rfl, hpresent⟩
      · exact And.left

theorem handToSessions_spec {d d' : Delivery} {entries : List (ClientID × List Message)}
    (h : entries.foldlM handToSession d = .ok d') (e : ClientID × List Message) :
    e ∈ d'.handed ↔ e ∈ d.handed ∨ e ∈ entries ∧ e.1 ∈ d.shard.sessions := by
  induction entries generalizing d with
  | nil =>
    cases h
    simp
  | cons entry entries ih =>
    obtain ⟨d₁, hentry, hrest⟩ := bind_eq_ok.mp h
    obtain ⟨hsessions, hhanded⟩ := handToSession_spec hentry
    rw [ih hrest, hhanded, hsessions, List.mem_cons, or_and_right, or_assoc]

namespace Delivery

/-- The session of `c` was called with a batch that holds the message. -/
def HandedTo (d : Delivery) (c : ClientID) (m : Message) : Prop :=
  ∃ msgs, (c, msgs) ∈ d.handed ∧ m ∈ msgs

end Delivery

/-- A message of a batch reaches the session of the client it names, if there is one, and no other
session. -/
theorem inMessages_handedTo {d : Delivery} {batch : List Message} (h : s.inMessages batch = .ok d)
    (c : ClientID) (m : Message) :
    d.HandedTo c m ↔ m ∈ batch ∧ m.sender = some c ∧ c ∈ s.sessions := by
  obtain ⟨⟨s₁, groups⟩, hpartition, h⟩ := bind_eq_ok.mp h
  obtain ⟨d₁, hhand, h⟩ := bind_eq_ok.mp h
  obtain ⟨s₂, -, h⟩ := bind_eq_ok.mp h
  cases h
  obtain ⟨hsessions, hgroups⟩ := partition_spec hpartition
  have hentry : ∀ msgs, (c, msgs) ∈ d₁.handed ↔ groups[c]? = some msgs ∧ c ∈ s.sessions := by
    intro msgs
    rw [handToSessions_spec hhand, ExtTreeMap.mem_toList_iff_getElem?_eq_some]
    simp [hsessions]
  have hfiled : m ∈ groups[c]?.getD [] ↔ m ∈ batch ∧ m.sender = some c := by
    rw [hgroups]
    simp
  rw [← and_assoc, ← hfiled]
  constructor
  · rintro ⟨msgs, hmsgs, hm⟩
    obtain ⟨hget, hc⟩ := (hentry msgs).mp hmsgs
    exact ⟨by rwa [hget], hc⟩
  · rintro ⟨hm, hc⟩
    cases hget : groups[c]? with
    | none => simp [hget] at hm
    | some msgs =>
      rw [hget] at hm
      exact ⟨msgs, (hentry msgs).mpr ⟨hget, hc⟩, hm⟩

/-- One entry of what `match_subscribers` returns that is routed: subscriptions of one client. -/
structure ClientGroup where
  clientId : ClientID
  subscrs : List Subscription
  nonempty : subscrs ≠ []
  own : ∀ subscr ∈ subscrs, subscr.clientId = clientId

namespace ClientGroup

/-- The shard that the group's messages are queued for. -/
def target (g : ClientGroup) : UInt32 := (g.subscrs.head g.nonempty).shardId

end ClientGroup

/-- What `match_subscribers` makes of the matching subscriptions: those of each client, without the
no-local ones of the publisher. -/
def grouped (publisher : ClientID) (matched : List Subscription) :
    ExtTreeMap ClientID (List Subscription) :=
  let groups := Multimap.groupBy Subscription.clientId matched
  match groups[publisher]? with
  | some own => groups.insert publisher (own.filter fun s => !s.noLocal)
  | none => groups

/-- Deleting the no-local subscriptions by their offsets never goes past the end of the list. -/
theorem matchSubscribers_eq (s : Shard) (sess : Session) (topicName : TopicName) :
    s.matchSubscribers sess topicName =
      ofOption (s.topicFilters.matchTopicName topicName) >>= fun r =>
        .ok (grouped sess.clientId r.1, { s with topicFilters := r.2 }) := by
  unfold matchSubscribers
  congr 1
  funext r
  have hremove (own : List Subscription) :
      Bisect.removeEach own (Bisect.offsets Subscription.noLocal own).reverse =
        some (own.filter fun s => !s.noLocal) := by
    simpa using Bisect.removeEach_offsets Subscription.noLocal own []
  dsimp only [grouped]
  cases (Multimap.groupBy Subscription.clientId r.1)[sess.clientId]? with
  | none => rfl
  | some own => simp only [hremove, ofOption, ok_bind]

/-- The subscriptions of a client, in the order in which they matched. -/
theorem getElem?_grouped (publisher c : ClientID) (matched : List Subscription) :
    (grouped publisher matched)[c]? =
      (Multimap.groupBy Subscription.clientId matched)[c]?.map fun own =>
        own.filter fun s => !(s.noLocal && decide (c = publisher)) := by
  unfold grouped
  dsimp only
  by_cases hc : publisher = c
  · subst hc
    cases hown : (Multimap.groupBy Subscription.clientId matched)[publisher]? with
    | none => simp [hown]
    | some own => simp
  · have hne : ¬ c = publisher := fun h => hc h.symm
    cases hown : (Multimap.groupBy Subscription.clientId matched)[publisher]? with
    | none => simp [hne]
    | some own => simp [OrdMap.getElem?_insert, hc, hne]

/-- The lists that `match_subscribers` returns are such groups, those that are empty aside. -/
theorem matchSubscribers_own {sess : Session} {topicName : TopicName}
    {groups : ExtTreeMap ClientID (List Subscription)}
    (h : s.matchSubscribers sess topicName = .ok (groups, s')) {c : ClientID}
    {subscr : Subscription} (hsubscr : subscr ∈ groups[c]?.getD []) : subscr.clientId = c := by
  rw [matchSubscribers_eq] at h
  obtain ⟨⟨matched, topicFilters⟩, -, h⟩ := bind_eq_ok.mp h
  cases h
  rw [getElem?_grouped] at hsubscr
  have hmem : subscr ∈ (Multimap.groupBy Subscription.clientId matched)[c]?.getD [] := by
    cases hown : (Multimap.groupBy Subscription.clientId matched)[c]? with
    | none => simp [hown] at hsubscr
    | some own =>
      rw [hown] at hsubscr
      exact List.mem_of_mem_filter hsubscr
  rw [Multimap.getD_groupBy] at hmem
  simpa using (List.mem_filter.mp hmem).2

/-- The message goes to the end of the target's back log, and names the publishing session. -/
theorem routeToClient_queued {sess : Session} {g : ClientGroup} {publ : Publish}
    (h : s.routeToClient sess g.subscrs publ = .ok s') :
    (s'.shardBackLog[g.target]?.getD []).getLast? =
      some (.packet sess.clientId s.shardId s.cinp.seqno 0 g.subscrs (.publish publ)) := by
  obtain ⟨clientId, subscrs, hne, own⟩ := g
  cases subscrs with
  | nil => exact absurd rfl hne
  | cons subscr subscrs =>
    obtain ⟨serverQos, -, h⟩ := bind_eq_ok.mp h
    obtain ⟨s₁, -, h⟩ := bind_eq_ok.mp h
    cases h
    simp [ClientGroup.target, Multimap.getElem?_push]

/-- The message that a session's PUBLISH becomes is handed to the publisher. -/
theorem routeToClient_handedTo {sess : Session} {g : ClientGroup} {publ : Publish} {msg : Message}
    {receiver : Shard} {batch : List Message} {d : Delivery}
    (hroute : s.routeToClient sess g.subscrs publ = .ok s')
    (hmsg : (s'.shardBackLog[g.target]?.getD []).getLast? = some msg) (hbatch : msg ∈ batch)
    (hd : receiver.inMessages batch = .ok d) (c : ClientID) :
    d.HandedTo c msg ↔ c = sess.clientId ∧ sess.clientId ∈ receiver.sessions := by
  have hqueued := hmsg.symm.trans (routeToClient_queued hroute)
  cases hqueued
  rw [inMessages_handedTo hd]
  constructor
  · rintro ⟨-, hsender, hc⟩
    cases hsender
    exact ⟨rfl, hc⟩
  · rintro ⟨rfl, hc⟩
    exact ⟨hbatch, rfl, hc⟩

/-- When the message that a session's PUBLISH becomes is handed to the right session. It reaches no
client but the subscribed one exactly if that is the publisher, or the publisher has no session in
the receiving shard; it also reaches the subscribed one, if that has a session there, exactly if it
is the publisher or neither of the two has one. -/
theorem routeToClient_recipient_iff {sess : Session} {g : ClientGroup} {publ : Publish}
    {msg : Message} {receiver : Shard} {batch : List Message} {d : Delivery}
    (hroute : s.routeToClient sess g.subscrs publ = .ok s')
    (hmsg : (s'.shardBackLog[g.target]?.getD []).getLast? = some msg) (hbatch : msg ∈ batch)
    (hd : receiver.inMessages batch = .ok d) :
    ((∀ c, d.HandedTo c msg → c = g.clientId) ↔
        sess.clientId = g.clientId ∨ sess.clientId ∉ receiver.sessions) ∧
      ((∀ c, d.HandedTo c msg ↔ c = g.clientId ∧ g.clientId ∈ receiver.sessions) ↔
        sess.clientId = g.clientId ∨
          sess.clientId ∉ receiver.sessions ∧ g.clientId ∉ receiver.sessions) := by
  have hhanded := routeToClient_handedTo hroute hmsg hbatch hd
  simp only [hhanded]
  constructor
  · constructor
    · intro h
      by_cases hc : sess.clientId ∈ receiver.sessions
      · exact .inl (h _ ⟨rfl, hc⟩)
      · exact .inr hc
    · rintro (heq | hc) c ⟨rfl, hin⟩
      · exact heq
      · exact absurd hin hc
  · constructor
    · intro h
      by_cases heq : sess.clientId = g.clientId
      · exact .inl heq
      · right
        constructor
        · intro hc
          exact heq ((h _).mp ⟨rfl, hc⟩).1
        · intro hc
          exact heq ((h _).mpr ⟨rfl, hc⟩).1.symm
    · rintro (heq | ⟨hsess, hg⟩) c
      · rw [heq]
      · simp [hsess, hg]

def hosting (clients : List String) : Shard :=
  { spawn {} 0 with
    sessions := clients.foldl (fun sessions c => sessions.insert ⟨c⟩ (Session.idle c)) ∅ }

def soleGroup (client : String) : ClientGroup :=
  ⟨⟨client⟩, [⟨⟨"news"⟩, ⟨client⟩, 0, none, .atMostOnce, false, false, .onEverySubscribe⟩],
    by simp, by simp⟩

def plainPublish : Publish := ⟨false, .atMostOnce, false, ⟨"news"⟩, none, none, none⟩

/-- What `Session.idle "alice"` publishes to the group, as it is queued. -/
def queuedMessage (g : ClientGroup) : Message :=
  .packet ⟨"alice"⟩ 0 1 0 g.subscrs (.publish plainPublish)

/-- A batch of two shards: what `bob` and `carol` publish elsewhere, and what `alice` does in between. -/
def mixedBatch : List Message :=
  [.packet ⟨"bob"⟩ 1 7 0 (soleGroup "alice").subscrs (.publish plainPublish),
    queuedMessage (soleGroup "alice"),
    .packet ⟨"carol"⟩ 1 8 0 (soleGroup "bob").subscrs (.publish plainPublish)]

theorem routeToClient_recipient_iff_mixed :
    ∃ s' d, (hosting ["alice", "bob"]).routeToClient (Session.idle "alice")
        (soleGroup "alice").subscrs plainPublish = .ok s' ∧
      (hosting ["alice", "bob"]).inMessages mixedBatch = .ok d ∧ d.handed.length = 2 ∧
      ∀ c, d.HandedTo c (queuedMessage (soleGroup "alice")) ↔
        c = ⟨"alice"⟩ ∧ ⟨"alice"⟩ ∈ (hosting ["alice", "bob"]).sessions := by
  obtain ⟨s', hroute⟩ := exists_of_isOk
    (x := (hosting ["alice", "bob"]).routeToClient (Session.idle "alice") (soleGroup "alice").subscrs
      plainPublish) (by decide)
  have heval : ((hosting ["alice", "bob"]).inMessages mixedBatch).toOption.map
      (fun d => d.handed.length) = some 2 := by decide
  obtain ⟨d, hd, hhanded⟩ := Option.map_eq_some_iff.mp heval
  have hmsg := routeToClient_queued (g := soleGroup "alice") hroute
  have hbatch : queuedMessage (soleGroup "alice") ∈ mixedBatch := by simp [mixedBatch]
  have hiff := routeToClient_recipient_iff hroute hmsg hbatch (toOption_eq_some.mp hd)
  exact ⟨s', d, hroute, toOption_eq_some.mp hd, hhanded, hiff.2.mpr (.inl rfl)⟩

/-- What one client publishes for another goes back to itself. -/
theorem routeToClient_wrong_recipient :
    ¬ ∀ (s s' receiver : Shard) (sess : Session) (g : ClientGroup) (publ : Publish)
        (msg : Message) (batch : List Message) (d : Delivery),
      s.routeToClient sess g.subscrs publ = .ok s' →
      (s'.shardBackLog[g.target]?.getD []).getLast? = some msg → msg ∈ batch →
      receiver.inMessages batch = .ok d → ∀ c, d.HandedTo c msg → c = g.clientId := by
  intro h
  obtain ⟨s', hroute⟩ := exists_of_isOk
    (x := (hosting ["alice", "bob"]).routeToClient (Session.idle "alice") (soleGroup "bob").subscrs
      plainPublish) (by decide)
  obtain ⟨d, hd⟩ := exists_of_isOk
    (x := (hosting ["alice", "bob"]).inMessages [queuedMessage (soleGroup "bob")]) (by decide)
  have hmsg := routeToClient_queued (g := soleGroup "bob") hroute
  have hhanded : d.HandedTo ⟨"alice"⟩ (queuedMessage (soleGroup "bob")) :=
    (inMessages_handedTo hd _ _).mpr ⟨List.mem_singleton.mpr rfl, rfl, by decide⟩
  have heq := h _ s' _ _ _ _ _ _ d hroute hmsg (List.mem_singleton.mpr rfl) hd _ hhanded
  exact absurd heq (by decide)

end Shard
end Mqtr
