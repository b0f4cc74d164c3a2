import Mqtr.Core.Grouping
import Mqtr.Broker.Publish
import Mqtr.Broker.Outbound
import Mqtr.Broker.LocalAck
import Mqtr.Broker.Subscriptions
import Mqtr.Broker.Teardown

/-! From one PUBLISH to the packets of its subscribers. The shard of the publisher groups the matching
subscriptions by client and routes one message for each group; the session of the subscriber makes one
packet out of it for each subscription. -/
namespace Mqtr
open Outcome Std Grouping

/-- The subscriptions for which a message was routed. -/
def Message.subscriptions : Message → List Subscription
  | .packet _ _ _ _ subscriptions _ => subscriptions
  | .localAck _ _ | .clientAck _ => []

/-- A PUBLISH of the client is for the subscription, unless that is a no-local one of its own. -/
def Subscription.wants (publisher : ClientID) (self : Subscription) : Bool :=
  !(self.noLocal && decide (self.clientId = publisher))

namespace Shard
variable {s s' : Shard}

theorem mem_grouped {publisher c : ClientID} {matched : List Subscription} :
    c ∈ grouped publisher matched ↔ ∃ m ∈ matched, m.clientId = c := by
  rw [← Multimap.mem_groupBy, ExtTreeMap.mem_iff_isSome_getElem?, getElem?_grouped, Option.isSome_map,
    ExtTreeMap.mem_iff_isSome_getElem?]

theorem getD_grouped (publisher c : ClientID) (matched : List Subscription) :
    (grouped publisher matched)[c]?.getD [] =
      group Subscription.clientId (matched.filter (Subscription.wants publisher)) c := by
  have hgroup := Multimap.getD_groupBy Subscription.clientId matched c
  have hmap : (grouped publisher matched)[c]?.getD [] =
      ((Multimap.groupBy Subscription.clientId matched)[c]?.getD []).filter
        fun m => !(m.noLocal && decide (c = publisher)) := by
    rw [getElem?_grouped]
    cases (Multimap.groupBy Subscription.clientId matched)[c]? <;> rfl
  rw [hmap, hgroup, group, List.filter_filter, List.filter_filter]
  apply List.filter_congr
  intro m _
  by_cases hc : m.clientId = c
  · simp [Subscription.wants, hc]
  · simp [hc]

/-- Together the groups hold every subscription that wants the PUBLISH, as often as it matched. -/
theorem grouped_perm (publisher : ClientID) (matched : List Subscription) :
    ((grouped publisher matched).toList.flatMap Prod.snd).Perm
      (matched.filter (Subscription.wants publisher)) := by
  rw [Multimap.toList_flatMap_snd]
  simp only [getD_grouped]
  apply flatMap_group_perm _ ExtTreeMap.nodup_keys
  intro m hm
  rw [ExtTreeMap.mem_keys]
  exact mem_grouped.mpr ⟨m, List.mem_of_mem_filter hm, rfl⟩

/-- The messages go to the ends of the back logs of their targets. -/
def Queued (s : Shard) (msgs : List Message) (s' : Shard) : Prop :=
  ∀ b : UInt32, s'.shardBackLog[b]?.getD [] =
    s.shardBackLog[b]?.getD [] ++ msgs.filter fun msg => msg.targetShard = some b

/-- A message that carries the PUBLISH of the session. -/
def Carries (sess : Session) (publ : Publish) (msg : Message) : Prop :=
  ∃ shardId seqno subscrs, msg = .packet sess.clientId shardId seqno 0 subscrs (.publish publ)

theorem routeToClient_queues {sess : Session} {subscrs : List Subscription} {publ : Publish}
    (h : s.routeToClient sess subscrs publ = .ok s') :
    ∃ msg, s.Queued [msg] s' ∧ Carries sess publ msg ∧ msg.subscriptions = subscrs := by
  cases subscrs with
  | nil => cases h
  | cons subscr subscrs =>
    obtain ⟨_, _, _, -, rfl, -⟩ := routeToClient_cases h
    refine ⟨s.routedMessage sess (subscr :: subscrs) publ, fun b => ?_, ⟨_, _, _, rfl⟩, rfl⟩
    rw [Multimap.getElem?_push]
    by_cases hb : subscr.shardId = b
    · subst hb
      simp [routedMessage, Message.targetShard]
    · simp [routedMessage, Message.targetShard, hb]

/-- The loop of `do_publish` over the groups. -/
theorem routeGroups_queues {sess : Session} {publ : Publish}
    {entries : List (ClientID × List Subscription)}
    (h : entries.foldlM (fun (shard : Shard) (entry : ClientID × List Subscription) =>
      if entry.2.isEmpty then .ok shard else shard.routeToClient sess entry.2 publ) s = .ok s') :
    ∃ msgs, s.Queued msgs s' ∧ (∀ msg ∈ msgs, Carries sess publ msg) ∧
      msgs.flatMap Message.subscriptions = entries.flatMap Prod.snd := by
  induction entries generalizing s with
  | nil =>
    cases h
    exact ⟨[], fun b => by simp, by simp, rfl⟩
  | cons entry entries ih =>
    obtain ⟨t, ht, h⟩ := bind_eq_ok.mp h
    obtain ⟨msgs, hqueued, hcarry, hsubscrs⟩ := ih h
    dsimp only at ht
    split_ifs at ht with hempty
    · cases ht
      refine ⟨msgs, hqueued, hcarry, ?_⟩
      rw [hsubscrs, List.flatMap_cons, List.isEmpty_iff.mp hempty, List.nil_append]
    · obtain ⟨msg, hmsg, hcarries, hsubscr⟩ := routeToClient_queues ht
      refine ⟨msg :: msgs, fun b => ?_, ?_, ?_⟩
      · rw [hqueued b, hmsg b, List.append_assoc, ← List.filter_append, List.singleton_append]
      · intro m hm
        rcases List.mem_cons.mp hm with rfl | hm
        · exact hcarries
        · exact hcarry m hm
      · rw [List.flatMap_cons, List.flatMap_cons, hsubscr, hsubscrs]

/-- A PUBLISH is routed unless its quality of service comes out as 2, which is not implemented. -/
def Routable (s : Shard) (publ : Publish) : Prop :=
  ∃ serverQos, s.config.serverQos = .ok serverQos ∧ serverQos.min publ.qos ≠ .exactlyOnce

theorem routeToClient_isOk (sess : Session) {subscrs : List Subscription} {publ : Publish}
    (h : s.Routable publ) (hne : subscrs ≠ []) :
    ∃ t, s.routeToClient sess subscrs publ = .ok t ∧ t.config = s.config := by
  obtain ⟨serverQos, hserver, hqos⟩ := h
  cases subscrs with
  | nil => exact absurd rfl hne
  | cons subscr subscrs =>
    unfold routeToClient
    dsimp only
    rw [hserver, ok_bind]
    cases hmin : serverQos.min publ.qos with
    | atMostOnce => exact ⟨_, rfl, rfl⟩
    | atLeastOnce => exact ⟨_, rfl, rfl⟩
    | exactlyOnce => exact absurd hmin hqos

theorem routeGroups_isOk (sess : Session) {publ : Publish}
    (entries : List (ClientID × List Subscription)) (h : s.Routable publ) :
    ∃ t, entries.foldlM (fun (shard : Shard) (entry : ClientID × List Subscription) =>
      if entry.2.isEmpty then .ok shard else shard.routeToClient sess entry.2 publ) s = .ok t := by
  induction entries generalizing s with
  | nil => exact ⟨s, rfl⟩
  | cons entry entries ih =>
    rw [List.foldlM_cons]
    by_cases hempty : entry.2.isEmpty
    · rw [if_pos hempty, ok_bind]
      exact ih h
    · obtain ⟨t, ht, hconfig⟩ := routeToClient_isOk sess h
        (fun hnil => hempty (List.isEmpty_iff.mpr hnil))
      rw [if_neg hempty, ht, ok_bind]
      apply ih
      rw [Routable, hconfig]
      exact h

/-- Under a client are its matching subscriptions in the order in which they matched, without the no-local
ones if it is the publisher; a client without any is absent. When the PUBLISH is routed, every
subscription that matched is in the messages queued as often as it matched, unless it is a no-local one
of the publisher. One of QoS 2 is not routed: that aborts. -/
theorem matchSubscribers_groups {topicName : TopicName} {matched : List Subscription}
    {topicFilters : Inner Subscription}
    (h : s.topicFilters.matchTopicName topicName = some (matched, topicFilters)) (sess : Session) :
    ∃ groups, s.matchSubscribers sess topicName =
        .ok (groups, { s with topicFilters := topicFilters }) ∧
      (∀ c, (c ∈ groups ↔ ∃ m ∈ matched, m.clientId = c) ∧
        groups[c]?.getD [] = matched.filter fun m =>
          m.clientId = c && !(m.noLocal && decide (c = sess.clientId))) ∧
      ∀ (publ : Publish) (cluster : ClusterTx),
        (s.Routable publ → ∃ st',
          Publishing.routeToSubscribers topicName publ ⟨sess, s, cluster⟩ = .ok ((), st')) ∧
        ∀ st', Publishing.routeToSubscribers topicName publ ⟨sess, s, cluster⟩ = .ok ((), st') →
          ∃ msgs, s.Queued msgs st'.shard ∧ (∀ msg ∈ msgs, Carries sess publ msg) ∧
            (msgs.flatMap Message.subscriptions).Perm
              (matched.filter fun m => !(m.noLocal && decide (m.clientId = sess.clientId))) := by
  have hgroups : s.matchSubscribers sess topicName =
      .ok (grouped sess.clientId matched, { s with topicFilters := topicFilters }) := by
    rw [matchSubscribers_eq, h]
    rfl
  refine ⟨grouped sess.clientId matched, hgroups, fun c => ⟨mem_grouped, ?_⟩, ?_⟩
  · rw [getD_grouped, group, List.filter_filter]
    apply List.filter_congr
    intro m _
    by_cases hc : m.clientId = c
    · simp [Subscription.wants, hc]
    · simp [hc]
  · intro publ cluster
    rw [Publishing.routeToSubscribers, hgroups, ok_bind]
    constructor
    · intro hroutable
      obtain ⟨shard, hloop⟩ := routeGroups_isOk (s := { s with topicFilters := topicFilters }) sess
        (grouped sess.clientId matched).toList hroutable
      exact ⟨⟨sess, shard, cluster⟩, bind_eq_ok.mpr ⟨shard, hloop, rfl⟩⟩
    · intro st' hroute
      obtain ⟨shard, hloop, hrest⟩ := bind_eq_ok.mp hroute
      cases hrest
      obtain ⟨msgs, hqueued, hcarry, hsubscrs⟩ := routeGroups_queues hloop
      refine ⟨msgs, hqueued, hcarry, ?_⟩
      rw [hsubscrs]
      exact grouped_perm sess.clientId matched

/-- `alice` and `bob` subscribe `news`, `alice` for what others publish. -/
def newsFilters : Inner Subscription :=
  let own : Subscription :=
    ⟨⟨"news"⟩, ⟨"alice"⟩, 0, none, .atMostOnce, true, false, .onEverySubscribe⟩
  let other : Subscription :=
    ⟨⟨"news"⟩, ⟨"bob"⟩, 1, none, .atMostOnce, true, false, .onEverySubscribe⟩
  ((Inner.default.doSubscribe own.topicFilter own).bind fun inner =>
    inner.doSubscribe other.topicFilter other).getD Inner.default

theorem matchSubscribers_groups_news :
    ∃ groups s', ({ spawn {} 0 with topicFilters := newsFilters } : Shard).matchSubscribers
        (Session.idle "alice") ⟨"news"⟩ = .ok (groups, s') ∧
      (⟨"alice"⟩ : ClientID) ∈ groups ∧ groups[(⟨"alice"⟩ : ClientID)]?.getD [] = [] ∧
      (groups[(⟨"bob"⟩ : ClientID)]?.getD []).length = 1 := by
  obtain ⟨matched, filters, hmatched⟩ : ∃ matched filters,
      ({ spawn {} 0 with topicFilters := newsFilters } : Shard).topicFilters.matchTopicName
        (⟨"news"⟩ : TopicName) = some (matched, filters) := ⟨_, _, rfl⟩
  obtain ⟨groups, hgroups, hunder, -⟩ := matchSubscribers_groups hmatched (Session.idle "alice")
  cases hmatched
  refine ⟨groups, _, hgroups, (hunder _).1.mpr (by decide), ?_, ?_⟩
  · rw [(hunder _).2]
    decide
  · rw [(hunder _).2]
    decide

end Shard

namespace Session

/-- A session that has answered its CONNECT, after any calls. -/
inductive Hosted : Session → Prop
  | start {clientId : ClientID} {addr : String} {config : Config} {pkt : Connect} {s : Session}
      {connAck : ConnAck} (starts : start clientId addr config pkt = .ok s)
      (answers : s.successAck pkt = .ok connAck) : Hosted s
  | coutPublish {s s' : Session} {msg : Message} {msgs : List Message} (hosted : Hosted s)
      (returns : s.coutPublish msg = .ok (msgs, s')) : Hosted s'
  | inMessages {s s' : Session} {msgs : List Message} {status : QueueStatus Message}
      (hosted : Hosted s) (returns : s.inMessages msgs = .ok (s', status)) : Hosted s'
  | flushMessages {s s' : Session} {queue : SendQueue} {status : QueueStatus Packet}
      (hosted : Hosted s) (returns : s.flushMessages queue = .ok (s', status)) : Hosted s'
  | bookQos {s s' : Session} {publ : Publish} {fresh : Bool} (hosted : Hosted s)
      (returns : s.bookQos publ = .ok (fresh, s')) : Hosted s'
  | publishTopicName {s s' : Session} {publ : Publish} {topicName : TopicName} (hosted : Hosted s)
      (returns : s.publishTopicName publ = .ok (topicName, s')) : Hosted s'
  | doSubscribe {s s' : Session} {shardId : UInt32} {inner inner' : Inner Subscription}
      {sub : Subscribe} {msgs : List Message} (hosted : Hosted s)
      (returns : s.doSubscribe shardId inner sub = .ok (msgs, s', inner')) : Hosted s'

/-- The session has a maximum quality of service and a packet identifier for its next message. -/
structure Running (s : Session) : Prop where
  serverQos : ∃ qos, s.config.serverQos = .ok qos
  nextPacketId : s.cout.nextPacketId ≠ 0

/-- The session after so many messages. -/
def afterMessages (s : Session) (k : ℕ) : Session := (fun s => s.incrCoutSeqno.2)^[k] s

theorem afterMessages_succ (s : Session) (k : ℕ) :
    s.afterMessages (k + 1) = (s.afterMessages k).incrCoutSeqno.2 :=
  Function.iterate_succ_apply' _ k s

theorem afterMessages_config (s : Session) (k : ℕ) : (s.afterMessages k).config = s.config := by
  induction k with
  | zero => rfl
  | succ k ih => rw [afterMessages_succ, ← ih]; rfl

/-- Sequence numbers go up by one, and stop at the greatest. -/
theorem afterMessages_seqno (s : Session) (k : ℕ) :
    (s.afterMessages k).cout.seqno.toNat = min (s.cout.seqno.toNat + k) (2 ^ 64 - 1) := by
  induction k with
  | zero =>
    have hlt := s.cout.seqno.toNat_lt
    change s.cout.seqno.toNat = _
    omega
  | succ k ih =>
    rw [afterMessages_succ]
    change (saturatingSucc (s.afterMessages k).cout.seqno).toNat = _
    unfold saturatingSucc
    split_ifs with hmax
    · rw [hmax] at ih ⊢
      have hval : (0xFFFFFFFFFFFFFFFF : UInt64).toNat = 2 ^ 64 - 1 := rfl
      omega
    · have hne : (s.afterMessages k).cout.seqno.toNat ≠ 2 ^ 64 - 1 :=
        fun heq => hmax (UInt64.toNat_inj.mp heq)
      have hone : (1 : UInt64).toNat = 1 := rfl
      rw [ih] at hne
      rw [UInt64.toNat_add, hone, ih, Nat.mod_eq_of_lt (by omega)]
      omega

/-- Packet identifiers go through the numbers from 1 to 65535 in a circle. -/
theorem afterMessages_packetId {s : Session} (h : s.cout.nextPacketId ≠ 0) (k : ℕ) :
    (s.afterMessages k).cout.nextPacketId.toNat =
      (s.cout.nextPacketId.toNat - 1 + k) % 65535 + 1 := by
  have hpos : s.cout.nextPacketId.toNat ≠ 0 := fun heq => h (UInt16.toNat_inj.mp heq)
  have hlt := s.cout.nextPacketId.toNat_lt
  induction k with
  | zero =>
    change s.cout.nextPacketId.toNat = _
    omega
  | succ k ih =>
    rw [afterMessages_succ]
    change (if (s.afterMessages k).cout.nextPacketId + 1 = 0 then (1 : UInt16)
      else (s.afterMessages k).cout.nextPacketId + 1).toNat = _
    have hnext : ((s.afterMessages k).cout.nextPacketId + 1).toNat =
        ((s.cout.nextPacketId.toNat - 1 + k) % 65535 + 2) % 65536 := by
      rw [UInt16.toNat_add, ih]
      rfl
    split_ifs with hzero
    · rw [hzero] at hnext
      have hval : (0 : UInt16).toNat = 0 := rfl
      have hone : (1 : UInt16).toNat = 1 := rfl
      omega
    · have hne : ((s.afterMessages k).cout.nextPacketId + 1).toNat ≠ 0 :=
        fun heq => hzero (UInt16.toNat_inj.mp heq)
      omega

/-- An identifier comes back only after all the others. -/
theorem packetId_injOn {s : Session} (h : s.cout.nextPacketId ≠ 0) (k : ℕ) :
    Set.InjOn (fun i => (s.afterMessages i).cout.nextPacketId) (Set.Ico k (k + 65535)) := by
  intro i hi j hj heq
  have hmod := congrArg UInt16.toNat heq
  dsimp only at hmod
  rw [afterMessages_packetId h, afterMessages_packetId h] at hmod
  obtain ⟨hki, hik⟩ := hi
  obtain ⟨hkj, hjk⟩ := hj
  omega

/-- What the `m`th call of `incr_cout_seqno` returns. -/
def coutNumbers (s : Session) (m : ℕ) : UInt64 × UInt16 := (s.afterMessages (m - 1)).incrCoutSeqno.1

/-- A session counts from one. The identifiers start again after 65535 of them, so that no two of as many
in a row are equal, and the sequence numbers stop at the greatest. -/
theorem coutNumbers_of_start {clientId : ClientID} {addr : String} {config : Config} {pkt : Connect}
    {s : Session} (h : start clientId addr config pkt = .ok s) :
    (∀ m, 1 ≤ m → (s.coutNumbers m).2.toNat = (m - 1) % 65535 + 1 ∧ (s.coutNumbers m).2 ≠ 0 ∧
        (s.coutNumbers m).1.toNat = min m (2 ^ 64 - 1)) ∧
      ∀ m, 1 ≤ m → Set.InjOn (fun k => (s.coutNumbers k).2) (Set.Ico m (m + 65535)) := by
  obtain ⟨hseqno, hid⟩ : s.cout.seqno = 1 ∧ s.cout.nextPacketId = 1 := by
    obtain ⟨willMessage, -, h⟩ := bind_eq_ok.mp h
    cases h
    exact ⟨rfl, rfl⟩
  have hne : s.cout.nextPacketId ≠ 0 := by
    rw [hid]
    decide
  refine ⟨fun m hm => ?_, fun m hm => ?_⟩
  · have hpacketId : (s.coutNumbers m).2.toNat = (m - 1) % 65535 + 1 := by
      refine (afterMessages_packetId hne (m - 1)).trans ?_
      rw [hid]
      change (1 - 1 + (m - 1)) % 65535 + 1 = _
      omega
    have hnumber : (s.coutNumbers m).1.toNat = min m (2 ^ 64 - 1) := by
      refine (afterMessages_seqno s (m - 1)).trans ?_
      rw [hseqno]
      change min (1 + (m - 1)) _ = _
      rw [Nat.add_sub_cancel' hm]
    refine ⟨hpacketId, fun hzero => ?_, hnumber⟩
    rw [hzero] at hpacketId
    exact absurd hpacketId (Nat.succ_ne_zero _).symm
  · intro i hi j hj heq
    obtain ⟨hmi, him⟩ := hi
    obtain ⟨hmj, hjm⟩ := hj
    have hpred : i - 1 = j - 1 :=
      packetId_injOn hne (m - 1) ⟨by omega, by omega⟩ ⟨by omega, by omega⟩ heq
    omega

theorem coutNumbers_of_start_second_round :
    ∃ s, start ⟨"alice"⟩ "10.0.0.1:1" {} (Control.plainArgs "alice" "").pkt = .ok s ∧
      (s.coutNumbers 65536).2.toNat = 1 := by
  obtain ⟨s, hs⟩ := exists_of_isOk
    (x := start ⟨"alice"⟩ "10.0.0.1:1" {} (Control.plainArgs "alice" "").pkt) (by decide)
  exact ⟨s, hs, ((coutNumbers_of_start hs).1 65536 (by decide)).1⟩

/-- The messages are made one after the other, each with the next numbers. -/
theorem coutPublish_eq (s : Session) (clientId : ClientID) (shardId : UInt32) (seqno : UInt64)
    (packetId : UInt16) (subscriptions : List Subscription) (publish : Publish) :
    s.coutPublish (.packet clientId shardId seqno packetId subscriptions (.publish publish)) =
      s.config.serverQos >>= fun serverQos =>
        .ok (subscriptions.mapIdx fun i subscr =>
            (publishFor (s.afterMessages i) clientId shardId serverQos publish subscr).1,
          s.afterMessages subscriptions.length) := by
  unfold coutPublish
  dsimp only
  congr 1
  funext serverQos
  congr 1
  induction subscriptions using List.reverseRecOn with
  | nil => rfl
  | append_singleton subscriptions subscr ih =>
    rw [List.foldl_append, ih, List.mapIdx_concat, List.length_append, List.length_singleton,
      afterMessages_succ]
    rfl

section Running
variable {s s' : Session}

theorem afterMessages_running (h : s.Running) (k : ℕ) : (s.afterMessages k).Running where
  serverQos := by
    rw [afterMessages_config]
    exact h.serverQos
  nextPacketId := by
    intro hzero
    have hval := afterMessages_packetId h.nextPacketId k
    rw [hzero] at hval
    exact absurd hval (Nat.succ_ne_zero _).symm

theorem Running.coutPublish {msg : Message} {msgs : List Message} (h : s.Running)
    (hs : s.coutPublish msg = .ok (msgs, s')) : s'.Running := by
  have hmsg := hs
  unfold Session.coutPublish at hmsg
  split at hmsg
  · rw [coutPublish_eq] at hs
    obtain ⟨serverQos, -, hs⟩ := bind_eq_ok.mp hs
    cases hs
    exact afterMessages_running h _
  · cases hmsg

theorem Running.pushBackLog (h : s.Running) (msgs : List Message) : (s.pushBackLog msgs).Running :=
  ⟨h.serverQos, h.nextPacketId⟩

theorem Running.inMessage {msg : Message} (h : s.Running) (hs : s.inMessage msg = .ok s') :
    s'.Running := by
  cases msg with
  | clientAck =>
    cases hs
    exact h.pushBackLog _
  | packet =>
    obtain ⟨⟨msgs, t⟩, hout, hs⟩ := bind_eq_ok.mp hs
    cases hs
    exact (h.coutPublish hout).pushBackLog _
  | localAck => cases hs

theorem Running.inMessages {msgs : List Message} {status : QueueStatus Message} (h : s.Running)
    (hs : s.inMessages msgs = .ok (s', status)) : s'.Running := by
  obtain ⟨t, hfold, hs⟩ := bind_eq_ok.mp hs
  obtain ⟨size, -, hs⟩ := bind_eq_ok.mp hs
  have ht : t.Running := foldlM_invariant (P := Running) (fun _ _ _ _ hr hm => hr.inMessage hm) h hfold
  split_ifs at hs
  · cases hs
    exact ht
  · cases hs
    exact ht

theorem Running.flushMessages {queue : SendQueue} {status : QueueStatus Packet} (h : s.Running)
    (hs : s.flushMessages queue = .ok (s', status)) : s'.Running := by
  rcases flushMessages_cases hs with ⟨-, rfl⟩ | ⟨-, rfl⟩
  · exact h
  · exact ⟨h.serverQos, h.nextPacketId⟩

theorem Running.doSubscribe {shardId : UInt32} {inner inner' : Inner Subscription} {sub : Subscribe}
    {msgs : List Message} (h : s.Running)
    (hs : s.doSubscribe shardId inner sub = .ok (msgs, s', inner')) : s'.Running := by
  obtain ⟨⟨codes, t, inner₁⟩, hfold, hs⟩ := bind_eq_ok.mp hs
  cases hs
  refine foldlM_invariant (P := fun state => Running state.2.1) ?_ h hfold
  rintro ⟨codes, r, inner₂⟩ filter - ⟨codes', r', inner₃⟩ hr hfilter
  obtain ⟨v, -, -, -, -, -, -, rfl⟩ := subscribeFilter_cases hfilter
  exact ⟨hr.serverQos, hr.nextPacketId⟩

theorem Hosted.running (h : s.Hosted) : s.Running := by
  induction h with
  | start starts answers =>
    obtain ⟨willMessage, -, starts⟩ := bind_eq_ok.mp starts
    obtain ⟨maximumQos, hqos, -⟩ := bind_eq_ok.mp answers
    cases starts
    exact ⟨⟨maximumQos, hqos⟩, (by decide : (1 : UInt16) ≠ 0)⟩
  | coutPublish _ returns ih => exact ih.coutPublish returns
  | inMessages _ returns ih => exact ih.inMessages returns
  | flushMessages _ returns ih => exact ih.flushMessages returns
  | bookQos _ returns ih =>
    obtain ⟨qos1, qos2, rfl⟩ := bookQos_eq_ok returns
    exact ⟨ih.serverQos, ih.nextPacketId⟩
  | publishTopicName _ returns ih =>
    rcases publishTopicName_eq_ok.mp returns with
      ⟨-, -, -, rfl⟩ | ⟨_, _, -, -, -, ⟨-, -, rfl⟩ | ⟨-, -, rfl⟩⟩
    · exact ih
    · exact ⟨ih.serverQos, ih.nextPacketId⟩
    · exact ih
  | doSubscribe _ returns ih => exact ih.doSubscribe returns

end Running

end Session

/-- Every session of the shard has answered its CONNECT. -/
def Shard.Hosts (s : Shard) : Prop :=
  ∀ (c : ClientID) (sess : Session), s.sessions[c]? = some sess → sess.Hosted

namespace Shard
variable {s s' : Shard}

theorem Hosts.erase (h : s.Hosts) (clientId : ClientID) {t : Shard}
    (ht : t.sessions = s.sessions.erase clientId) : t.Hosts := by
  intro c sess hc
  rw [ht, OrdMap.getElem?_erase] at hc
  split_ifs at hc
  exact h c sess hc

theorem Hosts.insert (h : s.Hosts) {clientId : ClientID} {sess : Session} (hsess : sess.Hosted)
    {t : Shard} (ht : t.sessions = s.sessions.insert clientId sess) : t.Hosts := by
  intro c sess' hc
  rw [ht, OrdMap.getElem?_insert] at hc
  split_ifs at hc
  · cases hc
    exact hsess
  · exact h c sess' hc

theorem Hosts.handleFlushConnection {socket : Socket} {err : Error} (h : s.Hosts)
    (hs : s.handleFlushConnection socket err = .ok s') : s'.Hosts := by
  unfold Shard.handleFlushConnection at hs
  split at hs
  · obtain ⟨cinp, -, hs⟩ := bind_eq_ok.mp hs
    obtain ⟨topicFilters, -, hs⟩ := bind_eq_ok.mp hs
    cases hs
    exact h.erase socket.clientId rfl
  · cases hs
    exact h

theorem Hosts.dropConnection {clientId : ClientID} {err : Error} (h : s.Hosts)
    (hs : s.dropConnection clientId err = .ok s') : s'.Hosts := by
  unfold Shard.dropConnection at hs
  dsimp only at hs
  split at hs
  · have hmiot : Hosts { s with miot := (s.miot.handleRemoveConnection clientId).2 } := h
    exact hmiot.handleFlushConnection hs
  · cases hs
    exact h

theorem Hosts.nukeSession {clientId : ClientID} {addr : String} (h : s.Hosts)
    (hs : s.nukeSession clientId addr = .ok s') : s'.Hosts := by
  unfold Shard.nukeSession at hs
  split at hs
  · obtain ⟨topicFilters, -, hs⟩ := bind_eq_ok.mp hs
    exact Hosts.dropConnection (h.erase clientId rfl) hs
  · cases hs
    exact h

theorem Hosts.handleAddSession {args : AddSessionArgs} (h : s.Hosts)
    (hs : s.handleAddSession args = .ok s') : s'.Hosts := by
  obtain ⟨size, -, hs⟩ := bind_eq_ok.mp hs
  obtain ⟨session₀, hstart, hs⟩ := bind_eq_ok.mp hs
  obtain ⟨connAck, hack, hs⟩ := bind_eq_ok.mp hs
  obtain ⟨⟨session₁, status₁⟩, hin, hs⟩ := bind_eq_ok.mp hs
  obtain ⟨⟨session, status⟩, hflush, hs⟩ := bind_eq_ok.mp hs
  have hsession : session.Hosted :=
    ((Session.Hosted.start hstart hack).inMessages hin).flushMessages hflush
  cases status with
  | disconnected vals =>
    cases hs
    exact h
  | block vals =>
    cases hs
    exact h
  | ok vals =>
    obtain ⟨t, hnuke, hs⟩ := bind_eq_ok.mp hs
    cases hs
    exact (h.nukeSession hnuke).insert hsession rfl

end Shard

theorem Control.step_hosts {s s' : Control} {e : Control.Event} (h : s.shard.Hosts)
    (hs : s.step e = some s') : s'.shard.Hosts := by
  cases e with
  | connect args =>
    cases hs
    exact h
  | fail clientId e =>
    obtain ⟨socket, -, hs⟩ := Option.map_eq_some_iff.mp hs
    cases hs
    exact h
  | process =>
    cases hqueue : s.queue with
    | nil => simp [step, hqueue] at hs
    | cons req queue =>
      simp only [step, hqueue, toOption_eq_some] at hs
      cases req with
      | addSession args =>
        obtain ⟨shard, hadd, hs⟩ := bind_eq_ok.mp hs
        cases hs
        exact h.handleAddSession hadd
      | flushConnection socket e =>
        obtain ⟨shard, hflush, hs⟩ := bind_eq_ok.mp hs
        cases hs
        exact h.handleFlushConnection hflush
  | subscribe clientId sub =>
    obtain ⟨session, hget, hs⟩ := bind_eq_ok.mp (toOption_eq_some.mp hs)
    obtain ⟨⟨msgs, session₁, topicFilters⟩, hsub, hs⟩ := bind_eq_ok.mp hs
    obtain ⟨⟨session₂, status⟩, hin, hs⟩ := bind_eq_ok.mp hs
    cases hs
    have hsession : session.Hosted := h clientId session (ofOption_eq_ok.mp hget)
    exact h.insert ((hsession.doSubscribe hsub).inMessages hin) rfl
  | drop clientId e =>
    obtain ⟨shard, hshard, hs⟩ := Option.map_eq_some_iff.mp hs
    cases hs
    exact h.dropConnection (toOption_eq_some.mp hshard)

/-- The sessions of a shard at any time are such sessions. -/
theorem Control.run_hosts {config : Config} {shardId : UInt32} {events : List Control.Event}
    {s : Control} (hrun : Transition.run step (spawn config shardId) events = some s) :
    s.shard.Hosts := by
  refine Transition.run_invariant (P := fun s => s.shard.Hosts) (fun _ _ _ h hs => step_hosts h hs) ?_
    hrun
  intro c sess hc
  simp [spawn, Shard.spawn] at hc

/-- The subscription identifiers of a PUBLISH. -/
def Publish.subscriptionIds (self : Publish) : List VarU32 :=
  (self.properties.map PublishProperties.subscribtionIdentifier).getD []

/-- The properties of a PUBLISH but for the subscription identifiers. -/
def Publish.otherProperties (self : Publish) : PublishProperties :=
  { self.properties.getD {} with subscribtionIdentifier := [] }

theorem Publish.addSubscriptionId_spec (self : Publish) (id : Option UInt32) :
    (self.addSubscriptionId id).subscriptionIds =
        self.subscriptionIds ++ (id.map VarU32.mk).toList ∧
      (self.addSubscriptionId id).otherProperties = self.otherProperties ∧
      ((self.addSubscriptionId id).properties = none ↔ self.properties = none ∧ id = none) ∧
      self.addSubscriptionId id =
        { self with properties := (self.addSubscriptionId id).properties } := by
  unfold Publish.addSubscriptionId
  cases id with
  | none => simp
  | some id =>
    cases hprops : self.properties with
    | none => simp [subscriptionIds, otherProperties, hprops]
    | some props => simp [subscriptionIds, otherProperties, hprops]

theorem QoS.rank_min (a b : QoS) : (a.min b).rank = Nat.min a.rank b.rank := by
  cases a <;> cases b <;> rfl

namespace Session

/-- What the `i`th message holds: the PUBLISH for the `i`th subscription, under the number and the packet
identifier that are `i` places ahead. -/
def FansOut (s : Session) (clientId : ClientID) (shardId : UInt32) (publish : Publish) (i : ℕ)
    (subscr : Subscription) (msg : Message) : Prop :=
  ∃ (seqno : UInt64) (packetId : UInt16) (q : Publish),
    msg = .packet clientId shardId seqno packetId [] (.publish q) ∧
    seqno.toNat = min (s.cout.seqno.toNat + i) (2 ^ 64 - 1) ∧
    packetId.toNat = (s.cout.nextPacketId.toNat - 1 + i) % 65535 + 1 ∧ packetId ≠ 0 ∧
    q.packetId = some packetId ∧ q.topicName = publish.topicName ∧ q.payload = publish.payload ∧
    q.qos.rank =
      min (min s.config.mqttMaximumQos.toNat subscr.qos.rank) publish.qos.rank ∧
    q.retain = (subscr.retainAsPublished && publish.retain) ∧ q.duplicate = false ∧
    q.subscriptionIds = publish.subscriptionIds ++ (subscr.subscriptionId.map VarU32.mk).toList ∧
    q.otherProperties = publish.otherProperties ∧
    (q.properties = none ↔ publish.properties = none ∧ subscr.subscriptionId = none)

theorem publishFor_fansOut {s : Session} {serverQos : QoS} (hid : s.cout.nextPacketId ≠ 0)
    (hqos : s.config.serverQos = .ok serverQos) (clientId : ClientID) (shardId : UInt32)
    (publish : Publish) (i : ℕ) (subscr : Subscription) :
    s.FansOut clientId shardId publish i subscr
      (publishFor (s.afterMessages i) clientId shardId serverQos publish subscr).1 := by
  have hnext := afterMessages_packetId hid i
  have hne : (s.afterMessages i).cout.nextPacketId ≠ 0 := by
    intro hzero
    rw [hzero] at hnext
    exact absurd hnext (Nat.succ_ne_zero _).symm
  have hmax : serverQos.rank = s.config.mqttMaximumQos.toNat := QoS.rank_of_tryFrom hqos
  obtain ⟨hids, hother, hnone, heq⟩ := Publish.addSubscriptionId_spec
    ((publish.setFixedHeader (subscr.retainAsPublished && publish.retain)
      ((serverQos.min subscr.qos).min publish.qos) false).setPacketId
        (s.afterMessages i).cout.nextPacketId) subscr.subscriptionId
  refine ⟨_, _, _, rfl, afterMessages_seqno s i, hnext, hne, ?_, ?_, ?_, ?_, ?_, ?_, hids, hother,
    hnone⟩
  · rw [heq]
    rfl
  · rw [heq]
    rfl
  · rw [heq]
    rfl
  · rw [heq, ← hmax]
    exact (QoS.rank_min _ _).trans (congrArg (fun n => min n publish.qos.rank) (QoS.rank_min _ _))
  · rw [heq]
    rfl
  · rw [heq]
    rfl

/-- A session makes one message of a routed PUBLISH for each subscription, in their order, each with the
next numbers. -/
theorem coutPublish_fansOut {s : Session} (h : s.Hosted) (clientId : ClientID) (shardId : UInt32)
    (seqno : UInt64) (packetId : UInt16) (subscriptions : List Subscription) (publish : Publish) :
    ∃ msgs s', s.coutPublish
        (.packet clientId shardId seqno packetId subscriptions (.publish publish)) = .ok (msgs, s') ∧
      msgs.length = subscriptions.length ∧
      (∀ (i : ℕ) (subscr : Subscription), subscriptions[i]? = some subscr →
        ∃ msg, msgs[i]? = some msg ∧ s.FansOut clientId shardId publish i subscr msg) ∧
      s'.cout.seqno.toNat = min (s.cout.seqno.toNat + subscriptions.length) (2 ^ 64 - 1) ∧
      s'.cout.nextPacketId.toNat =
        (s.cout.nextPacketId.toNat - 1 + subscriptions.length) % 65535 + 1 := by
  obtain ⟨⟨serverQos, hqos⟩, hid⟩ := h.running
  refine ⟨_, _, by rw [coutPublish_eq, hqos, ok_bind], by simp, ?_, afterMessages_seqno s _,
    afterMessages_packetId hid _⟩
  intro i subscr hsubscr
  refine ⟨_, ?_, publishFor_fansOut hid hqos clientId shardId publish i subscr⟩
  rw [List.getElem?_mapIdx, hsubscr]
  rfl

theorem coutPublish_fansOut_two :
    ∃ s connAck, start ⟨"alice"⟩ "10.0.0.1:1" {} (Control.plainArgs "alice" "").pkt = .ok s ∧
      s.successAck (Control.plainArgs "alice" "").pkt = .ok connAck ∧
      ∃ msgs s', s.coutPublish forTwoSubscriptions = .ok (msgs, s') ∧ msgs.length = 2 := by
  obtain ⟨s, hs⟩ := exists_of_isOk
    (x := start ⟨"alice"⟩ "10.0.0.1:1" {} (Control.plainArgs "alice" "").pkt) (by decide)
  obtain ⟨connAck, hack⟩ : ∃ connAck, s.successAck (Control.plainArgs "alice" "").pkt = .ok connAck := by
    cases hs
    exact ⟨_, rfl⟩
  obtain ⟨msgs, s', hout, hlen, -⟩ := coutPublish_fansOut (.start hs hack) ⟨"bob"⟩ 0 1 0
    [⟨⟨"news"⟩, ⟨"alice"⟩, 0, none, .atMostOnce, false, false, .onEverySubscribe⟩,
      ⟨⟨"#"⟩, ⟨"alice"⟩, 0, none, .atMostOnce, false, false, .onEverySubscribe⟩]
    ⟨false, .atMostOnce, false, ⟨"news"⟩, none, none, none⟩
  exact ⟨s, connAck, hs, hack, msgs, s', hout, hlen⟩

end Session
end Mqtr
