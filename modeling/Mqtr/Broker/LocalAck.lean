import Mqtr.Broker.Network

/-! Local acknowledgements. A shard keeps the QoS 1 messages that it has routed until every shard to which
it routes has acknowledged a later number. The acknowledgement names the shard for which it is meant,
not the one that sends it, and it is given for messages of QoS 0 too. -/
namespace Mqtr
open Outcome Std

/-- A packet of the shard with the number. -/
def Message.Numbered (a : UInt32) (n : UInt64) : Message → Prop
  | .packet _ shardId seqno _ _ _ => shardId = a ∧ seqno = n
  | .localAck _ _ | .clientAck _ => False

def Message.targetShard : Message → Option UInt32
  | .packet _ _ _ _ (subscr :: _) _ => some subscr.shardId
  | _ => none

theorem Message.Numbered.unique {msg : Message} {a a' : UInt32} {n n' : UInt64}
    (h : msg.Numbered a n) (h' : msg.Numbered a' n') : n = n' := by
  cases msg with
  | packet => exact h.2.symm.trans h'.2
  | localAck => exact h.elim
  | clientAck => exact h.elim

namespace Shard

/-- `book_local_ack` finds an entry for the message, if it is an acknowledgement. -/
def Takeable (self : Shard) : Message → Prop
  | .localAck shardId _ => shardId ∈ self.cinp.timestamp
  | .packet _ _ _ _ _ _ => True
  | .clientAck _ => False

theorem partitionMessage_isOk {s : Shard} (groups : ExtTreeMap ClientID (List Message))
    {msg : Message} (h : s.Takeable msg) : ∃ state, partitionMessage (s, groups) msg = .ok state := by
  cases msg with
  | localAck shardId last =>
    obtain ⟨entry, hentry⟩ := Option.isSome_iff_exists.mp
      (ExtTreeMap.isSome_getElem?_iff_mem.mpr h)
    simp [partitionMessage, bookLocalAck, hentry]
  | packet => exact ⟨_, rfl⟩
  | clientAck => exact h.elim

theorem partition_isOk {s : Shard} (groups : ExtTreeMap ClientID (List Message))
    {msgs : List Message} (h : ∀ msg ∈ msgs, s.Takeable msg) :
    ∃ state, msgs.foldlM partitionMessage (s, groups) = .ok state := by
  induction msgs generalizing s groups with
  | nil => exact ⟨_, rfl⟩
  | cons msg msgs ih =>
    obtain ⟨⟨t, g⟩, ht⟩ := partitionMessage_isOk groups (h msg (by simp))
    have hkeys := (partitionMessage_keeps ht).timestamp
    have hrest : ∀ m ∈ msgs, t.Takeable m := by
      intro m hm
      have htake := h m (by simp [hm])
      cases m with
      | localAck shardId last => exact hkeys shardId htake
      | packet => trivial
      | clientAck => exact htake
    obtain ⟨state, hstate⟩ := ih g hrest
    exact ⟨state, by rw [List.foldlM_cons]; exact bind_eq_ok.mpr ⟨_, ht, hstate⟩⟩

theorem lastReceivedAck_le {s : Shard} {b : UInt32} {routed received : UInt64}
    (h : s.cinp.timestamp[b]? = some (routed, received)) : s.lastReceivedAck ≤ received := by
  have hfold : ∀ (l : List (UInt32 × UInt64 × UInt64)) (init : UInt64),
      l.foldl (fun last entry => min last entry.2.2) init ≤ init ∧
        ∀ e ∈ l, l.foldl (fun last entry => min last entry.2.2) init ≤ e.2.2 := by
    intro l
    induction l with
    | nil => simp
    | cons e l ih =>
      intro init
      obtain ⟨hle, hmem⟩ := ih (min init e.2.2)
      rw [List.foldl_cons]
      refine ⟨UInt64.le_trans hle Std.min_le_left, fun e' he' => ?_⟩
      rcases List.mem_cons.mp he' with rfl | he'
      · exact UInt64.le_trans hle Std.min_le_right
      · exact hmem e' he'
  exact (hfold _ _).2 (b, routed, received)
    (ExtTreeMap.mem_toList_iff_getElem?_eq_some.mpr h)

end Shard

namespace Network

/-- The shard for which the message is meant has it from `a`. -/
def Delivered (s : Network) (a : UInt32) (msg : Message) : Prop :=
  ∃ b, msg.targetShard = some b ∧ (a, msg) ∈ s.received b

/-- Every acknowledgement finds an entry, and there is one for the shard that sent it; an entry that
leaves `unacks` has been delivered, or the session of its publisher is removed. -/
structure LocalAckSafe (s : Network) (event : NetworkEvent) : Prop where
  finds : ∀ a, event = .inMessages a → (s.step event).isSome ∧
    ∀ b id last, (b, Message.localAck id last) ∈ s.inbox a → b ∈ (s.shards a).cinp.timestamp
  leaves : ∀ s', s.step event = some s' → ∀ (a : UInt32) (k : UInt64) (msg : Message),
    (s.shards a).cinp.unacks[k]? = some msg → (s'.shards a).cinp.unacks[k]? ≠ some msg →
      s.Delivered a msg ∨ ∃ c, msg.sender = some c ∧ event = .removeSession a c

/-- The message is kept until it is acknowledged. -/
def Kept (s : Network) (a : UInt32) (publ : Publish) : Prop :=
  ∀ serverQos, (s.shards a).config.serverQos = .ok serverQos →
    serverQos.min publ.qos = .atLeastOnce

/-- A shard routes only when it has an entry in `timestamp` for itself and for the target, or makes
one, and numbers are left; a session is removed when what is on its way to the client is from the
client. -/
def Disciplined (s : Network) : NetworkEvent → Prop
  | .routeToClient a _ subscrs publ =>
    (s.shards a).cinp.seqno ≠ 0xFFFFFFFFFFFFFFFF ∧ ∀ subscr ∈ subscrs.head?,
      (a ∈ (s.shards a).cinp.timestamp ∨ subscr.shardId = a ∧ s.Kept a publ) ∧
      (subscr.shardId ∈ (s.shards a).cinp.timestamp ∨ s.Kept a publ)
  | .removeSession a clientId => ∀ (k : UInt64) (msg : Message),
    (s.shards a).cinp.unacks[k]? = some msg → msg.asClientId = .ok clientId →
      msg.sender = some clientId
  | .ackMessages _ | .flushToShards _ | .trySend _ | .tryRecv _ | .inMessages _ | .removeUnacks _ =>
    True

/-- As the shards are started. -/
structure Fresh (s : Network) : Prop extends s.Start where
  shardId : ∀ a, (s.shards a).shardId = a
  cinp : ∀ a, (s.shards a).cinp = ⟨1, ∅, ∅⟩
  ackTimestamp : ∀ a, (s.shards a).ackTimestamp = ∅

theorem spawn_fresh (config : Config) (size : ℕ) : (spawn config size).Fresh where
  toStart := spawn_start config size
  shardId _ := rfl
  cinp _ := rfl
  ackTimestamp _ := rfl

theorem lt_saturatingSucc {n : UInt64} (h : n ≠ 0xFFFFFFFFFFFFFFFF) : n < saturatingSucc n := by
  unfold saturatingSucc
  rw [if_neg h]
  exact UInt64.lt_add_one h

theorem le_saturatingSucc (n : UInt64) : n ≤ saturatingSucc n := by
  by_cases h : n = 0xFFFFFFFFFFFFFFFF
  · simp [saturatingSucc, h]
  · exact UInt64.le_of_lt (lt_saturatingSucc h)

end Network

/-- Numbers go up, and entries in `timestamp` stay. -/
structure Shard.Ahead (s s' : Shard) : Prop where
  seqno : s.cinp.seqno ≤ s'.cinp.seqno
  timestamp : ∀ b ∈ s.cinp.timestamp, b ∈ s'.cinp.timestamp

namespace Network
variable {s s' : Network} {event : NetworkEvent}

theorem ahead_of_eq {shard shard' : Shard} (hseqno : shard'.cinp.seqno = shard.cinp.seqno)
    (htime : shard'.cinp.timestamp = shard.cinp.timestamp) : shard.Ahead shard' :=
  ⟨hseqno ▸ UInt64.le_refl _, fun _ hb => htime ▸ hb⟩

theorem ahead_update {shards : UInt32 → Shard} {a : UInt32} {shard : Shard}
    (h : (shards a).Ahead shard) (i : UInt32) : (shards i).Ahead (Function.update shards a shard i) :=
  (Function.forall_update_iff shards fun i shard => (shards i).Ahead shard).mpr
    ⟨h, fun _ _ => ahead_of_eq rfl rfl⟩ i

theorem subset_update_append {f : UInt32 → List (UInt32 × Message)} (a : UInt32)
    (l : List (UInt32 × Message)) (i : UInt32) : f i ⊆ Function.update f a (f a ++ l) i :=
  (Function.forall_update_iff f fun i msgs => f i ⊆ msgs).mpr
    ⟨List.subset_append_left _ _, fun _ _ => List.Subset.refl _⟩ i

structure Grows (s s' : Network) : Prop where
  received : ∀ b, s.received b ⊆ s'.received b
  appended : ∀ a, s.appended a ⊆ s'.appended a
  shards : ∀ a, (s.shards a).Ahead (s'.shards a)

theorem routeToClient_ahead {shard shard' : Shard} {sess : Session} {subscr : Subscription}
    {subscrs : List Subscription} {publ : Publish}
    (h : shard.routeToClient sess (subscr :: subscrs) publ = .ok shard') : shard.Ahead shard' := by
  obtain ⟨_, _, _, -, rfl, ⟨-, -, rfl⟩ | ⟨-, -, rfl⟩⟩ := Shard.routeToClient_cases h
  · exact ⟨le_saturatingSucc _, fun _ hb => hb⟩
  · exact ⟨le_saturatingSucc _, fun _ hb => OrdMap.mem_insert.mpr (.inr hb)⟩

theorem Takes.grows (h : s.Takes event s') : s.Grows s' := by
  have hrefl (f : UInt32 → List (UInt32 × Message)) (i : UInt32) : f i ⊆ f i := List.Subset.refl _
  cases h with
  | routed idle routes =>
    exact ⟨hrefl _, subset_update_append _ _, ahead_update (routeToClient_ahead routes)⟩
  | acked idle => exact ⟨hrefl _, subset_update_append _ _, ahead_update (ahead_of_eq rfl rfl)⟩
  | flushed idle => exact ⟨hrefl _, hrefl _, ahead_update (ahead_of_eq rfl rfl)⟩
  | reindexed turn refused => exact ⟨hrefl _, hrefl _, ahead_update (ahead_of_eq rfl rfl)⟩
  | sent turn room => exact ⟨hrefl _, hrefl _, fun a => ahead_of_eq rfl rfl⟩
  | received front within => exact ⟨subset_update_append _ _, hrefl _, fun a => ahead_of_eq rfl rfl⟩
  | booked books =>
    have hkeeps := Shard.partition_keeps books
    exact ⟨hrefl _, hrefl _, ahead_update ⟨hkeeps.seqno ▸ UInt64.le_refl _, hkeeps.timestamp⟩⟩
  | cleared a =>
    obtain ⟨_, heq, -⟩ := Shard.removeUnacks_cases (s.shards a)
    rw [heq]
    exact ⟨hrefl _, hrefl _, ahead_update (ahead_of_eq rfl rfl)⟩
  | removed removes =>
    obtain ⟨_, rfl, -⟩ := Shard.removeSession_cases removes
    exact ⟨hrefl _, hrefl _, ahead_update (ahead_of_eq rfl rfl)⟩

/-- The shard `b` has the packet of `a` with the number. -/
def Got (s : Network) (b a : UInt32) (n : UInt64) : Prop :=
  ∃ msg, (a, msg) ∈ s.received b ∧ msg.Numbered a n

/-- What `a` may append for a shard: a packet with a number that has been given, for a shard with an entry
in `timestamp`, or an acknowledgement of something it has got. -/
def Vouched (s : Network) (a : UInt32) (e : UInt32 × Message) : Prop :=
  (∃ n, e.2.Numbered a n ∧ n < (s.shards a).cinp.seqno ∧ a ∈ (s.shards a).cinp.timestamp ∧
      e.1 ∈ (s.shards a).cinp.timestamp) ∨
    ∃ n, e.2 = .localAck e.1 n ∧ s.Got a e.1 n

/-- The books of the shard `a`. No other entry than its own in `timestamp` is ever acknowledged. -/
structure Books (s : Network) (a : UInt32) (shard : Shard) : Prop where
  shardId : shard.shardId = a
  acks : ∀ (b : UInt32) (n : UInt64), shard.ackTimestamp[b]? = some n → s.Got a b n
  stamps : ∀ (b : UInt32) (routed received : UInt64),
    shard.cinp.timestamp[b]? = some (routed, received) →
      received = 0 ∨ b = a ∧ ∃ c, s.Got c a received
  unacks : ∀ (k : UInt64) (msg : Message), shard.cinp.unacks[k]? = some msg →
    msg.Numbered a k ∧ ∃ b, msg.targetShard = some b ∧ (b, msg) ∈ s.appended a

def InOrder (e e' : UInt32 × Message) : Prop :=
  ∀ a n n', e.2.Numbered a n → e'.2.Numbered a n' → n < n'

structure Inv (s : Network) : Prop where
  relay : Relay.Inv s.relay
  books : ∀ a, s.Books a (s.shards a)
  vouched : ∀ a, ∀ e ∈ s.appended a, s.Vouched a e
  order : ∀ a, (s.appended a).Pairwise InOrder
  inbox : ∀ b, s.inbox b ⊆ s.received b

theorem Got.mono {a b : UInt32} {n : UInt64} (h : s.Got b a n) (hg : s.Grows s') : s'.Got b a n := by
  obtain ⟨msg, hmsg, hn⟩ := h
  exact ⟨msg, hg.received b hmsg, hn⟩

theorem Vouched.mono {a : UInt32} {e : UInt32 × Message} (h : s.Vouched a e) (hg : s.Grows s') :
    s'.Vouched a e := by
  rcases h with ⟨n, hn, hlt, hown, htarget⟩ | ⟨n, hack, hgot⟩
  · exact .inl ⟨n, hn, UInt64.lt_of_lt_of_le hlt (hg.shards a).seqno, (hg.shards a).timestamp a hown,
      (hg.shards a).timestamp e.1 htarget⟩
  · exact .inr ⟨n, hack, hgot.mono hg⟩

theorem Books.mono {a : UInt32} {shard : Shard} (h : s.Books a shard) (hg : s.Grows s') :
    s'.Books a shard where
  shardId := h.shardId
  acks b n hn := (h.acks b n hn).mono hg
  stamps b routed received hb := by
    rcases h.stamps b routed received hb with hzero | ⟨hown, c, hgot⟩
    · exact .inl hzero
    · exact .inr ⟨hown, c, hgot.mono hg⟩
  unacks k msg hk := by
    obtain ⟨hn, b, hb, hmem⟩ := h.unacks k msg hk
    exact ⟨hn, b, hb, hg.appended a hmem⟩

theorem Books.update {shards : UInt32 → Shard} {a : UInt32} {shard : Shard}
    (h : ∀ i, s.Books i (shards i)) (ha : s.Books a shard) (i : UInt32) :
    s.Books i (Function.update shards a shard i) :=
  (Function.forall_update_iff shards fun i shard => s.Books i shard).mpr ⟨ha, fun i _ => h i⟩ i

/-- Only acknowledged numbers and the back log change. -/
theorem Books.of_cinp {a : UInt32} {shard shard' : Shard} (h : s.Books a shard)
    (hid : shard'.shardId = shard.shardId) (hcinp : shard'.cinp = shard.cinp)
    (hacks : ∀ (b : UInt32) (n : UInt64), shard'.ackTimestamp[b]? = some n →
      shard.ackTimestamp[b]? = some n) : s.Books a shard' where
  shardId := hid.trans h.shardId
  acks b n hn := h.acks b n (hacks b n hn)
  stamps := hcinp ▸ h.stamps
  unacks := hcinp ▸ h.unacks

theorem Books.shrink {a : UInt32} {shard shard' : Shard} {unacks : ExtTreeMap UInt64 Message}
    {reason : UInt64 → Message → Prop} (h : s.Books a shard)
    (heq : shard' = { shard with cinp := { shard.cinp with unacks := unacks } })
    (hshrinks : Shard.Shrinks shard.cinp.unacks unacks reason) : s.Books a shard' := by
  subst heq
  exact ⟨h.shardId, h.acks, h.stamps, fun k msg hk => h.unacks k msg (hshrinks.sub k msg hk)⟩

/-- One message of a batch: an acknowledgement is booked for the shard itself. -/
theorem Books.take {a c : UInt32} {shard shard' : Shard} {msg : Message}
    {groups groups' : ExtTreeMap ClientID (List Message)} (h : s.Books a shard)
    (hm : (c, msg) ∈ s.received a) (hv : s.Vouched c (a, msg))
    (htake : Shard.partitionMessage (shard, groups) msg = .ok (shard', groups')) :
    s.Books a shard' := by
  obtain ⟨id, last, routed, received, rfl, -, rfl⟩ |
    ⟨clientId, shardId, seqno, packetId, subscrs, pkt, rfl, rfl⟩ :=
      Shard.partitionMessage_cases htake
  · obtain ⟨n, hn, -⟩ | ⟨n, hack, hgot⟩ := hv
    · exact hn.elim
    · obtain ⟨hid, rfl⟩ : id = a ∧ last = n := Message.localAck.inj hack
      subst hid
      refine ⟨h.shardId, h.acks, fun b routed' received' hb => ?_, h.unacks⟩
      rw [OrdMap.getElem?_insert] at hb
      split_ifs at hb with hown
      · cases hb
        exact .inr ⟨hown.symm, c, hgot⟩
      · exact h.stamps b routed' received' hb
  · obtain ⟨n, ⟨rfl, rfl⟩, -⟩ | ⟨n, hack, -⟩ := hv
    · refine ⟨h.shardId, fun b n hn => ?_, h.stamps, h.unacks⟩
      rw [OrdMap.getElem?_insert] at hn
      split_ifs at hn with hsender
      · cases hn
        subst hsender
        exact ⟨_, hm, rfl, rfl⟩
      · exact h.acks b n hn
    · cases hack

theorem Books.route {a : UInt32} {shard shard' : Shard} {sess : Session} {subscr : Subscription}
    {subscrs : List Subscription} {publ : Publish} (h : s.Books a shard)
    (hroute : shard.routeToClient sess (subscr :: subscrs) publ = .ok shard')
    (happ : (subscr.shardId, shard.routedMessage sess (subscr :: subscrs) publ) ∈ s.appended a) :
    s.Books a shard' := by
  obtain ⟨_, _, _, -, rfl, ⟨-, rfl, rfl⟩ | ⟨-, rfl, rfl⟩⟩ := Shard.routeToClient_cases hroute
  · exact ⟨h.shardId, h.acks, h.stamps, h.unacks⟩
  · refine ⟨h.shardId, h.acks, fun b routed received hb => ?_, fun k msg hk => ?_⟩
    · rw [OrdMap.getElem?_insert] at hb
      split_ifs at hb with htarget
      · cases hb
        subst htarget
        -- the number that the target has acknowledged is kept, and is zero for a new one
        cases hold : shard.cinp.timestamp[subscr.shardId]? with
        | none => exact .inl rfl
        | some old => exact h.stamps subscr.shardId old.1 old.2 hold
      · exact h.stamps b routed received hb
    · rw [OrdMap.getElem?_insert] at hk
      split_ifs at hk with hnew
      · cases hk
        exact ⟨⟨h.shardId, hnew⟩, subscr.shardId, rfl, happ⟩
      · exact h.unacks k msg hk

theorem Inv.vouched_received (h : s.Inv) {a b : UInt32} {msg : Message}
    (hm : (a, msg) ∈ s.received b) : s.Vouched a (b, msg) :=
  h.vouched a _ (h.relay.mem_appended hm)

theorem Vouched.of_numbered {a a' : UInt32} {e : UInt32 × Message} {n : UInt64} (h : s.Vouched a e)
    (hn : e.2.Numbered a' n) : n < (s.shards a).cinp.seqno ∧ a ∈ (s.shards a).cinp.timestamp ∧
      e.1 ∈ (s.shards a).cinp.timestamp := by
  obtain ⟨m, hm, hlt, hown, htarget⟩ | ⟨m, hack, -⟩ := h
  · obtain rfl := hn.unique hm
    exact ⟨hlt, hown, htarget⟩
  · rw [hack] at hn
    exact hn.elim

theorem vouched_append {appended : UInt32 → List (UInt32 × Message)} {a : UInt32}
    {l : List (UInt32 × Message)} (h : ∀ i, ∀ e ∈ appended i, s.Vouched i e)
    (hl : ∀ e ∈ l, s.Vouched a e) (i : UInt32) :
    ∀ e ∈ Function.update appended a (appended a ++ l) i, s.Vouched i e :=
  (Function.forall_update_iff appended fun i msgs => ∀ e ∈ msgs, s.Vouched i e).mpr
    ⟨List.forall_mem_append.mpr ⟨h a, hl⟩, fun i _ => h i⟩ i

/-- What a shard appends comes in order after what it has vouched for, if its numbers are new. -/
theorem Inv.order_append (h : s.Inv) {a : UInt32} {l : List (UInt32 × Message)}
    (hl : l.Pairwise InOrder)
    (hnew : ∀ e ∈ l, ∀ a' n, e.2.Numbered a' n → (s.shards a).cinp.seqno ≤ n) (i : UInt32) :
    (Function.update s.appended a (s.appended a ++ l) i).Pairwise InOrder := by
  refine (Function.forall_update_iff s.appended fun _ msgs => msgs.Pairwise InOrder).mpr
    ⟨List.pairwise_append.mpr ⟨h.order a, hl, fun e he e' he' a' n n' hn hn' => ?_⟩,
      fun i _ => h.order i⟩ i
  exact UInt64.lt_of_lt_of_le ((h.vouched a e he).of_numbered hn).1 (hnew e' he' a' n' hn')

/-- A message that is kept makes an entry for its target. -/
theorem Kept.entry {a : UInt32} {shard : Shard} {sess : Session} {subscr : Subscription}
    {subscrs : List Subscription} {publ : Publish} (h : s.Kept a publ)
    (hroute : (s.shards a).routeToClient sess (subscr :: subscrs) publ = .ok shard) :
    subscr.shardId ∈ shard.cinp.timestamp := by
  obtain ⟨serverQos, _, _, hserver, rfl, ⟨hqos, -, -⟩ | ⟨-, -, rfl⟩⟩ :=
    Shard.routeToClient_cases hroute
  · rw [h serverQos hserver] at hqos
    cases hqos
  · exact ExtTreeMap.mem_insert_self

/-- What a disciplined shard routes is vouched for. -/
theorem routed_entries {a : UInt32} {shard : Shard} {sess : Session} {subscr : Subscription}
    {subscrs : List Subscription} {publ : Publish}
    (hG : s.Disciplined (.routeToClient a sess (subscr :: subscrs) publ))
    (hroute : (s.shards a).routeToClient sess (subscr :: subscrs) publ = .ok shard) :
    (s.shards a).cinp.seqno < shard.cinp.seqno ∧ a ∈ shard.cinp.timestamp ∧
      subscr.shardId ∈ shard.cinp.timestamp := by
  obtain ⟨hleft, hentries⟩ := hG
  obtain ⟨hown, htarget⟩ := hentries subscr rfl
  have hkeys := (routeToClient_ahead hroute).timestamp
  refine ⟨?_, ?_, ?_⟩
  · obtain ⟨_, _, _, -, rfl, -⟩ := Shard.routeToClient_cases hroute
    exact lt_saturatingSucc hleft
  · rcases hown with hown | ⟨heq, hkept⟩
    · exact hkeys a hown
    · exact heq ▸ hkept.entry hroute
  · rcases htarget with htarget | hkept
    · exact hkeys _ htarget
    · exact hkept.entry hroute

theorem numbered_routedMessage {a : UInt32} {shard : Shard} (h : shard.shardId = a) (sess : Session)
    (subscrs : List Subscription) (publ : Publish) :
    (shard.routedMessage sess subscrs publ).Numbered a shard.cinp.seqno :=
  ⟨h, rfl⟩

theorem mem_acks {shard : Shard} {e : UInt32 × Message} (h : e ∈ shard.acks) :
    ∃ n, e.2 = .localAck e.1 n ∧ shard.ackTimestamp[e.1]? = some n := by
  obtain ⟨entry, hentry, rfl⟩ := List.mem_map.mp h
  exact ⟨entry.2, rfl, ExtTreeMap.mem_toList_iff_getElem?_eq_some.mp hentry⟩

theorem inOrder_of_acks {shard : Shard} : shard.acks.Pairwise InOrder := by
  refine List.pairwise_of_forall_mem_list fun e he e' _ a n n' hn _ => ?_
  obtain ⟨_, hack, -⟩ := mem_acks he
  rw [hack] at hn
  exact hn.elim

/-- The books of a shard after a batch. -/
theorem Books.batch {a : UInt32} {shard shard' : Shard} {entries : List (UInt32 × Message)}
    {groups groups' : ExtTreeMap ClientID (List Message)} (h : s.Books a shard)
    (hentries : ∀ e ∈ entries, e ∈ s.received a ∧ s.Vouched e.1 (a, e.2))
    (hbatch : (entries.map Prod.snd).foldlM Shard.partitionMessage (shard, groups) =
      .ok (shard', groups')) : s.Books a shard' := by
  refine foldlM_invariant (P := fun state => s.Books a state.1) ?_ h hbatch
  rintro ⟨t, g⟩ msg hmsg ⟨t', g'⟩ ht htake
  obtain ⟨e, he, rfl⟩ := List.mem_map.mp hmsg
  obtain ⟨hreceived, hvouched⟩ := hentries e he
  exact ht.take hreceived hvouched htake

theorem step_inv (h : s.Inv) (hG : s.Disciplined event) (hs : s.step event = some s') : s'.Inv := by
  have htakes := step_takes hs
  have hg := htakes.grows
  have hrelay := step_relay_inv h.relay hs
  have hbooks (i : UInt32) : s'.Books i (s.shards i) := (h.books i).mono hg
  have hvouched : ∀ a, ∀ e ∈ s.appended a, s'.Vouched a e := fun a e he => (h.vouched a e he).mono hg
  cases htakes with
  | @routed a sess subscr subscrs publ shard idle routes =>
    obtain ⟨hseqno, hown, htarget⟩ := routed_entries hG routes
    have hnumbered := numbered_routedMessage (h.books a).shardId sess (subscr :: subscrs) publ
    refine ⟨hrelay, Books.update hbooks ((hbooks a).route routes ?_), vouched_append hvouched ?_,
      h.order_append (List.pairwise_singleton _ _) ?_, h.inbox⟩
    · simp [append]
    · rw [List.forall_mem_singleton]
      refine .inl ⟨_, hnumbered, ?_⟩
      simpa [setShard, append] using ⟨hseqno, hown, htarget⟩
    · rw [List.forall_mem_singleton]
      intro a' n hn
      rw [hn.unique (hnumbered)]
      exact UInt64.le_refl _
  | acked idle =>
    refine ⟨hrelay, Books.update hbooks ((hbooks _).of_cinp rfl rfl ?_),
      vouched_append hvouched fun e he => ?_,
      h.order_append inOrder_of_acks fun e he a' n hn => ?_, h.inbox⟩
    · simp [Shard.ackMessages]
    · obtain ⟨n, hack, hn⟩ := mem_acks he
      exact .inr ⟨n, hack, (hbooks _).acks e.1 n hn⟩
    · obtain ⟨_, hack, -⟩ := mem_acks he
      rw [hack] at hn
      exact hn.elim
  | flushed idle =>
    exact ⟨hrelay, Books.update hbooks ((hbooks _).of_cinp rfl rfl fun _ _ hn => hn), hvouched,
      h.order, h.inbox⟩
  | reindexed turn refused =>
    exact ⟨hrelay, Books.update hbooks ((hbooks _).of_cinp rfl rfl fun _ _ hn => hn), hvouched,
      h.order, h.inbox⟩
  | sent turn room => exact ⟨hrelay, hbooks, hvouched, h.order, h.inbox⟩
  | @received b entry rest front within =>
    refine ⟨hrelay, hbooks, hvouched, h.order, fun b' => ?_⟩
    by_cases hb : b' = b
    · subst hb
      simpa using List.Subset.trans (h.inbox b') (List.subset_append_left _ [entry])
    · simpa [Function.update_of_ne hb] using h.inbox b'
  | @booked b shard sessionMsgs books =>
    refine ⟨hrelay, Books.update hbooks ?_, hvouched, h.order, fun b' => ?_⟩
    · exact (hbooks _).batch (fun e he => ⟨h.inbox _ he, (h.vouched_received (h.inbox _ he)).mono hg⟩)
        books
    · by_cases hb : b' = b
      · simp [hb]
      · simpa [Function.update_of_ne hb, setShard] using h.inbox b'
  | cleared a =>
    obtain ⟨_, heq, hshrinks⟩ := Shard.removeUnacks_cases (s.shards a)
    exact ⟨hrelay, Books.update hbooks ((hbooks a).shrink heq hshrinks), hvouched, h.order, h.inbox⟩
  | removed removes =>
    obtain ⟨_, heq, hshrinks⟩ := Shard.removeSession_cases removes
    exact ⟨hrelay, Books.update hbooks ((hbooks _).shrink heq hshrinks), hvouched, h.order, h.inbox⟩

theorem Fresh.inv (h : s.Fresh) : s.Inv where
  relay := h.relay_inv
  books a :=
    { shardId := h.shardId a
      acks := by simp [h.ackTimestamp a]
      stamps := by simp [h.cinp a]
      unacks := by simp [h.cinp a] }
  vouched a := by simp [h.appended a]
  order a := by simp [h.appended a]
  inbox b := by simp [h.inbox b]

theorem Inv.entries_of_got (h : s.Inv) {a c : UInt32} {n : UInt64} (hgot : s.Got c a n) :
    a ∈ (s.shards a).cinp.timestamp ∧ c ∈ (s.shards a).cinp.timestamp := by
  obtain ⟨msg, hmsg, hn⟩ := hgot
  exact ((h.vouched_received hmsg).of_numbered hn).2

/-- An acknowledgement is for the shard that receives it, and for something that its sender has got. -/
theorem Inv.got_of_localAck (h : s.Inv) {a b id : UInt32} {last : UInt64}
    (hm : (b, Message.localAck id last) ∈ s.inbox a) : id = a ∧ s.Got b a last := by
  obtain ⟨n, hn, -⟩ | ⟨n, hack, hgot⟩ := h.vouched_received (h.inbox a hm)
  · exact hn.elim
  · obtain ⟨hid, rfl⟩ : id = a ∧ last = n := Message.localAck.inj hack
    exact ⟨hid, hgot⟩

theorem Inv.takeable (h : s.Inv) {a : UInt32} {e : UInt32 × Message} (he : e ∈ s.inbox a) :
    (s.shards a).Takeable e.2 := by
  obtain ⟨b, msg⟩ := e
  cases msg with
  | localAck id last =>
    obtain ⟨rfl, hgot⟩ := h.got_of_localAck he
    exact (h.entries_of_got hgot).1
  | packet => trivial
  | clientAck pkt =>
    obtain ⟨n, hn, -⟩ | ⟨n, hack, -⟩ := h.vouched_received (h.inbox a he)
    · exact hn
    · cases hack

theorem Inv.inMessages_isSome (h : s.Inv) (a : UInt32) : (s.step (.inMessages a)).isSome := by
  have htake : ∀ msg ∈ (s.inbox a).map Prod.snd, (s.shards a).Takeable msg := by
    intro msg hmsg
    obtain ⟨e, he, rfl⟩ := List.mem_map.mp hmsg
    exact h.takeable he
  obtain ⟨state, hstate⟩ := Shard.partition_isOk ∅ htake
  simp [step, hstate, toOption]

/-- A number below all acknowledged ones is below one that the shard has acknowledged to itself, and it
routes to no other shard. -/
theorem Inv.own_of_lt (h : s.Inv) {a b : UInt32} {k : UInt64}
    (hb : b ∈ (s.shards a).cinp.timestamp) (hk : k < (s.shards a).lastReceivedAck) :
    b = a ∧ ∃ last c, k < last ∧ s.Got c a last := by
  obtain ⟨⟨routed, received⟩, hentry⟩ := Option.isSome_iff_exists.mp
    (ExtTreeMap.isSome_getElem?_iff_mem.mpr hb)
  have hlt : k < received := UInt64.lt_of_lt_of_le hk (Shard.lastReceivedAck_le hentry)
  rcases (h.books a).stamps b routed received hentry with rfl | ⟨hown, c, hgot⟩
  · exact absurd hlt UInt64.not_lt_zero
  · exact ⟨hown, received, c, hlt, hgot⟩

theorem Inv.delivered_of_lt (h : s.Inv) {a : UInt32} {k : UInt64} {msg : Message}
    (hmsg : (s.shards a).cinp.unacks[k]? = some msg) (hk : k < (s.shards a).lastReceivedAck) :
    s.Delivered a msg := by
  obtain ⟨hn, b, htarget, happ⟩ := (h.books a).unacks k msg hmsg
  obtain ⟨-, -, hb⟩ := (h.vouched a _ happ).of_numbered hn
  obtain ⟨rfl, last, c, hlt, hgot⟩ := h.own_of_lt hb hk
  obtain ⟨rfl, -⟩ := h.own_of_lt (h.entries_of_got hgot).2 hk
  -- the acknowledged message came later, by the same queue
  obtain ⟨m, hm, hlast⟩ := hgot
  refine ⟨c, htarget, h.relay.received_of_not_after (h.order c) hm happ fun hafter => ?_⟩
  exact UInt64.lt_irrefl _ (UInt64.lt_trans hlt (hafter c last k hlast hn))

/-- What is kept has a number that was given. -/
theorem Inv.lt_seqno (h : s.Inv) {a : UInt32} {k : UInt64} {msg : Message}
    (hmsg : (s.shards a).cinp.unacks[k]? = some msg) : k < (s.shards a).cinp.seqno := by
  obtain ⟨hn, b, -, happ⟩ := (h.books a).unacks k msg hmsg
  exact ((h.vouched a _ happ).of_numbered hn).1

theorem gone_update {shards : UInt32 → Shard} {a i : UInt32} {shard : Shard} {k : UInt64}
    {msg : Message} (hmsg : (shards i).cinp.unacks[k]? = some msg)
    (hgone : (Function.update shards a shard i).cinp.unacks[k]? ≠ some msg) :
    i = a ∧ shard.cinp.unacks[k]? ≠ some msg := by
  by_cases hi : i = a
  · subst hi
    exact ⟨rfl, by simpa using hgone⟩
  · rw [Function.update_of_ne hi] at hgone
    exact absurd hmsg hgone

theorem Inv.leaves (h : s.Inv) (hG : s.Disciplined event) (htakes : s.Takes event s') {i : UInt32}
    {k : UInt64} {msg : Message} (hmsg : (s.shards i).cinp.unacks[k]? = some msg)
    (hgone : (s'.shards i).cinp.unacks[k]? ≠ some msg) :
    s.Delivered i msg ∨ ∃ c, msg.sender = some c ∧ event = .removeSession i c := by
  cases htakes with
  | routed idle routes =>
    obtain ⟨rfl, hout⟩ := gone_update hmsg hgone
    obtain ⟨_, _, _, -, rfl, ⟨-, rfl, -⟩ | ⟨-, rfl, -⟩⟩ := Shard.routeToClient_cases routes
    · exact absurd hmsg hout
    · -- a new number does not overwrite an entry
      have hne : (s.shards i).cinp.seqno ≠ k := fun heq =>
        UInt64.lt_irrefl _ (heq ▸ h.lt_seqno hmsg)
      rw [OrdMap.getElem?_insert, if_neg hne] at hout
      exact absurd hmsg hout
  | acked idle =>
    obtain ⟨rfl, hout⟩ := gone_update hmsg hgone
    exact absurd hmsg hout
  | flushed idle =>
    obtain ⟨rfl, hout⟩ := gone_update hmsg hgone
    exact absurd hmsg hout
  | reindexed turn refused =>
    obtain ⟨rfl, hout⟩ := gone_update hmsg hgone
    exact absurd hmsg hout
  | sent turn room => exact absurd hmsg hgone
  | received front within => exact absurd hmsg hgone
  | booked books =>
    obtain ⟨rfl, hout⟩ := gone_update hmsg hgone
    rw [(Shard.partition_keeps books).unacks] at hout
    exact absurd hmsg hout
  | cleared a =>
    obtain ⟨rfl, hout⟩ := gone_update hmsg hgone
    obtain ⟨_, heq, hshrinks⟩ := Shard.removeUnacks_cases (s.shards i)
    rw [heq] at hout
    exact .inl (h.delivered_of_lt hmsg (hshrinks.gone k msg hmsg hout))
  | removed removes =>
    obtain ⟨rfl, hout⟩ := gone_update hmsg hgone
    obtain ⟨_, rfl, hshrinks⟩ := Shard.removeSession_cases removes
    exact .inr ⟨_, hG k msg hmsg (hshrinks.gone k msg hmsg hout), rfl⟩

theorem Inv.localAckSafe (h : s.Inv) (hG : s.Disciplined event) : s.LocalAckSafe event where
  finds a ha := by
    subst ha
    exact ⟨h.inMessages_isSome a, fun b id last hm =>
      (h.entries_of_got (h.got_of_localAck hm).2).2⟩
  leaves _ hs _ _ _ hmsg hgone := h.leaves hG (step_takes hs) hmsg hgone

/-- Shards that are disciplined exchange acknowledgements safely. -/
theorem localAckSafe_of_disciplined {s₀ : Network} {events : List NetworkEvent} (hfresh : s₀.Fresh)
    (hG : Transition.Along step Disciplined s₀ events) :
    Transition.Along step LocalAckSafe s₀ events :=
  Transition.along_of_invariant (fun _ _ _ => step_inv) (fun _ _ => Inv.localAckSafe) hfresh.inv hG

theorem disciplined_publishNews {s : Network} {a : UInt32}
    (hserver : (s.shards a).config.serverQos = .ok .atLeastOnce)
    (hseqno : (s.shards a).cinp.seqno ≠ 0xFFFFFFFFFFFFFFFF) :
    s.Disciplined (publishNews a a .atLeastOnce) := by
  have hkept : ∀ publ : Publish, publ.qos = .atLeastOnce → s.Kept a publ := by
    intro publ hqos serverQos hs
    rw [hserver] at hs
    cases hs
    rw [hqos]
    rfl
  refine ⟨hseqno, fun subscr hsubscr => ?_⟩
  cases hsubscr
  exact ⟨.inr ⟨rfl, hkept _ rfl⟩, .inr (hkept _ rfl)⟩

/-- Two messages of a shard for itself, and their acknowledgement. -/
def ownExchange : List NetworkEvent :=
  [publishNews 1 1 .atLeastOnce, publishNews 1 1 .atLeastOnce, .flushToShards 1, .trySend 1,
    .trySend 1, .trySend 1, .tryRecv 1, .tryRecv 1, .inMessages 1, .ackMessages 1, .flushToShards 1,
    .trySend 1, .tryRecv 1, .inMessages 1, .removeUnacks 1]

/-- The first message leaves when the second one has been acknowledged. -/
theorem localAckSafe_of_disciplined_ownExchange :
    ∃ s, Transition.run step (spawn {} 4) ownExchange = some s ∧
      (s.shards 1).cinp.unacks[(1 : UInt64)]? = none ∧
      Transition.Along step LocalAckSafe (spawn {} 4) ownExchange := by
  have hleft : (Transition.run step (spawn {} 4) ownExchange).any fun s =>
      decide ((s.shards 1).cinp.unacks[(1 : UInt64)]? = none) := by
    decide
  have hfirst : (step (spawn {} 4) (publishNews 1 1 .atLeastOnce)).any fun s =>
      decide ((s.shards 1).config.serverQos = .ok .atLeastOnce) &&
        decide ((s.shards 1).cinp.seqno ≠ 0xFFFFFFFFFFFFFFFF) := by
    decide
  obtain ⟨s, hrun, hs⟩ := (Option.any_eq_true _ _).mp hleft
  obtain ⟨s₁, hs₁, hok⟩ := (Option.any_eq_true _ _).mp hfirst
  obtain ⟨hserver, hseqno⟩ := Bool.and_eq_true_iff.mp hok
  refine ⟨s, hrun, of_decide_eq_true hs, localAckSafe_of_disciplined (spawn_fresh {} 4) ?_⟩
  refine ⟨disciplined_publishNews (by decide) (by decide), ?_⟩
  rw [hs₁]
  refine ⟨disciplined_publishNews (of_decide_eq_true hserver) (of_decide_eq_true hseqno), ?_⟩
  -- what follows is disciplined in any state
  cases step s₁ (publishNews 1 1 .atLeastOnce) with
  | none => trivial
  | some t => exact Transition.along_of_forall fun _ => by simp [Disciplined]

/-- The message of one shard for another, and the acknowledgement on its way back. -/
def exchange : List NetworkEvent :=
  [publishNews 1 2 .atLeastOnce, .flushToShards 1, .trySend 1, .tryRecv 2, .inMessages 2,
    .ackMessages 2, .flushToShards 2, .trySend 2, .tryRecv 1]

/-- A shard aborts at the acknowledgement of what it has routed to another one. -/
theorem localAck_aborts :
    ¬ ∀ (s₀ : Network) (events : List NetworkEvent), s₀.Fresh →
      Transition.Along step LocalAckSafe s₀ events := by
  intro h
  have haborts : (Transition.run step (spawn {} 4) exchange).any fun s =>
      (s.step (.inMessages 1)).isNone := by
    decide
  obtain ⟨s, hrun, hs⟩ := (Option.any_eq_true _ _).mp haborts
  have hsafe := Transition.along_last (h _ (exchange ++ [.inMessages 1]) (spawn_fresh {} 4)) hrun
  have hsome := (hsafe.finds 1 rfl).1
  simp [Option.isNone_iff_eq_none.mp hs] at hsome

end Network
end Mqtr
