import Mqtr.Broker.Message

/-! The session of a connected client: from its CONNECT to the packets that go out to it. -/
namespace Mqtr
open Outcome Std

namespace Connect

def sessionExpiryInterval (self : Connect) : Option UInt32 :=
  self.properties.bind ConnectProperties.sessionExpiryInterval

def receiveMaximum (self : Connect) : UInt16 :=
  (self.properties.bind ConnectProperties.receiveMaximum).getD 65535

end Connect

structure WillMessage where
  retain : Bool
  qos : QoS
  properties : WillProperties
  topic : TopicName
  payload : List UInt8
  deriving DecidableEq, Repr

/-- The will that the flags announce; its parts are unwrapped. -/
def WillMessage.ofConnect (pkt : Connect) : Result (Option WillMessage) := do
  let (_, wflag, qos, retain) ← pkt.flags.unwrap
  if wflag then do
    let properties ← ofOption pkt.payload.willProperties
    let topic ← ofOption pkt.payload.willTopic
    let payload ← ofOption pkt.payload.willPayload
    .ok (some ⟨retain, qos, properties, topic, payload⟩)
  else .ok none

/-- `KeepAlive::new`, the seconds that a client may be silent. -/
def keepAliveInterval (pkt : Connect) (config : Config) : Option UInt16 :=
  let factor := config.mqttKeepAliveFactor
  match config.mqttKeepAlive with
  | some val => some (val.toFloat32 * factor).toUInt16
  | none =>
    if pkt.keepAlive = 0 then none else some (pkt.keepAlive.toFloat32 * factor).toUInt16

/-- Book-keeping of the messages on their way to a client. -/
structure ClientOut where
  seqno : UInt64
  index : ExtTreeMap UInt16 Message
  nextPacketId : UInt16
  backLog : List Message

structure Session where
  clientId : ClientID
  addr : String
  clientReceiveMaximum : UInt16
  sessionExpiryInterval : Option UInt32
  config : Config
  willMessage : Option WillMessage
  keepAlive : Option UInt16
  topicAliases : ExtTreeMap UInt16 TopicName
  qos1 : List UInt16
  qos2 : List UInt16
  subscriptions : ExtTreeMap TopicFilter Subscription
  cout : ClientOut

/-- The QoS bits, the two flags, and the retain handling of a subscription. -/
def SubscriptionOpt.unwrap (self : SubscriptionOpt) :
    Result (RetainForwardRule × Bool × Bool × QoS) := do
  let qos ← (QoS.tryFrom (self.val &&& SubscriptionOpt.maximumQos)).unwrap
  let noLocal : Bool := self.val &&& 0b00000100 > 0
  let retainAsPublished : Bool := self.val &&& 0b00001000 > 0
  -- the option is shifted and then masked, so that the rule is always the first one
  let rule ← match (self.val >>> 4) &&& SubscriptionOpt.retainHandling with
    | 0 => .ok RetainForwardRule.onEverySubscribe
    | 1 => .ok RetainForwardRule.onNewSubscribe
    | 2 => .ok RetainForwardRule.never
    | _ => .panic
  .ok (rule, retainAsPublished, noLocal, qos)

namespace Session

def start (clientId : ClientID) (addr : String) (config : Config) (pkt : Connect) :
    Result Session := do
  let willMessage ← WillMessage.ofConnect pkt
  .ok {
    clientId := clientId
    addr := addr
    clientReceiveMaximum := pkt.receiveMaximum
    sessionExpiryInterval := config.mqttSessionExpiryInterval pkt.sessionExpiryInterval
    config := config
    willMessage := willMessage
    keepAlive := keepAliveInterval pkt config
    topicAliases := ∅
    qos1 := []
    qos2 := []
    subscriptions := ∅
    cout := ⟨1, ∅, 1, []⟩ }

def successAck (self : Session) (pkt : Connect) : Result ConnAck := do
  let maximumQos ← self.config.serverQos
  let maxPacketSize ← self.config.mqttMaxPacketSize
  let props : ConnAckProperties := {
    sessionExpiryInterval := self.sessionExpiryInterval
    receiveMaximum := some self.config.mqttReceiveMaximum
    maximumQos := some maximumQos
    retainAvailable := some self.config.mqttRetainAvailable
    maxPacketSize := some maxPacketSize
    assignedClientIdentifier :=
      if pkt.payload.clientId.val = "" then some self.clientId.val else none
    wildcardSubscriptionAvailable := some true
    subscriptionIdentifiersAvailable := some true
    topicAliasMax := self.config.mqttTopicAliasMax
    serverKeepAlive := self.keepAlive }
  .ok ⟨⟨0⟩, .success, some props⟩

/-- The sequence number and the packet identifier of the next message; identifiers skip zero. -/
def incrCoutSeqno (self : Session) : (UInt64 × UInt16) × Session :=
  let next := self.cout.nextPacketId + 1
  ((self.cout.seqno, self.cout.nextPacketId),
    { self with cout := { self.cout with
        seqno := saturatingSucc self.cout.seqno
        nextPacketId := if next = 0 then 1 else next } })

/-- The message for one of the client's subscriptions. -/
def publishFor (self : Session) (clientId : ClientID) (shardId : UInt32) (serverQos : QoS)
    (publish : Publish) (subscr : Subscription) : Message × Session :=
  let retain := subscr.retainAsPublished && publish.retain
  let qos := (serverQos.min subscr.qos).min publish.qos
  let ((seqno, packetId), self) := self.incrCoutSeqno
  let publish := (publish.setFixedHeader retain qos false).setPacketId packetId
  let publish := publish.addSubscriptionId subscr.subscriptionId
  (.packet clientId shardId seqno packetId [] (.publish publish), self)

/-- `Message::cout_publish`: one message for each subscription. -/
def coutPublish (self : Session) (msg : Message) : Result (List Message × Session) :=
  match msg with
  | .packet clientId shardId _ _ subscriptions (.publish publish) => do
    let serverQos ← self.config.serverQos
    .ok (subscriptions.foldl (fun (msgs, self) subscr =>
      let (msg, self) := publishFor self clientId shardId serverQos publish subscr
      (msgs ++ [msg], self)) ([], self))
  | _ => .panic

def pushBackLog (self : Session) (msgs : List Message) : Session :=
  { self with cout := { self.cout with backLog := self.cout.backLog ++ msgs } }

def inMessage (self : Session) (msg : Message) : Result Session :=
  match msg with
  | .clientAck _ => .ok (self.pushBackLog [msg])
  | .packet _ _ _ _ _ _ => do
    let (msgs, self) ← self.coutPublish msg
    .ok (self.pushBackLog msgs)
  | .localAck _ _ => .panic

/-- A client whose back log grows beyond twice the batch size counts as disconnected. -/
def inMessages (self : Session) (msgs : List Message) :
    Result (Session × QueueStatus Message) := do
  let self ← msgs.foldlM inMessage self
  let size ← self.config.mqttPktBatchSize
  if self.cout.backLog.length > size.toNat * 2 then .ok (self, .disconnected [])
  else .ok (self, .ok [])

/-- Book a message as in flight, under its packet identifier. -/
def bookInflight (index : ExtTreeMap UInt16 Message) (msg : Message) : ExtTreeMap UInt16 Message :=
  match msg with
  | .packet _ _ _ packetId _ _ => index.insert packetId msg
  | .clientAck _ | .localAck _ _ => index

/-- What is booked is cut from the end of the back log, as many messages as the queue did not take;
the messages before them go back to the back log. -/
def flushMessages (self : Session) (queue : SendQueue) :
    Result (Session × QueueStatus Packet) :=
  if self.cout.index.size > self.clientReceiveMaximum.toNat then .ok (self, .block [])
  else do
    let msgs := self.cout.backLog
    let pkts ← msgs.mapM Message.intoPacket
    let status := queue.trySends pkts
    let (msgs, okMsgs) := msgs.splitAt (msgs.length - status.values.length)
    let index := okMsgs.foldl bookInflight self.cout.index
    .ok ({ self with cout := { self.cout with index := index, backLog := msgs } }, status.emptied)

/-- Subscribe one filter of a SUBSCRIBE, in the trie and in the session. -/
def subscribeFilter (shardId : UInt32) (subscriptionId : Option UInt32)
    (state : List SubAckReasonCode × Session × Inner Subscription) (filter : SubscribeFilter) :
    Result (List SubAckReasonCode × Session × Inner Subscription) := do
  let (returnCodes, self, topicFilters) := state
  let (rule, retainAsPublished, noLocal, qos) ← filter.opt.unwrap
  let subscription : Subscription :=
    ⟨filter.topicFilter, self.clientId, shardId, subscriptionId, qos, noLocal, retainAsPublished,
      rule⟩
  let topicFilters ← ofOption (topicFilters.doSubscribe filter.topicFilter subscription)
  let self : Session :=
    { self with subscriptions := self.subscriptions.insert filter.topicFilter subscription }
  let serverQos ← self.config.serverQos
  let code := match serverQos.max qos with
    | .atMostOnce => .qos0
    | .atLeastOnce => .qos1
    | .exactlyOnce => .qos2
  .ok (returnCodes ++ [code], self, topicFilters)

def doSubscribe (self : Session) (shardId : UInt32) (topicFilters : Inner Subscription)
    (sub : Subscribe) : Result (List Message × Session × Inner Subscription) := do
  let subscriptionId := (sub.properties.bind SubscribeProperties.subscriptionId).map VarU32.val
  let (returnCodes, self, topicFilters) ←
    sub.filters.foldlM (subscribeFilter shardId subscriptionId) ([], self, topicFilters)
  .ok ([.clientAck (.subAck ⟨sub.packetId, none, returnCodes⟩)], self, topicFilters)

/-- Unsubscribe everything that the session has subscribed. -/
def removeTopicFilters (self : Session) (topicFilters : Inner Subscription) :
    Result (Inner Subscription) :=
  ofOption <| self.subscriptions.toList.foldlM
    (fun (inner : Inner Subscription) (entry : TopicFilter × Subscription) =>
      inner.doUnsubscribe entry.1 entry.2) topicFilters

/-- The session of a client that has just connected. -/
def idle (clientId : String) : Session where
  clientId := ⟨clientId⟩
  addr := "10.0.0.1:1"
  clientReceiveMaximum := 65535
  sessionExpiryInterval := none
  config := {}
  willMessage := none
  keepAlive := none
  topicAliases := ∅
  qos1 := []
  qos2 := []
  subscriptions := ∅
  cout := ⟨1, ∅, 1, []⟩

end Session
end Mqtr
