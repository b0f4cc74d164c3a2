import Mqtr.Core.Multimap
import Mqtr.Trie.Node
import Mqtr.Wire.Packet

/-! Settings, bounded queues, and the messages that shards exchange. An `unreachable!()`, a
`todo!()` or a failed `unwrap` of the source is `panic`. -/
namespace Mqtr
open Outcome Std

/-- The settings that sessions and shards read. A field that is not set has a default, which the
function of the source's name gives. -/
structure Config where
  name : String := "poc"
  maxPacketSize : Option UInt32 := none
  pktBatchSize : Option UInt32 := none
  keepAlive : Option UInt32 := none
  keepAliveFactor : Option Float32 := none
  receiveMaximum : Option UInt16 := none
  sessionExpiryInterval : Option UInt32 := none
  maximumQos : Option UInt8 := none
  retainAvailable : Option Bool := none
  topicAliasMax : Option UInt16 := none
  ignoreDuplicate : Option Bool := none

namespace Config

def defMqttFlushTimeout : UInt32 := 10
def defMqttPktBatchSize : UInt32 := 1024
def defMqttKeepAliveFactor : Float32 := 1.5
def defMqttReceiveMaximum : UInt16 := 256
def defMqttMaxQos : UInt8 := 1
def defMqttRetainAvailable : Bool := true
def defMqttIgnoreDuplicate : Bool := true

/-- A setting whose value is limited; a larger one aborts. -/
def limited (setting : Option UInt32) (default : UInt32) : Result UInt32 :=
  match setting with
  | some val => if val > 268435456 then .panic else .ok val
  | none => .ok default

/-- The default is the one of another setting, the flush timeout. -/
def mqttMaxPacketSize (self : Config) : Result UInt32 :=
  limited self.maxPacketSize defMqttFlushTimeout

def mqttPktBatchSize (self : Config) : Result UInt32 :=
  limited self.pktBatchSize defMqttPktBatchSize

def mqttKeepAlive (self : Config) : Option UInt32 :=
  match self.keepAlive with
  | some 0 | none => none
  | some val => some val

def mqttKeepAliveFactor (self : Config) : Float32 :=
  self.keepAliveFactor.getD defMqttKeepAliveFactor

def mqttReceiveMaximum (self : Config) : UInt16 := self.receiveMaximum.getD defMqttReceiveMaximum

def mqttSessionExpiryInterval (self : Config) (connect : Option UInt32) : Option UInt32 :=
  match connect with
  | some interval => some interval
  | none => self.sessionExpiryInterval

def mqttMaximumQos (self : Config) : UInt8 := self.maximumQos.getD defMqttMaxQos

def mqttRetainAvailable (self : Config) : Bool := self.retainAvailable.getD defMqttRetainAvailable

def mqttTopicAliasMax (self : Config) : Option UInt16 :=
  match self.topicAliasMax with
  | some 0 => none
  | val => val

def mqttIgnoreDuplicate (self : Config) : Bool := self.ignoreDuplicate.getD defMqttIgnoreDuplicate

/-- The configured maximum as a quality of service; a value above 2 aborts. -/
def serverQos (self : Config) : Result QoS := (QoS.tryFrom self.mqttMaximumQos).unwrap

end Config

/-- What a queue did with a batch, and the values it did not deal with. -/
inductive QueueStatus (α : Type) where
  | ok (vals : List α)
  | block (vals : List α)
  | disconnected (vals : List α)
  deriving DecidableEq, Repr

def QueueStatus.values {α : Type} : QueueStatus α → List α
  | .ok vals | .block vals | .disconnected vals => vals

/-- What is left of a status after `take_values`. -/
def QueueStatus.emptied {α : Type} : QueueStatus α → QueueStatus α
  | .ok _ => .ok []
  | .block _ => .block []
  | .disconnected _ => .disconnected []

/-- The sending end of a bounded queue: how many values it takes, and whether it is closed rather
than full after that. -/
structure SendQueue where
  room : ℕ
  closed : Bool
  deriving DecidableEq, Repr

def SendQueue.trySends {α : Type} (queue : SendQueue) (vals : List α) : QueueStatus α :=
  if vals.length ≤ queue.room then .ok []
  else if queue.closed then .disconnected (vals.drop queue.room)
  else .block (vals.drop queue.room)

namespace QoS

def rank : QoS → ℕ
  | .atMostOnce => 0
  | .atLeastOnce => 1
  | .exactlyOnce => 2

def min (a b : QoS) : QoS := if b.rank < a.rank then b else a

def max (a b : QoS) : QoS := if b.rank < a.rank then a else b

end QoS

inductive Message where
  | localAck (shardId : UInt32) (lastReceivedAck : UInt64)
  | packet (clientId : ClientID) (shardId : UInt32) (seqno : UInt64) (packetId : UInt16)
      (subscriptions : List Subscription) (packet : Packet)
  | clientAck (packet : Packet)
  deriving DecidableEq, Repr

namespace Message

def intoPacket : Message → Result Packet
  | .clientAck pkt => .ok pkt
  | .packet _ _ _ _ _ pkt => .ok pkt
  | .localAck _ _ => .panic

/-- The client of the first subscription, not the sending one. -/
def asClientId : Message → Result ClientID
  | .packet _ _ _ _ (subscr :: _) _ => .ok subscr.clientId
  | _ => .panic

end Message

/-- The requests to the cluster thread that concern retained messages. -/
inductive ClusterRequest where
  | setRetainTopic (publish : Publish)
  | resetRetainTopic (topicName : TopicName)
  deriving DecidableEq, Repr

def saturatingSucc (n : UInt64) : UInt64 := if n = 0xFFFFFFFFFFFFFFFF then n else n + 1

instance : Ord ClientID := ⟨fun a b => compare a.val b.val⟩

instance : TransOrd ClientID := inferInstanceAs (TransCmp (compareOn ClientID.val))

instance : LawfulEqOrd ClientID where
  eq_of_compare {a b} h := by
    have hval : a.val = b.val := LawfulEqCmp.eq_of_compare (show compare a.val b.val = .eq from h)
    cases a
    exact congrArg ClientID.mk hval

instance : Ord TopicFilter := ⟨fun a b => compare a.val b.val⟩

instance : TransOrd TopicFilter := inferInstanceAs (TransCmp (compareOn TopicFilter.val))

instance : LawfulEqOrd TopicFilter where
  eq_of_compare {a b} h := by
    have hval : a.val = b.val := LawfulEqCmp.eq_of_compare (show compare a.val b.val = .eq from h)
    cases a
    exact congrArg TopicFilter.mk hval

instance : Ord TopicName := ⟨fun a b => compare a.val b.val⟩

instance : TransOrd TopicName := inferInstanceAs (TransCmp (compareOn TopicName.val))

instance : LawfulEqOrd TopicName where
  eq_of_compare {a b} h := by
    have hval : a.val = b.val := LawfulEqCmp.eq_of_compare (show compare a.val b.val = .eq from h)
    cases a
    exact congrArg TopicName.mk hval

end Mqtr
