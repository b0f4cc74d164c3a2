import Mqtr.Broker.Session

/-! A shard, the connection table of the I/O thread beside it, and the requests it serves. Posts to
the flusher thread are kept in a list. -/
namespace Mqtr
open Outcome Std

/-- Book-keeping of the messages that come in from the clients of a shard. -/
structure ClientInp where
  seqno : UInt64
  unacks : ExtTreeMap UInt64 Message
  timestamp : ExtTreeMap UInt32 (UInt64 × UInt64)

/-- Forget the messages on their way to a client. -/
def ClientInp.removeSession (self : ClientInp) (clientId : ClientID) : Result ClientInp := do
  let removed ← self.unacks.toList.filterM fun (entry : UInt64 × Message) => do
    let id ← entry.2.asClientId
    .ok (decide (id = clientId))
  .ok { self with unacks := removed.foldl (fun unacks entry => unacks.erase entry.1) self.unacks }

structure Socket where
  clientId : ClientID
  addr : String
  token : ℕ
  deriving DecidableEq, Repr

/-- The table of connections. A socket is found under its own client. -/
structure Miot where
  conns : ExtTreeMap ClientID Socket
  nextToken : ℕ
  owned : ∀ (c : ClientID) (socket : Socket), conns[c]? = some socket → socket.clientId = c

namespace Miot

/-- `FIRST_TOKEN` is 2. -/
def spawn : Miot := ⟨∅, 2, fun c socket h => by simp at h⟩

/-- The connection gets the next token; one that is there for the client is replaced. -/
def handleAddConnection (self : Miot) (clientId : ClientID) (addr : String) : Miot where
  conns := self.conns.insert clientId ⟨clientId, addr, self.nextToken⟩
  nextToken := self.nextToken + 1
  owned c socket h := by
    rw [ExtTreeMap.getElem?_insert] at h
    split_ifs at h with hc
    · cases h
      exact LawfulEqCmp.eq_of_compare hc
    · exact self.owned c socket h

def handleRemoveConnection (self : Miot) (clientId : ClientID) : Option Socket × Miot :=
  (self.conns[clientId]?,
    { self with
      conns := self.conns.erase clientId
      owned := fun c socket h => by
        rw [ExtTreeMap.getElem?_erase] at h
        split_ifs at h
        exact self.owned c socket h })

end Miot

structure Shard where
  shardId : UInt32
  config : Config
  miot : Miot
  sessions : ExtTreeMap ClientID Session
  ackTimestamp : ExtTreeMap UInt32 UInt64
  shardBackLog : ExtTreeMap UInt32 (List Message)
  cinp : ClientInp
  topicFilters : Inner Subscription
  flushed : List (Socket × Error)

structure AddSessionArgs where
  addr : String
  pkt : Connect
  /-- The identifier that a client without one gets. -/
  uuid : ClientID
  deriving DecidableEq

/-- `ClientID::from_connect`. -/
def AddSessionArgs.clientId (args : AddSessionArgs) : ClientID :=
  if args.pkt.payload.clientId.val = "" then args.uuid else args.pkt.payload.clientId

namespace Shard

def spawn (config : Config) (shardId : UInt32) : Shard where
  shardId := shardId
  config := config
  miot := Miot.spawn
  sessions := ∅
  ackTimestamp := ∅
  shardBackLog := ∅
  cinp := ⟨1, ∅, ∅⟩
  topicFilters := Inner.default
  flushed := []

def shardPrefix (self : Shard) : String :=
  self.config.name ++ "-shard-main:" ++ toString self.shardId

def incrCinpSeqno (self : Shard) : UInt64 × Shard :=
  (self.cinp.seqno,
    { self with cinp := { self.cinp with seqno := saturatingSucc self.cinp.seqno } })

/-- An acknowledgement from a shard to which nothing was routed aborts. -/
def bookLocalAck (self : Shard) (shardId : UInt32) (lastReceived : UInt64) : Result Shard :=
  match self.cinp.timestamp[shardId]? with
  | some (routed, _) =>
    .ok { self with cinp := { self.cinp with
      timestamp := self.cinp.timestamp.insert shardId (routed, lastReceived) } }
  | none => .panic

def insertUnacks (self : Shard) (shardId : UInt32) (seqno : UInt64) (msg : Message) : Shard :=
  let received := (self.cinp.timestamp[shardId]?.map Prod.snd).getD 0
  { self with cinp := { self.cinp with
    unacks := self.cinp.unacks.insert seqno msg
    timestamp := self.cinp.timestamp.insert shardId (seqno, received) } }

/-- Take down the session of a connection, whichever session its client has now, and pass the socket
to the flusher. In the source the last call aborts: the shard's handle of the flusher is `Inner::Tx`, for
which `flush_connection` is `unreachable!`. What is `flushed` here is dropped there with the thread. -/
def handleFlushConnection (self : Shard) (socket : Socket) (err : Error) : Result Shard :=
  match self.sessions[socket.clientId]? with
  | some session => do
    let cinp ← self.cinp.removeSession session.clientId
    let topicFilters ← session.removeTopicFilters self.topicFilters
    .ok { self with
      sessions := self.sessions.erase socket.clientId
      cinp := cinp
      topicFilters := topicFilters
      flushed := self.flushed ++ [(socket, err)] }
  | none => .ok { self with flushed := self.flushed ++ [(socket, err)] }

/-- Ask the I/O thread for the connection of a client, and flush it if there is one. -/
def dropConnection (self : Shard) (clientId : ClientID) (err : Error) : Result Shard :=
  let (removed, miot) := self.miot.handleRemoveConnection clientId
  let self : Shard := { self with miot := miot }
  match removed with
  | some socket => self.handleFlushConnection socket err
  | none => .ok self

/-- A client that connects again takes over from its existing session. -/
def nukeSession (self : Shard) (clientId : ClientID) (addr : String) : Result Shard :=
  match self.sessions[clientId]? with
  | some session => do
    let topicFilters ← session.removeTopicFilters self.topicFilters
    let self : Shard :=
      { self with sessions := self.sessions.erase clientId, topicFilters := topicFilters }
    self.dropConnection clientId
      ⟨.sessionTakenOver, self.shardPrefix ++ " client " ++ addr, some .sessionTakenOver⟩
  | none => .ok self

/-- The CONNACK goes through a fresh queue of the batch size; unless it fits, nothing is added. -/
def handleAddSession (self : Shard) (args : AddSessionArgs) : Result Shard := do
  let clientId := args.clientId
  let size ← self.config.mqttPktBatchSize
  let session ← Session.start clientId args.addr self.config args.pkt
  let connAck ← session.successAck args.pkt
  let (session, _) ← session.inMessages [.clientAck (.connAck connAck)]
  let (session, status) ← session.flushMessages ⟨size.toNat, false⟩
  match status with
  | .disconnected _ | .block _ => .ok self
  | .ok _ => do
    let self ← self.nukeSession clientId args.addr
    .ok { self with
      miot := self.miot.handleAddConnection clientId args.addr
      sessions := self.sessions.insert clientId session }

/-- Group the matching subscriptions by client, without the publisher's own no-local ones. -/
def matchSubscribers (self : Shard) (sess : Session) (topicName : TopicName) :
    Result (ExtTreeMap ClientID (List Subscription) × Shard) := do
  let (matched, topicFilters) ← ofOption (self.topicFilters.matchTopicName topicName)
  let subscrs := Multimap.groupBy Subscription.clientId matched
  let subscrs ← match subscrs[sess.clientId]? with
    | some own => do
      let offs := Bisect.offsets Subscription.noLocal own
      let own ← ofOption (Bisect.removeEach own offs.reverse)
      .ok (subscrs.insert sess.clientId own)
    | none => .ok subscrs
  .ok (subscrs, { self with topicFilters := topicFilters })

/-- A message of QoS 1 is kept until it is acknowledged; QoS 2 is not implemented. -/
def bookUnacked (self : Shard) (qos : QoS) (shardId : UInt32) (seqno : UInt64) (msg : Message) :
    Result Shard :=
  match qos with
  | .atMostOnce => .ok self
  | .atLeastOnce => .ok (self.insertUnacks shardId seqno msg)
  | .exactlyOnce => .panic

/-- Queue a PUBLISH of a session's client for the shard of the subscriptions' client. -/
def routeToClient (self : Shard) (sess : Session) (subscrs : List Subscription) (publ : Publish) :
    Result Shard :=
  match subscrs with
  | [] => .panic
  | subscr :: _ => do
    let targetShardId := subscr.shardId
    let serverQos ← self.config.serverQos
    let thisShardId := self.shardId
    let (seqno, self) := self.incrCinpSeqno
    let msg := Message.packet sess.clientId thisShardId seqno 0 subscrs (.publish publ)
    let self ← self.bookUnacked (serverQos.min publ.qos) targetShardId seqno msg
    .ok { self with shardBackLog := Multimap.push self.shardBackLog targetShardId msg }

/-- Answer every shard from which something was received with the last number. -/
def ackMessages (self : Shard) : Shard :=
  { self with
    shardBackLog := self.ackTimestamp.toList.foldl (fun backLog entry =>
      Multimap.push backLog entry.1 (.localAck entry.1 entry.2)) self.shardBackLog
    ackTimestamp := ∅ }

/-- The smallest number that a shard has acknowledged, or the greatest number if there is none. -/
def lastReceivedAck (self : Shard) : UInt64 :=
  self.cinp.timestamp.toList.foldl (fun last entry => min last entry.2.2) 0xFFFFFFFFFFFFFFFF

/-- Forget, and return, the messages with smaller numbers than every shard has acknowledged. -/
def removeUnacks (self : Shard) : List Message × Shard :=
  let last := self.lastReceivedAck
  if last = 0xFFFFFFFFFFFFFFFF then ([], self)
  else
    let acked := self.cinp.unacks.toList.filter fun entry => entry.1 < last
    (acked.map Prod.snd, { self with cinp := { self.cinp with
      unacks := acked.foldl (fun unacks entry => unacks.erase entry.1) self.cinp.unacks } })

/-- `Shard::remove_session`. -/
def removeSession (self : Shard) (clientId : ClientID) : Result Shard := do
  let cinp ← self.cinp.removeSession clientId
  .ok { self with cinp := cinp }

/-- Take one received message: book an acknowledgement, or file a packet under the client it
names. -/
def partitionMessage (state : Shard × ExtTreeMap ClientID (List Message)) (msg : Message) :
    Result (Shard × ExtTreeMap ClientID (List Message)) :=
  let (self, sessionMsgs) := state
  match msg with
  | .localAck shardId lastReceivedAck => do
    let self ← self.bookLocalAck shardId lastReceivedAck
    .ok (self, sessionMsgs)
  | .packet clientId shardId seqno _ _ _ =>
    .ok ({ self with ackTimestamp := self.ackTimestamp.insert shardId seqno },
      Multimap.push sessionMsgs clientId msg)
  | .clientAck _ => .panic

/-- A shard on its way through a batch: the calls of `Session::in_messages` made so far, and the
clients that turned out slow. -/
structure Delivery where
  shard : Shard
  handed : List (ClientID × List Message)
  disconnecteds : List ClientID

/-- Hand a client's messages to its session, if it has one. -/
def handToSession (state : Delivery) (entry : ClientID × List Message) : Result Delivery :=
  let (clientId, msgs) := entry
  match state.shard.sessions[clientId]? with
  | some session => do
    let (session, status) ← session.inMessages msgs
    let disconnecteds := match status with
      | .disconnected _ => state.disconnecteds ++ [clientId]
      | _ => state.disconnecteds
    .ok { shard := { state.shard with sessions := state.shard.sessions.insert clientId session }
          handed := state.handed ++ [(clientId, msgs)]
          disconnecteds := disconnecteds }
  | none => .ok state

def dropSlow (self : Shard) (clientId : ClientID) : Result Shard :=
  self.dropConnection clientId ⟨.slowClient, self.shardPrefix ++ " slow", some .unspecifiedError⟩

/-- `in_messages` on a batch that was received; the calls made to sessions are returned too. -/
def inMessages (self : Shard) (msgs : List Message) : Result Delivery := do
  let (self, sessionMsgs) ← msgs.foldlM partitionMessage (self, ∅)
  let delivery ← sessionMsgs.toList.foldlM handToSession ⟨self, [], []⟩
  let self ← delivery.disconnecteds.foldlM dropSlow delivery.shard
  .ok { delivery with shard := self }

end Shard
end Mqtr
