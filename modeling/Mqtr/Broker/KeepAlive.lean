import Mqtr.Broker.Publish
import Mqtr.Core.Transition
import Mqtr.Wire.EncodePacket

/-! The keep-alive of a session, and the routing of the packets that its client sends. A client that is
silent for longer than the interval of its session is to be disconnected. -/
namespace Mqtr
open Outcome

/-- Instants are in nanoseconds. -/
structure KeepAlive where
  logPrefix : String
  interval : Option UInt16
  aliveAt : ℕ
  deriving DecidableEq, Repr

namespace KeepAlive

def new (addr : String) (pkt : Connect) (config : Config) (now : ℕ) : KeepAlive :=
  ⟨addr ++ ":keepalive", keepAliveInterval pkt config, now⟩

/-- The error text calls the interval `now`. -/
def checkExpired (self : KeepAlive) (now : ℕ) : Result Unit :=
  match self.interval with
  | some interval =>
    let inst := self.aliveAt + interval.toNat * 10 ^ 9
    if inst < now then .ok ()
    else errCode .protocolError .keepAliveTimeout
      (self.logPrefix ++ " keep alive expired alive_at:" ++ toString self.aliveAt ++ " now:" ++
        toString interval ++ "s")
  | none => .ok ()

def live (self : KeepAlive) (now : ℕ) : KeepAlive := { self with aliveAt := now }

end KeepAlive

namespace Publishing

/-- A step on the session and the filters of the shard. -/
def subscribe (sub : Subscribe) : Stateful Publishing Error (List Message) :=
  Stateful.lift fun st => do
    let (msgs, session, topicFilters) ←
      st.session.doSubscribe st.shard.shardId st.shard.topicFilters sub
    .ok (msgs, { st with session := session, shard := { st.shard with topicFilters := topicFilters } })

/-- A packet that the client should not send. -/
def notExpected (pkt : Packet) : Stateful Publishing Error (List Message) :=
  Stateful.inspect fun st => errCode .protocolError .protocolError
    (st.session.logPrefix ++ " packet type " ++ pkt.toPacketType.debug ++
      " not expected from client")

def handlePacket (pkt : Packet) : Stateful Publishing Error (List Message) :=
  match pkt with
  | .pingReq => pure [.clientAck .pingReq]
  | .publish publish => doPublish publish
  | .subscribe sub => subscribe sub
  -- these are not implemented yet
  | .unSubscribe _ | .pubAck _ | .pubRec _ | .pubRel _ | .pubComp _ | .auth _ =>
    Stateful.inspect fun _ => .panic
  | .disconnect _ => Stateful.inspect fun st =>
    errCode .disconnected .success (st.session.logPrefix ++ " client disconnect")
  | .connect _ => Stateful.inspect fun st =>
    errCode .protocolError .protocolError (st.session.logPrefix ++ " duplicate connect packet")
  | .connAck _ | .subAck _ | .unsubAck _ | .pingResp => notExpected pkt

/-- The queue is the one to the client. -/
def handlePackets (queue : SendQueue) (pkts : List Packet) :
    Stateful Publishing Error (QueueStatus Packet) := do
  let msgs ← pkts.foldlM (fun msgs pkt => do
    let out ← handlePacket pkt
    pure (msgs ++ out)) []
  let status ← onSession fun session => do
    let (session, status) ← session.inMessages msgs
    .ok (status, session)
  match status with
  | .disconnected _ => pure (.disconnected [])
  | _ => onSession fun session => do
    let (session, status) ← session.flushMessages queue
    .ok (status, session)

end Publishing

/-- A session with its keep-alive, which nothing else of the session changes. -/
structure LiveSession where
  publishing : Publishing
  keepAlive : KeepAlive

namespace LiveSession

def live (now : ℕ) : Stateful LiveSession Error Unit := fun st =>
  (.ok (), { st with keepAlive := st.keepAlive.live now })

def onPublishing {α : Type} (x : Stateful Publishing Error α) : Stateful LiveSession Error α :=
  fun st =>
    let (out, publishing) := x st.publishing
    (out, { st with publishing := publishing })

/-- What is returned after the packets are handled. -/
def routeStatus : QueueStatus Packet → QueueStatus Packet → QueueStatus Packet
  | .disconnected _, _ => .disconnected []
  | _, .disconnected _ => .disconnected []
  | _, _ => .ok []

/-- A call at an instant, with what `try_recvs` gives it and the queue to the client. -/
def routePackets (now : ℕ) (received : QueueStatus Packet) (queue : SendQueue) :
    Stateful LiveSession Error (QueueStatus Packet) :=
  if received.values.isEmpty then do
    Stateful.inspect fun st => st.keepAlive.checkExpired now
    pure (.ok [])
  else do
    live now
    let status ← onPublishing (Publishing.handlePackets queue received.values)
    pure (routeStatus received status)

end LiveSession

/-- The error is not the one of a silent client. -/
def Error.NoTimeout (e : Error) : Prop := e.code ≠ some .keepAliveTimeout

theorem errCode_noTimeout {α : Type} (kind : ErrorKind) {code : ReasonCode} (text : String)
    (h : code ≠ .keepAliveTimeout) :
    (errCode kind code text : Result α).FailsWith Error.NoTimeout := by
  rintro e ⟨⟩
  exact fun hcode => h (Option.some.inj hcode)

theorem errDesc_noTimeout {α : Type} (kind : ErrorKind) (text : String) :
    (errDesc kind text : Result α).FailsWith Error.NoTimeout := by
  rintro e ⟨⟩
  exact fun hcode => by cases hcode

namespace Session

variable (self : Session)

theorem bookId_failsWith (ids : List UInt16) (packetId : Option UInt16) (P : Error → Prop) :
    (bookId ids packetId).FailsWith P := by
  refine (failsWith_ofOption _ P).bind fun id => (failsWith_ofOption _ P).bind fun found => ?_
  cases found with
  | ok off => exact failsWith_ok _ P
  | error off => exact (failsWith_ofOption _ P).bind fun _ => failsWith_ok _ P

theorem bookQos_noTimeout (publ : Publish) : (self.bookQos publ).FailsWith Error.NoTimeout := by
  refine (failsWith_unwrap _ _).bind fun serverQos => ?_
  split_ifs
  · exact errCode_noTimeout _ _ (by decide)
  · cases publ.qos with
    | atMostOnce => exact failsWith_ok _ _
    | atLeastOnce => exact (bookId_failsWith _ _ _).bind fun _ => failsWith_ok _ _
    | exactlyOnce => exact (bookId_failsWith _ _ _).bind fun _ => failsWith_ok _ _

theorem publishTopicName_noTimeout (publ : Publish) :
    (self.publishTopicName publ).FailsWith Error.NoTimeout := by
  unfold publishTopicName
  cases publ.topicAlias with
  | none =>
    dsimp only
    split_ifs
    · exact errCode_noTimeout _ _ (by decide)
    · exact failsWith_ok _ _
  | some topicAlias =>
    cases self.config.mqttTopicAliasMax with
    | none => exact errCode_noTimeout _ _ (by decide)
    | some aliasMax =>
      dsimp only
      split_ifs
      · exact errCode_noTimeout _ _ (by decide)
      · exact failsWith_ok _ _
      · cases self.topicAliases[topicAlias]? with
        | some topicName => exact failsWith_ok _ _
        | none => exact errCode_noTimeout _ _ (by decide)

theorem subscriptionOpt_unwrap_failsWith (opt : SubscriptionOpt) (P : Error → Prop) :
    opt.unwrap.FailsWith P := by
  refine (failsWith_unwrap _ P).bind fun qos => ?_
  dsimp only
  split
  · exact failsWith_ok _ P
  · exact failsWith_ok _ P
  · exact failsWith_ok _ P
  · exact failsWith_panic P

theorem subscribeFilter_failsWith (shardId : UInt32) (subscriptionId : Option UInt32)
    (state : List SubAckReasonCode × Session × Inner Subscription) (filter : SubscribeFilter)
    (P : Error → Prop) : (subscribeFilter shardId subscriptionId state filter).FailsWith P := by
  refine (subscriptionOpt_unwrap_failsWith filter.opt P).bind fun opt => ?_
  refine (failsWith_ofOption _ P).bind fun topicFilters => ?_
  exact (failsWith_unwrap _ P).bind fun _ => failsWith_ok _ P

theorem doSubscribe_failsWith (shardId : UInt32) (topicFilters : Inner Subscription)
    (sub : Subscribe) (P : Error → Prop) :
    (self.doSubscribe shardId topicFilters sub).FailsWith P :=
  (failsWith_foldlM (fun _ _ => subscribeFilter_failsWith _ _ _ _ P) _ _).bind
    fun _ => failsWith_ok _ P

theorem coutPublish_failsWith (msg : Message) (P : Error → Prop) :
    (self.coutPublish msg).FailsWith P := by
  unfold coutPublish
  split
  · exact (failsWith_unwrap _ P).bind fun _ => failsWith_ok _ P
  · exact failsWith_panic P

theorem inMessages_failsWith (msgs : List Message) (P : Error → Prop) :
    (self.inMessages msgs).FailsWith P := by
  have hin (s : Session) (msg : Message) : (s.inMessage msg).FailsWith P := by
    cases msg with
    | clientAck pkt => exact failsWith_ok _ P
    | packet => exact (s.coutPublish_failsWith _ P).bind fun _ => failsWith_ok _ P
    | localAck => exact failsWith_panic P
  refine (failsWith_foldlM hin msgs self).bind fun s => ?_
  have hsize : s.config.mqttPktBatchSize.FailsWith P := by
    unfold Config.mqttPktBatchSize Config.limited
    cases s.config.pktBatchSize with
    | none => exact failsWith_ok _ P
    | some val =>
      dsimp only
      split_ifs
      · exact failsWith_panic P
      · exact failsWith_ok _ P
  refine hsize.bind fun size => ?_
  split_ifs
  · exact failsWith_ok _ P
  · exact failsWith_ok _ P

theorem flushMessages_failsWith (queue : SendQueue) (P : Error → Prop) :
    (self.flushMessages queue).FailsWith P := by
  have hinto (msg : Message) : msg.intoPacket.FailsWith P := by
    cases msg with
    | clientAck pkt => exact failsWith_ok _ P
    | packet => exact failsWith_ok _ P
    | localAck => exact failsWith_panic P
  unfold flushMessages
  split_ifs
  · exact failsWith_ok _ P
  · exact (failsWith_mapM hinto _).bind fun _ => failsWith_ok _ P

end Session

namespace Publishing

theorem onSession_failsWith {α : Type} {f : Session → Result (α × Session)} {P : Error → Prop}
    (h : ∀ session, (f session).FailsWith P) : Stateful.FailsWith (onSession f) P :=
  Stateful.failsWith_lift fun st => (h st.session).bind fun _ => failsWith_ok _ P

theorem post_noTimeout (req : ClusterRequest) (cluster : ClusterTx) :
    (ClusterTx.post req cluster).1.FailsWith Error.NoTimeout := by
  unfold ClusterTx.post
  cases cluster.link with
  | up => exact failsWith_ok _ _
  | closed => exact errDesc_noTimeout _ _
  | unwakeable text => exact errDesc_noTimeout _ _

theorem bookRetain_noTimeout (publ : Publish) :
    Stateful.FailsWith (bookRetain publ) Error.NoTimeout := by
  intro st e t h
  unfold bookRetain at h
  by_cases hrefused : (publ.retain && !st.session.config.mqttRetainAvailable) = true
  · rw [if_pos hrefused] at h
    exact errCode_noTimeout _ _ (by decide) e (Prod.mk.inj h).1
  · rw [if_neg hrefused] at h
    by_cases hretain : publ.retain = true
    · rw [if_pos hretain] at h
      exact post_noTimeout _ _ e (Prod.mk.inj h).1
    · rw [if_neg hretain] at h
      cases h

theorem doPublish_noTimeout (publ : Publish) :
    Stateful.FailsWith (doPublish publ) Error.NoTimeout := by
  intro st e t h
  obtain ⟨-, hretain | ⟨u, -, ⟨hqos, -⟩ | ⟨b, session, -, htopic, -⟩⟩⟩ := doPublish_eq_err.mp h
  · exact bookRetain_noTimeout publ st e t hretain
  · exact Session.bookQos_noTimeout _ publ e hqos
  · exact Session.publishTopicName_noTimeout _ publ e htopic

theorem handlePacket_noTimeout (pkt : Packet) :
    Stateful.FailsWith (handlePacket pkt) Error.NoTimeout := by
  have hunexpected (p : Packet) : Stateful.FailsWith (notExpected p) Error.NoTimeout :=
    Stateful.failsWith_inspect fun _ => errCode_noTimeout _ _ (by decide)
  have htodo : Stateful.FailsWith (Stateful.inspect fun _ => .panic :
      Stateful Publishing Error (List Message)) Error.NoTimeout :=
    Stateful.failsWith_inspect fun _ => failsWith_panic _
  cases pkt with
  | pingReq => exact Stateful.failsWith_pure _
  | publish publish => exact doPublish_noTimeout publish
  | subscribe sub =>
    exact Stateful.failsWith_lift fun st =>
      (st.session.doSubscribe_failsWith _ _ sub _).bind fun _ => failsWith_ok _ _
  | disconnect _ => exact Stateful.failsWith_inspect fun _ => errCode_noTimeout _ _ (by decide)
  | connect _ => exact Stateful.failsWith_inspect fun _ => errCode_noTimeout _ _ (by decide)
  | connAck _ => exact hunexpected _
  | subAck _ => exact hunexpected _
  | unsubAck _ => exact hunexpected _
  | pingResp => exact hunexpected _
  | unSubscribe _ => exact htodo
  | pubAck _ => exact htodo
  | pubRec _ => exact htodo
  | pubRel _ => exact htodo
  | pubComp _ => exact htodo
  | auth _ => exact htodo

theorem handlePackets_noTimeout (queue : SendQueue) (pkts : List Packet) :
    Stateful.FailsWith (handlePackets queue pkts) Error.NoTimeout := by
  refine (Stateful.failsWith_foldlM (fun msgs pkt => ?_) pkts []).bind fun msgs => ?_
  · exact (handlePacket_noTimeout pkt).bind fun _ => Stateful.failsWith_pure _
  have hin (session : Session) := (session.inMessages_failsWith msgs Error.NoTimeout).bind
    fun r => failsWith_ok (r.2, r.1) _
  have hflush (session : Session) := (session.flushMessages_failsWith queue Error.NoTimeout).bind
    fun r => failsWith_ok (r.2, r.1) _
  refine (onSession_failsWith hin).bind fun status => ?_
  cases status with
  | disconnected vals => exact Stateful.failsWith_pure _
  | ok vals => exact onSession_failsWith hflush
  | block vals => exact onSession_failsWith hflush

end Publishing

/-- The interval in nanoseconds. -/
def KeepAlive.span (self : KeepAlive) : Option ℕ := self.interval.map fun secs => secs.toNat * 10 ^ 9

/-- A call of `route_packets`: its instant, whether it found no packets, and whether it failed with
`KeepAliveTimeout`. -/
structure RouteCall where
  instant : ℕ
  idle : Bool
  timedOut : Bool
  deriving DecidableEq, Repr

namespace RouteCall

/-- The instant of the last call that found packets, or else of the start. -/
def lastServed (start : ℕ) (hist : List RouteCall) : ℕ :=
  hist.foldl (fun last call => if call.idle then last else call.instant) start

theorem lastServed_concat (start : ℕ) (hist : List RouteCall) (call : RouteCall) :
    lastServed start (hist ++ [call]) =
      if call.idle then lastServed start hist else call.instant := by
  simp [lastServed]

/-- The law of the keep-alive: a call that finds no packets fails exactly if the interval has passed. -/
def Punctual (span : Option ℕ) (start : ℕ) (hist : List RouteCall) (call : RouteCall) : Prop :=
  call.idle = true →
    (call.timedOut = true ↔ ∃ k, span = some k ∧ lastServed start hist + k < call.instant)

/-- All that a call does, from one time of life to the next. -/
inductive Acts (span : Option ℕ) : ℕ → RouteCall → ℕ → Prop
  | serves {aliveAt instant : ℕ} : Acts span aliveAt ⟨instant, false, false⟩ instant
  | unlimited {aliveAt instant : ℕ} (h : span = none) :
      Acts span aliveAt ⟨instant, true, false⟩ aliveAt
  | fails {aliveAt instant k : ℕ} (h : span = some k) (hle : instant ≤ aliveAt + k) :
      Acts span aliveAt ⟨instant, true, true⟩ aliveAt
  | waits {aliveAt instant k : ℕ} (h : span = some k) (hlt : aliveAt + k < instant) :
      Acts span aliveAt ⟨instant, true, false⟩ aliveAt

/-- With an interval, a call that finds no packets always does the opposite of the law. -/
theorem Acts.punctual_iff {span : Option ℕ} {start after : ℕ} {hist : List RouteCall}
    {call : RouteCall} (h : Acts span (lastServed start hist) call after) :
    Punctual span start hist call ↔ span = none ∨ call.idle = false := by
  unfold Punctual
  generalize lastServed start hist = aliveAt at h
  cases h with
  | serves => simp
  | unlimited h => simp [h]
  | fails h hle =>
    constructor
    · intro hlaw
      obtain ⟨k, hk, hlt⟩ := (hlaw rfl).mp rfl
      cases h.symm.trans hk
      exact absurd hlt (not_lt.mpr hle)
    · rintro (hnone | hidle)
      · cases h.symm.trans hnone
      · cases hidle
  | waits h hlt =>
    constructor
    · intro hlaw
      exact absurd ((hlaw rfl).mpr ⟨_, h, hlt⟩) (by simp)
    · rintro (hnone | hidle)
      · cases h.symm.trans hnone
      · cases hidle

theorem Acts.after_eq {span : Option ℕ} {start after : ℕ} {hist : List RouteCall} {call : RouteCall}
    (h : Acts span (lastServed start hist) call after) :
    after = lastServed start (hist ++ [call]) := by
  rw [lastServed_concat]
  generalize lastServed start hist = aliveAt at h
  cases h with
  | serves => rfl
  | unlimited h => rfl
  | fails h hle => rfl
  | waits h hlt => rfl

theorem Acts.timedOut_of_none {aliveAt after : ℕ} {call : RouteCall}
    (h : Acts none aliveAt call after) : call.timedOut = false := by
  cases h with
  | serves => rfl
  | unlimited h => rfl
  | fails h hle => cases h
  | waits h hlt => cases h

end RouteCall

namespace LiveSession

/-- The call failed with `KeepAliveTimeout`. -/
def timesOut : Outcome Error (QueueStatus Packet) → Bool
  | .err e => e.code == some .keepAliveTimeout
  | _ => false

variable {received : QueueStatus Packet}

/-- One call. Between calls the session, the shard and the cluster move on; the keep-alive does not. -/
inductive Routed : LiveSession → RouteCall → LiveSession → Prop
  | intro {st st' : LiveSession} {publishing : Publishing} {now : ℕ} {received : QueueStatus Packet}
      {queue : SendQueue} {out : Outcome Error (QueueStatus Packet)}
      (hcall : routePackets now received queue { st with publishing := publishing } = (out, st'))
      (hreturns : out ≠ .panic) :
      Routed st ⟨now, received.values.isEmpty, timesOut out⟩ st'

/-- Calls one after another. -/
abbrev Routes : LiveSession → List RouteCall → LiveSession → Prop := Transition.Steps Routed

theorem timesOut_of_noTimeout {e : Error} (h : e.NoTimeout) : timesOut (.err e) = false := by
  simpa [timesOut, Error.NoTimeout] using h

/-- Packets that are found renew the time of life, and no error of theirs is a timeout. -/
theorem routePackets_of_packets (now : ℕ) (queue : SendQueue) (st : LiveSession)
    (h : received.values.isEmpty = false) :
    (routePackets now received queue st).2.keepAlive = st.keepAlive.live now ∧
      timesOut (routePackets now received queue st).1 = false := by
  rw [routePackets, if_neg (by simp [h])]
  have hlive : live now st = (.ok (), { st with keepAlive := st.keepAlive.live now }) := rfl
  rw [Stateful.bind_of_ok hlive]
  rcases hhandle : Publishing.handlePackets queue received.values st.publishing with
    ⟨out, publishing⟩
  have hserve : onPublishing (Publishing.handlePackets queue received.values)
      { st with keepAlive := st.keepAlive.live now } =
      (out, { publishing := publishing, keepAlive := st.keepAlive.live now }) := by
    rw [onPublishing, hhandle]
  cases out with
  | ok status =>
    rw [Stateful.bind_of_ok hserve]
    exact ⟨rfl, rfl⟩
  | err e =>
    rw [Stateful.bind_of_err hserve]
    exact ⟨rfl, timesOut_of_noTimeout (Publishing.handlePackets_noTimeout _ _ _ e _ hhandle)⟩
  | panic =>
    rw [Stateful.bind_of_panic hserve]
    exact ⟨rfl, rfl⟩

/-- Without packets nothing changes, and the interval is looked at. -/
theorem routePackets_of_idle (now : ℕ) (queue : SendQueue) (st : LiveSession)
    (h : received.values.isEmpty = true) :
    routePackets now received queue st =
      ((st.keepAlive.checkExpired now >>= fun _ => .ok (.ok [])), st) := by
  rw [routePackets, if_pos h]
  have hcheck : Stateful.inspect (fun st : LiveSession => st.keepAlive.checkExpired now) st =
      (st.keepAlive.checkExpired now, st) := rfl
  cases hexpired : st.keepAlive.checkExpired now with
  | ok u =>
    rw [hexpired] at hcheck
    rw [Stateful.bind_of_ok hcheck]
    rfl
  | err e =>
    rw [hexpired] at hcheck
    rw [Stateful.bind_of_err hcheck]
    rfl
  | panic =>
    rw [hexpired] at hcheck
    rw [Stateful.bind_of_panic hcheck]
    rfl

end LiveSession

/-- The check is the wrong way round: it fails until the interval has passed. -/
theorem KeepAlive.checkExpired_acts (self : KeepAlive) (now : ℕ) :
    RouteCall.Acts self.span self.aliveAt
      ⟨now, true, LiveSession.timesOut (self.checkExpired now >>= fun _ => .ok (.ok []))⟩
      self.aliveAt := by
  unfold KeepAlive.checkExpired
  cases hinterval : self.interval with
  | none => exact .unlimited (by rw [KeepAlive.span, hinterval]; rfl)
  | some secs =>
    have hspan : self.span = some (secs.toNat * 10 ^ 9) := by
      rw [KeepAlive.span, hinterval]
      rfl
    dsimp only
    split_ifs with hlt
    · exact .waits hspan hlt
    · exact .fails hspan (not_lt.mp hlt)

namespace LiveSession

variable {st st' : LiveSession} {call : RouteCall} {calls : List RouteCall}

theorem Routed.acts (h : Routed st call st') :
    RouteCall.Acts st.keepAlive.span st.keepAlive.aliveAt call st'.keepAlive.aliveAt ∧
      st'.keepAlive.span = st.keepAlive.span := by
  obtain ⟨hcall, hreturns⟩ := h
  rename_i publishing now received queue out
  cases hidle : received.values.isEmpty with
  | true =>
    rw [routePackets_of_idle now queue _ hidle] at hcall
    cases hcall
    exact ⟨st.keepAlive.checkExpired_acts now, rfl⟩
  | false =>
    obtain ⟨halive, htimeout⟩ :=
      routePackets_of_packets now queue { st with publishing := publishing } hidle
    rw [hcall] at halive htimeout
    dsimp only at halive htimeout
    rw [halive, htimeout]
    exact ⟨.serves, rfl⟩

/-- The time of life is the instant of the last call that found packets, and the interval stays. -/
theorem Routed.punctual_iff {span : Option ℕ} {start : ℕ} {hist : List RouteCall}
    (h : Routed st call st')
    (hst : st.keepAlive.aliveAt = RouteCall.lastServed start hist ∧ st.keepAlive.span = span) :
    (RouteCall.Punctual span start hist call ↔ span = none ∨ call.idle = false) ∧
      (st'.keepAlive.aliveAt = RouteCall.lastServed start (hist ++ [call]) ∧
        st'.keepAlive.span = span) := by
  obtain ⟨hacts, hsame⟩ := h.acts
  rw [hst.1, hst.2] at hacts
  exact ⟨hacts.punctual_iff, hacts.after_eq, hsame.trans hst.2⟩

theorem Routes.punctual_iff (h : Routes st calls st') :
    Transition.Each (RouteCall.Punctual st.keepAlive.span st.keepAlive.aliveAt) [] calls ↔
      st.keepAlive.span = none ∨ ∀ call ∈ calls, call.idle = false := by
  have heach : Transition.Each (RouteCall.Punctual st.keepAlive.span st.keepAlive.aliveAt) [] calls ↔
      Transition.Each (fun _ call => st.keepAlive.span = none ∨ call.idle = false) [] calls := by
    refine h.each_iff (P := fun hist st₁ =>
      st₁.keepAlive.aliveAt = RouteCall.lastServed st.keepAlive.aliveAt hist ∧
        st₁.keepAlive.span = st.keepAlive.span) ?_ ⟨rfl, rfl⟩
    intro hist st₁ call st₂ hst hcall
    obtain ⟨hiff, hnext⟩ := hcall.punctual_iff hst
    exact ⟨hiff, fun _ => hnext⟩
  rw [heach, Transition.each_const]
  by_cases hspan : st.keepAlive.span = none
  · simp [hspan]
  · simp [hspan]

theorem Routes.never_timedOut (h : Routes st calls st') (hspan : st.keepAlive.span = none) :
    ∀ call ∈ calls, call.timedOut = false := by
  induction h with
  | nil st => simp
  | cons hcall hrest ih =>
    obtain ⟨hacts, hsame⟩ := hcall.acts
    rw [hspan] at hacts hsame
    rw [List.forall_mem_cons]
    exact ⟨hacts.timedOut_of_none, ih hsame⟩

theorem span_eq_none_iff (keepAlive : KeepAlive) : keepAlive.span = none ↔ keepAlive.interval = none :=
  Option.map_eq_none_iff

/-- A run keeps the law of the keep-alive exactly if the session has no interval or every call finds
packets. Without an interval no call fails with `KeepAliveTimeout`. -/
theorem routes_punctual_iff (h : Routes st calls st') :
    (Transition.Each (RouteCall.Punctual st.keepAlive.span st.keepAlive.aliveAt) [] calls ↔
      st.keepAlive.interval = none ∨ ∀ call ∈ calls, call.idle = false) ∧
    (st.keepAlive.interval = none → ∀ call ∈ calls, call.timedOut = false) := by
  rw [← span_eq_none_iff]
  exact ⟨Routes.punctual_iff h, Routes.never_timedOut h⟩

/-- A call at `now` that finds nothing. -/
theorem routed_idle (st : LiveSession) (now : ℕ) :
    Routed st
      ⟨now, true, timesOut (st.keepAlive.checkExpired now >>= fun _ => .ok (.ok []))⟩ st := by
  have hcall : routePackets now (.block []) ⟨0, false⟩ st = _ :=
    routePackets_of_idle now ⟨0, false⟩ st rfl
  refine .intro hcall ?_
  unfold KeepAlive.checkExpired
  cases st.keepAlive.interval with
  | none => simp
  | some secs =>
    dsimp only
    split_ifs <;> simp [errCode]

/-- A session with an interval of a minute, just started. -/
def minuteSession : LiveSession := ⟨Publishing.aliasless, ⟨"10.0.0.1:1:keepalive", some 60, 0⟩⟩

/-- A call that finds a PINGREQ. -/
theorem routed_pingReq (st : LiveSession) (now : ℕ) : ∃ st', Routed st ⟨now, false, false⟩ st' := by
  have hok : (routePackets now (.block [.pingReq]) ⟨1, false⟩
      { st with publishing := Publishing.aliasless }).1 = .ok (.ok []) := rfl
  exact ⟨_, Routed.intro (Prod.ext hok rfl) (by simp)⟩

/-- A client that sends a PINGREQ three times. -/
theorem routes_punctual_iff_pings :
    let calls : List RouteCall := [⟨5, false, false⟩, ⟨40, false, false⟩, ⟨90, false, false⟩]
    ∃ st, Routes minuteSession calls st ∧
      Transition.Each (RouteCall.Punctual minuteSession.keepAlive.span 0) [] calls := by
  intro calls
  obtain ⟨st₁, hfirst⟩ := routed_pingReq minuteSession 5
  obtain ⟨st₂, hsecond⟩ := routed_pingReq st₁ 40
  obtain ⟨st, hthird⟩ := routed_pingReq st₂ 90
  have hroutes : Routes minuteSession calls st :=
    .cons hfirst (.cons hsecond (.cons hthird (.nil st)))
  exact ⟨st, hroutes, (routes_punctual_iff hroutes).1.mpr (.inr (by simp [calls]))⟩

/-- A client that is silent for a second of its minute is disconnected. -/
theorem silent_second_times_out :
    ¬ ∀ (st st' : LiveSession) (calls : List RouteCall),
      (st.keepAlive.aliveAt :: calls.map RouteCall.instant).Pairwise (· ≤ ·) →
      Routes st calls st' →
      Transition.Each (RouteCall.Punctual st.keepAlive.span st.keepAlive.aliveAt) [] calls := by
  intro hall
  have hroutes := Transition.Steps.cons (routed_idle minuteSession (10 ^ 9)) (.nil _)
  have hpunctual := hall minuteSession _ _ (by simp [minuteSession]) hroutes
  rcases (Routes.punctual_iff hroutes).mp hpunctual with hspan | hidle
  · cases hspan
  · cases hidle _ List.mem_cons_self

end LiveSession
end Mqtr
