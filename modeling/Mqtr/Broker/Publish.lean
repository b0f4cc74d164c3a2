import Mqtr.Broker.Routing
import Mqtr.Core.Stateful

/-! What a session does with a PUBLISH of its client. Posts to the cluster thread are kept in a
list. -/
namespace Mqtr
open Outcome Std

def Publish.topicAlias (self : Publish) : Option UInt16 :=
  self.properties.bind PublishProperties.topicAlias

/-- The channel to the cluster thread takes a request and wakes the thread; a closed one takes
nothing, and the wake-up may fail after the request was taken. -/
inductive Link where
  | up
  | closed
  | unwakeable (text : String)
  deriving DecidableEq, Repr

structure ClusterTx where
  link : Link
  posted : List ClusterRequest
  deriving DecidableEq, Repr

def ClusterTx.post (req : ClusterRequest) : Stateful ClusterTx Error Unit := fun self =>
  match self.link with
  | .up => (.ok (), { self with posted := self.posted ++ [req] })
  | .closed => (errDesc .ipcFail "sending on a closed channel", self)
  | .unwakeable text => (errDesc .ioError text, { self with posted := self.posted ++ [req] })

/-- A request that is not refused is posted. -/
theorem ClusterTx.posted_of_ok {req : ClusterRequest} {self : ClusterTx}
    (h : (ClusterTx.post req self).1 = .ok ()) :
    (ClusterTx.post req self).2.posted = self.posted ++ [req] := by
  unfold ClusterTx.post at h ⊢
  cases hlink : self.link with
  | up => rfl
  | unwakeable text => rfl
  | closed =>
    rw [hlink] at h
    cases h

/-- What a PUBLISH may change: the session of its client, the shard, and what the cluster is sent. -/
structure Publishing where
  session : Session
  shard : Shard
  cluster : ClusterTx

namespace Session

def logPrefix (self : Session) : String := "session:" ++ self.addr

def searchId (ids : List UInt16) (packetId : UInt16) : Result (Except ℕ ℕ) :=
  ofOption (Bisect.search (fun id => some (compare id packetId)) ids)

/-- Whether the packet identifier, which has to be there, is among the booked ones. -/
def isBooked (ids : List UInt16) (packetId : Option UInt16) : Result Bool := do
  let packetId ← ofOption packetId
  let found ← searchId ids packetId
  .ok found.isOk

/-- With the setting to ignore duplicates the flag of the packet makes it a new one. -/
def isDuplicate (self : Session) (publ : Publish) : Result Bool :=
  let ignoreDup := self.config.mqttIgnoreDuplicate
  match publ.qos with
  | .atMostOnce => .ok false
  | .atLeastOnce =>
    if publ.duplicate && ignoreDup then .ok false else isBooked self.qos1 publ.packetId
  | .exactlyOnce =>
    if publ.duplicate && ignoreDup then .ok false else isBooked self.qos2 publ.packetId

def bookId (ids : List UInt16) (packetId : Option UInt16) : Result (Bool × List UInt16) := do
  let packetId ← ofOption packetId
  match ← searchId ids packetId with
  | .ok _ => .ok (false, ids)
  | .error off => do
    let ids ← ofOption (Bisect.insertAt ids off packetId)
    .ok (true, ids)

def bookQos (self : Session) (publ : Publish) : Result (Bool × Session) := do
  let serverQos ← self.config.serverQos
  if serverQos.rank < publ.qos.rank then
    errCode .protocolError .qosNotSupported
      (self.logPrefix ++ " publish-qos exceeds server-qos " ++ publ.qos.debug)
  else match publ.qos with
    | .atMostOnce => .ok (true, self)
    | .atLeastOnce => do
      let (fresh, ids) ← bookId self.qos1 publ.packetId
      .ok (fresh, { self with qos1 := ids })
    | .exactlyOnce => do
      let (fresh, ids) ← bookId self.qos2 publ.packetId
      .ok (fresh, { self with qos2 := ids })

/-- The topic that a PUBLISH names, itself or by an alias. A name beside an alias is remembered. -/
def publishTopicName (self : Session) (publ : Publish) : Result (TopicName × Session) :=
  let topicName := publ.topicName
  match publ.topicAlias, self.config.mqttTopicAliasMax with
  | some _, none =>
    errCode .protocolError .topicAliasInvalid
      (self.logPrefix ++ " topic-alias-is-not-supported by broker")
  | some topicAlias, some aliasMax =>
    if topicAlias > aliasMax then
      errCode .protocolError .topicAliasInvalid
        (self.logPrefix ++ " topic-alias-exceeds broker limit " ++ toString topicAlias ++
          " > " ++ toString aliasMax)
    else if topicName.val ≠ "" then
      .ok (topicName, { self with topicAliases := self.topicAliases.insert topicAlias topicName })
    else match self.topicAliases[topicAlias]? with
      | some topicName => .ok (topicName, self)
      | none =>
        errCode .protocolError .topicAliasInvalid
          (self.logPrefix ++ " alias " ++ toString topicAlias ++ " is missing")
  | none, _ =>
    if topicName.val = "" then
      errCode .protocolError .topicNameInvalid
        (self.logPrefix ++ " alias is ZERO and topic_name is empty")
    else .ok (topicName, self)

end Session

namespace Publishing

/-- A step on the session that changes it only if it returns. -/
def onSession {α : Type} (f : Session → Result (α × Session)) : Stateful Publishing Error α :=
  Stateful.lift fun st => do
    let (a, session) ← f st.session
    .ok (a, { st with session := session })

def bookRetain (publ : Publish) : Stateful Publishing Error Unit := fun st =>
  if publ.retain && !st.session.config.mqttRetainAvailable then
    (errCode .protocolError .retainNotSupported (st.session.logPrefix ++ " retain unavailable"), st)
  else if publ.retain then
    let req : ClusterRequest :=
      if (publ.payload.map List.isEmpty).getD true then .resetRetainTopic publ.topicName
      else .setRetainTopic publ
    let (res, cluster) := ClusterTx.post req st.cluster
    (res, { st with cluster := cluster })
  else (.ok (), st)

/-- Queue the packet for every client that subscribes the topic. -/
def routeToSubscribers (topicName : TopicName) (publ : Publish) (st : Publishing) :
    Result (Unit × Publishing) := do
  let (subscrs, shard) ← st.shard.matchSubscribers st.session topicName
  let shard ← subscrs.toList.foldlM (fun (shard : Shard) (entry : ClientID × List Subscription) =>
    if entry.2.isEmpty then .ok shard else shard.routeToClient st.session entry.2 publ) shard
  .ok ((), { st with shard := shard })

def doPublish (publ : Publish) : Stateful Publishing Error (List Message) := do
  if ← Stateful.inspect fun st => st.session.isDuplicate publ then
    return []
  else
    bookRetain publ
    let _ ← onSession fun session => session.bookQos publ
    let topicName ← onSession fun session => session.publishTopicName publ
    Stateful.lift (routeToSubscribers topicName publ)
    return []

end Publishing

namespace Session

/-- The packet asks for more than the server offers. -/
def QosRefused (self : Session) (publ : Publish) : Prop :=
  ∃ serverQos, self.config.serverQos = .ok serverQos ∧ serverQos.rank < publ.qos.rank

/-- The quality of service is booked without an abort: a packet that needs an identifier has one. -/
def QosTaken (self : Session) (publ : Publish) : Prop :=
  (∃ serverQos, self.config.serverQos = .ok serverQos ∧ publ.qos.rank ≤ serverQos.rank) ∧
    (publ.qos ≠ .atMostOnce → publ.packetId.isSome)

def bookedIds (self : Session) : QoS → List UInt16
  | .atMostOnce => []
  | .atLeastOnce => self.qos1
  | .exactlyOnce => self.qos2

/-- The identifier of the packet is one that the search for it does not find. -/
def NewId (self : Session) (publ : Publish) : Prop :=
  publ.qos ≠ .atMostOnce ∧ isBooked (self.bookedIds publ.qos) publ.packetId = .ok false

/-- No topic comes out of the name and the alias. -/
def TopicRefused (self : Session) (publ : Publish) : Prop :=
  match publ.topicAlias, self.config.mqttTopicAliasMax with
  | some _, none => True
  | some topicAlias, some aliasMax =>
    topicAlias > aliasMax ∨ publ.topicName.val = "" ∧ topicAlias ∉ self.topicAliases
  | none, _ => publ.topicName.val = ""

theorem QosRefused.not_taken {self : Session} {publ : Publish} (h : self.QosRefused publ) :
    ¬ self.QosTaken publ := by
  rintro ⟨⟨q, hq, hle⟩, -⟩
  rcases h with ⟨q', hq', hlt⟩
  cases hq.symm.trans hq'
  omega

theorem searchId_ok (ids : List UInt16) (id : UInt16) :
    ∃ a, searchId ids id = .ok a ∧ ∀ i, a = .error i → i ≤ ids.length := by
  obtain ⟨a, ha, hi⟩ := Bisect.search_total (compare · id) ids
  exact ⟨a, by rw [searchId, ha, ofOption], hi⟩

theorem isBooked_ne_err (ids : List UInt16) (packetId : Option UInt16) (e : Error) :
    isBooked ids packetId ≠ .err e := by
  unfold isBooked
  cases packetId with
  | none => simp [ofOption]
  | some id =>
    obtain ⟨a, ha, -⟩ := searchId_ok ids id
    simp [ofOption, ha]

theorem isDuplicate_ne_err (self : Session) (publ : Publish) (e : Error) :
    self.isDuplicate publ ≠ .err e := by
  unfold isDuplicate
  cases publ.qos with
  | atMostOnce => simp
  | atLeastOnce =>
    dsimp only
    split_ifs
    · simp
    · exact isBooked_ne_err _ _ e
  | exactlyOnce =>
    dsimp only
    split_ifs
    · simp
    · exact isBooked_ne_err _ _ e

/-- Booking an identifier keeps the list if the identifier is there, and makes it longer if not. -/
theorem bookId_some (ids : List UInt16) (id : UInt16) :
    ∃ b ids', bookId ids (some id) = .ok (b, ids') ∧
      (ids' = ids ↔ isBooked ids (some id) ≠ .ok false) := by
  obtain ⟨a, ha, hi⟩ := searchId_ok ids id
  unfold bookId isBooked
  simp only [ofOption, ok_bind, ha]
  cases a with
  | ok off => exact ⟨false, ids, rfl, by simp [Except.isOk, Except.toBool]⟩
  | error off =>
    have hle := hi off rfl
    refine ⟨true, ids.insertIdx off id, by simp [Bisect.insertAt, hle], ?_⟩
    have hne : ids.insertIdx off id ≠ ids := by
      intro h
      have hlen := congrArg List.length h
      rw [List.length_insertIdx_of_le_length hle] at hlen
      omega
    simp [Except.isOk, Except.toBool, hne]

/-- Booking the quality of service refuses the packet, or changes at most the lists of identifiers,
or aborts. -/
theorem bookQos_cases (self : Session) (publ : Publish) :
    (self.QosRefused publ ∧ ¬ self.QosTaken publ ∧ ∃ e, self.bookQos publ = .err e) ∨
    (¬ self.QosRefused publ ∧ self.QosTaken publ ∧ ∃ b qos1 qos2,
      self.bookQos publ = .ok (b, { self with qos1 := qos1, qos2 := qos2 }) ∧
        (qos1 = self.qos1 ∧ qos2 = self.qos2 ↔ ¬ self.NewId publ)) ∨
    (¬ self.QosRefused publ ∧ ¬ self.QosTaken publ ∧ self.bookQos publ = .panic) := by
  unfold QosRefused QosTaken NewId bookQos
  cases hs : self.config.serverQos with
  | panic => simp
  | err e => exact absurd hs (unwrap_ne_err _ _)
  | ok serverQos =>
    by_cases hlt : serverQos.rank < publ.qos.rank
    · left
      simp [hlt, errCode]
    · right
      simp only [ok_bind, hlt, ↓reduceIte]
      cases hq : publ.qos with
      | atMostOnce => exact .inl ⟨by simp_all, by simp_all, true, self.qos1, self.qos2, by simp⟩
      | atLeastOnce =>
        cases hid : publ.packetId with
        | none => simp_all [bookId, ofOption]
        | some id =>
          obtain ⟨b, ids, hbook, hids⟩ := bookId_some self.qos1 id
          refine .inl ⟨by simp_all, by simp_all, b, ids, self.qos2, by simp [hbook], ?_⟩
          simp [hids, bookedIds]
      | exactlyOnce =>
        cases hid : publ.packetId with
        | none => simp_all [bookId, ofOption]
        | some id =>
          obtain ⟨b, ids, hbook, hids⟩ := bookId_some self.qos2 id
          refine .inl ⟨by simp_all, by simp_all, b, self.qos1, ids, by simp [hbook], ?_⟩
          simp [hids, bookedIds]

/-- Booking that returns changes at most the lists of identifiers. -/
theorem bookQos_eq_ok {self booked : Session} {publ : Publish} {fresh : Bool}
    (h : self.bookQos publ = .ok (fresh, booked)) :
    ∃ qos1 qos2, booked = { self with qos1 := qos1, qos2 := qos2 } := by
  rcases self.bookQos_cases publ with ⟨-, -, e, herr⟩ | ⟨-, -, b, qos1, qos2, hok, -⟩ |
    ⟨-, -, hpanic⟩
  · cases h.symm.trans herr
  · exact ⟨qos1, qos2, (Prod.mk.inj (Outcome.ok.inj (h.symm.trans hok))).2⟩
  · cases h.symm.trans hpanic

theorem publishTopicName_cases (self : Session) (publ : Publish) :
    (self.TopicRefused publ ∧ ∃ e, self.publishTopicName publ = .err e) ∨
    (¬ self.TopicRefused publ ∧ ∃ r, self.publishTopicName publ = .ok r) := by
  unfold TopicRefused publishTopicName
  cases publ.topicAlias with
  | none =>
    by_cases hn : publ.topicName.val = ""
    · simp [hn, errCode]
    · simp [hn]
  | some topicAlias =>
    cases self.config.mqttTopicAliasMax with
    | none => simp [errCode]
    | some aliasMax =>
      by_cases hmax : topicAlias > aliasMax
      · simp [hmax, errCode]
      · by_cases hn : publ.topicName.val = ""
        · simp only [hmax, hn, ↓reduceIte, ne_eq, not_true_eq_false,
            ExtTreeMap.mem_iff_isSome_getElem?]
          cases self.topicAliases[topicAlias]? with
          | none => simp [errCode]
          | some topicName => simp
        · simp [hmax, hn]

/-- A packet that names a topic is taken at its word, and remembered under its alias if it has one; one
that does not is looked up. -/
theorem publishTopicName_eq_ok {self self' : Session} {publ : Publish} {topicName : TopicName} :
    self.publishTopicName publ = .ok (topicName, self') ↔
      publ.topicAlias = none ∧ publ.topicName.val ≠ "" ∧ topicName = publ.topicName ∧ self' = self ∨
      ∃ topicAlias aliasMax, publ.topicAlias = some topicAlias ∧
        self.config.mqttTopicAliasMax = some aliasMax ∧ topicAlias ≤ aliasMax ∧
        (publ.topicName.val ≠ "" ∧ topicName = publ.topicName ∧ self' =
            { self with topicAliases := self.topicAliases.insert topicAlias publ.topicName } ∨
          publ.topicName.val = "" ∧ self.topicAliases[topicAlias]? = some topicName ∧
            self' = self) := by
  unfold publishTopicName
  cases publ.topicAlias with
  | none =>
    by_cases hn : publ.topicName.val = ""
    · simp [hn]
    · simp [hn, eq_comm]
  | some topicAlias =>
    cases self.config.mqttTopicAliasMax with
    | none => simp
    | some aliasMax =>
      by_cases hmax : topicAlias > aliasMax
      · simp [hmax]
      · by_cases hn : publ.topicName.val = ""
        · cases hget : self.topicAliases[topicAlias]? with
          | none => simp [hmax, hn, hget]
          | some name => simp [hmax, hn, hget, UInt16.not_lt.mp hmax, eq_comm]
        · simp [hmax, hn, UInt16.not_lt.mp hmax, eq_comm]

end Session

namespace Publishing

/-- What a rejected PUBLISH must leave alone. -/
structure NoEffect (st st' : Publishing) : Prop where
  posted : st'.cluster.posted = st.cluster.posted
  qos1 : st'.session.qos1 = st.session.qos1
  qos2 : st'.session.qos2 = st.session.qos2
  topicAliases : st'.session.topicAliases = st.session.topicAliases
  shardBackLog : st'.shard.shardBackLog = st.shard.shardBackLog
  unacks : st'.shard.cinp.unacks = st.shard.cinp.unacks

/-- A failure of the steps after `book_retain`. -/
def FailsBooked (st : Publishing) (publ : Publish) (e : Error) (st' : Publishing) : Prop :=
  st.session.bookQos publ = .err e ∧ st' = st ∨
    ∃ b session, st.session.bookQos publ = .ok (b, session) ∧
      session.publishTopicName publ = .err e ∧ st' = { st with session := session }

theorem onSession_eq_err {α : Type} {f : Session → Result (α × Session)} {st st' : Publishing}
    {e : Error} : onSession f st = (.err e, st') ↔ f st.session = .err e ∧ st' = st := by
  rw [onSession, Stateful.lift_eq_err]
  cases f st.session <;> simp

theorem onSession_eq_ok {α : Type} {f : Session → Result (α × Session)} {st st' : Publishing}
    {a : α} : onSession f st = (.ok a, st') ↔
      ∃ session, f st.session = .ok (a, session) ∧ st' = { st with session := session } := by
  rw [onSession, Stateful.lift_eq_ok]
  cases f st.session with
  | ok r => simp [Prod.ext_iff, eq_comm, and_assoc]
  | err e => simp
  | panic => simp

theorem matchSubscribers_ne_err (shard : Shard) (session : Session) (topicName : TopicName)
    (e : Error) : shard.matchSubscribers session topicName ≠ .err e := by
  rw [Shard.matchSubscribers_eq, Ne, bind_ok_eq_err]
  exact ofOption_ne_err _ e

theorem routeToClient_ne_err (shard : Shard) (session : Session) (subscrs : List Subscription)
    (publ : Publish) (e : Error) : shard.routeToClient session subscrs publ ≠ .err e := by
  unfold Shard.routeToClient
  cases subscrs with
  | nil => simp
  | cons subscr subscrs =>
    dsimp only
    rw [Ne, bind_eq_err]
    rintro (h | ⟨serverQos, -, h⟩)
    · exact unwrap_ne_err _ e h
    · rw [bind_ok_eq_err] at h
      unfold Shard.bookUnacked at h
      cases hq : serverQos.min publ.qos <;> simp [hq] at h

theorem routeToSubscribers_ne_err (topicName : TopicName) (publ : Publish) (st : Publishing)
    (e : Error) : routeToSubscribers topicName publ st ≠ .err e := by
  rw [routeToSubscribers, Ne, bind_eq_err]
  rintro (h | ⟨r, -, h⟩)
  · exact matchSubscribers_ne_err _ _ _ e h
  · refine failsWith_foldlM (P := fun _ => False) (fun shard entry e' h' => ?_) _ _ e
      (bind_ok_eq_err.mp h)
    split_ifs at h'
    exact routeToClient_ne_err _ _ _ _ e' h'

theorem booked_eq_err {publ : Publish} {st st' : Publishing} {e : Error} :
    (do
      let _ ← onSession fun session => session.bookQos publ
      let topicName ← onSession fun session => session.publishTopicName publ
      Stateful.lift (routeToSubscribers topicName publ)
      return ([] : List Message) : Stateful Publishing Error (List Message)) st = (.err e, st') ↔
      FailsBooked st publ e st' := by
  -- routing fails in no way but an abort
  have hroute (topicName : TopicName) (t : Publishing) :
      (do
        Stateful.lift (routeToSubscribers topicName publ)
        return ([] : List Message) : Stateful Publishing Error (List Message)) t ≠ (.err e, st') := by
    rw [Ne, Stateful.bind_eq_err]
    rintro (h | ⟨a, t', -, h⟩)
    · exact routeToSubscribers_ne_err _ _ _ e (Stateful.lift_eq_err.mp h).1
    · cases h
  simp only [Stateful.bind_eq_err (x := onSession _), onSession_eq_err, onSession_eq_ok, hroute,
    and_false, exists_false, or_false, FailsBooked]
  constructor
  · rintro (h | ⟨b, t, ⟨session, hok, rfl⟩, herr, hst⟩)
    · exact .inl h
    · exact .inr ⟨b, session, hok, herr, hst⟩
  · rintro (h | ⟨b, session, hok, herr, hst⟩)
    · exact .inl h
    · exact .inr ⟨b, _, ⟨session, hok, rfl⟩, herr, hst⟩

/-- The three ways to fail, in the order of the checks. -/
theorem doPublish_eq_err {publ : Publish} {st st' : Publishing} {e : Error} :
    doPublish publ st = (.err e, st') ↔
      st.session.isDuplicate publ = .ok false ∧
        (bookRetain publ st = (.err e, st') ∨
          ∃ t, bookRetain publ st = (.ok (), t) ∧ FailsBooked t publ e st') := by
  have hdup : Stateful.inspect (fun st : Publishing => st.session.isDuplicate publ) st =
      (st.session.isDuplicate publ, st) := rfl
  unfold doPublish
  cases hd : st.session.isDuplicate publ with
  | panic =>
    rw [Stateful.bind_of_panic (hdup.trans (by rw [hd]))]
    simp
  | err e' => exact absurd hd (Session.isDuplicate_ne_err _ _ _)
  | ok dup =>
    rw [Stateful.bind_of_ok (hdup.trans (by rw [hd]))]
    cases dup with
    | true =>
      constructor
      · rintro ⟨⟩
      · rintro ⟨⟨⟩, -⟩
    | false =>
      rw [if_neg Bool.false_ne_true, Stateful.bind_eq_err]
      simp only [booked_eq_err, true_and]
      constructor
      · rintro (h | ⟨_, t, h⟩)
        · exact .inl h
        · exact .inr ⟨t, h⟩
      · rintro (h | ⟨t, h⟩)
        · exact .inl h
        · exact .inr ⟨(), t, h⟩

/-- A packet that is no duplicate goes through all steps. -/
theorem doPublish_eq_ok {publ : Publish} {st st' : Publishing} {msgs : List Message}
    (hnew : st.session.isDuplicate publ = .ok false) (h : doPublish publ st = (.ok msgs, st')) :
    ∃ st₁ fresh booked topicName session, bookRetain publ st = (.ok (), st₁) ∧
      st₁.session.bookQos publ = .ok (fresh, booked) ∧
      booked.publishTopicName publ = .ok (topicName, session) ∧
      routeToSubscribers topicName publ { st₁ with session := session } = .ok ((), st') := by
  obtain ⟨dup, t, hdup, h⟩ := Stateful.bind_eq_ok.mp h
  obtain ⟨hdup, rfl⟩ := Stateful.inspect_eq_ok.mp hdup
  obtain rfl := Outcome.ok.inj (hnew.symm.trans hdup)
  rw [if_neg Bool.false_ne_true] at h
  obtain ⟨_, st₁, hretain, h⟩ := Stateful.bind_eq_ok.mp h
  obtain ⟨fresh, _, hbook, h⟩ := Stateful.bind_eq_ok.mp h
  obtain ⟨booked, hqos, rfl⟩ := onSession_eq_ok.mp hbook
  obtain ⟨topicName, _, hname, h⟩ := Stateful.bind_eq_ok.mp h
  obtain ⟨session, htopic, rfl⟩ := onSession_eq_ok.mp hname
  obtain ⟨_, _, hroute, h⟩ := Stateful.bind_eq_ok.mp h
  obtain ⟨-, rfl⟩ := Prod.mk.inj h
  exact ⟨st₁, fresh, booked, topicName, session, hretain, hqos, htopic, Stateful.lift_eq_ok.mp hroute⟩

theorem bookRetain_eq_ok {publ : Publish} {st st₁ : Publishing}
    (h : bookRetain publ st = (.ok (), st₁)) :
    st₁.session = st.session ∧ st₁.shard = st.shard ∧ st₁.cluster.posted = st.cluster.posted ++
      if publ.retain then
        [if (publ.payload.map List.isEmpty).getD true then .resetRetainTopic publ.topicName
          else .setRetainTopic publ]
      else [] := by
  unfold bookRetain at h
  by_cases hrefused : (publ.retain && !st.session.config.mqttRetainAvailable) = true
  · rw [if_pos hrefused] at h
    exact absurd (Prod.mk.inj h).1 (errCode_ne_ok _ _ _ _)
  rw [if_neg hrefused] at h
  by_cases hretain : publ.retain = true
  · rw [if_pos hretain] at h
    obtain ⟨hpost, rfl⟩ := Prod.mk.inj h
    rw [if_pos hretain]
    exact ⟨rfl, rfl, ClusterTx.posted_of_ok hpost⟩
  · rw [if_neg hretain] at h
    obtain ⟨-, rfl⟩ := Prod.mk.inj h
    rw [if_neg hretain, List.append_nil]
    exact ⟨rfl, rfl, rfl⟩

theorem routeToSubscribers_keeps {topicName : TopicName} {publ : Publish} {st st' : Publishing}
    (h : routeToSubscribers topicName publ st = .ok ((), st')) :
    st'.session = st.session ∧ st'.cluster = st.cluster := by
  obtain ⟨_, -, h⟩ := bind_eq_ok.mp h
  obtain ⟨_, -, h⟩ := bind_eq_ok.mp h
  obtain ⟨-, rfl⟩ := Prod.mk.inj (Outcome.ok.inj h)
  exact ⟨rfl, rfl⟩

/-- Whether and how the steps after `book_retain` fail: only the lists of identifiers can change
before that. -/
theorem failsBooked_iff (st : Publishing) (publ : Publish) :
    (∃ e st', st.FailsBooked publ e st') ↔
      st.session.QosRefused publ ∨ st.session.QosTaken publ ∧ st.session.TopicRefused publ := by
  unfold FailsBooked
  rcases st.session.bookQos_cases publ with
    ⟨href, htaken, e, he⟩ | ⟨href, htaken, b, qos1, qos2, hok, -⟩ | ⟨href, htaken, hp⟩
  · simp [href, he]
  · have htopic : ∀ session : Session,
        session = { st.session with qos1 := qos1, qos2 := qos2 } →
          (session.TopicRefused publ ↔ st.session.TopicRefused publ) := by
      rintro _ rfl
      rfl
    rcases Session.publishTopicName_cases { st.session with qos1 := qos1, qos2 := qos2 } publ with
      ⟨ht, e, he⟩ | ⟨ht, r, hr⟩
    · rw [htopic _ rfl] at ht
      simp [href, htaken, ht, hok, he]
    · rw [htopic _ rfl] at ht
      simp [href, htaken, ht, hok, hr]
  · simp [href, htaken, hp]

theorem FailsBooked.noEffect_iff {st st' : Publishing} {publ : Publish} {e : Error}
    (h : st.FailsBooked publ e st') :
    NoEffect st st' ↔ ¬ (st.session.QosTaken publ ∧ st.session.NewId publ) := by
  rcases st.session.bookQos_cases publ with
    ⟨-, htaken, e', he⟩ | ⟨-, htaken, b, qos1, qos2, hok, hids⟩ | ⟨-, htaken, hp⟩
  · rcases h with ⟨-, rfl⟩ | ⟨b, session, hok, -⟩
    · simp [htaken, show NoEffect st' st' from ⟨rfl, rfl, rfl, rfl, rfl, rfl⟩]
    · simp [he] at hok
  · rcases h with ⟨herr, -⟩ | ⟨b', session, hok', -, rfl⟩
    · simp [hok] at herr
    · rw [hok] at hok'
      cases hok'
      simp only [htaken, true_and, ← hids]
      exact ⟨fun h => ⟨h.qos1, h.qos2⟩, fun h => ⟨rfl, h.1, h.2, rfl, rfl, rfl⟩⟩
  · rcases h with ⟨herr, -⟩ | ⟨b, session, hok, -⟩
    · simp [hp] at herr
    · simp [hp] at hok

/-- A check fails after an earlier step of the same call has taken effect: the retained message was
posted, or the identifier was booked. -/
def LateRefusal (st : Publishing) (publ : Publish) : Prop :=
  st.session.isDuplicate publ = .ok false ∧
    if publ.retain then
      st.session.config.mqttRetainAvailable ∧
        match st.cluster.link with
        | .closed => False
        | .unwakeable _ => True
        | .up => st.session.QosRefused publ ∨
            st.session.QosTaken publ ∧ st.session.TopicRefused publ
    else
      st.session.QosTaken publ ∧ st.session.NewId publ ∧ st.session.TopicRefused publ

theorem NoEffect.refl (st : Publishing) : NoEffect st st := ⟨rfl, rfl, rfl, rfl, rfl, rfl⟩

/-- The state after a request was posted. -/
def withPosted (st : Publishing) (req : ClusterRequest) : Publishing :=
  { st with cluster := { st.cluster with posted := st.cluster.posted ++ [req] } }

theorem bookRetain_retain {publ : Publish} (hr : publ.retain = true) (st : Publishing) :
    ∃ req e, bookRetain publ st =
      if st.session.config.mqttRetainAvailable then
        match st.cluster.link with
        | .up => (.ok (), st.withPosted req)
        | .closed => (.err e, st)
        | .unwakeable _ => (.err e, st.withPosted req)
      else (.err e, st) := by
  unfold bookRetain
  by_cases ha : st.session.config.mqttRetainAvailable
  · simp only [hr, ha, Bool.not_true, Bool.and_false, Bool.false_eq_true, ↓reduceIte,
      ClusterTx.post, withPosted]
    cases hl : st.cluster.link with
    | up => exact ⟨_, ⟨.ipcFail, "", none⟩, rfl⟩
    | closed => exact ⟨.setRetainTopic publ, _, rfl⟩
    | unwakeable text => exact ⟨_, _, rfl⟩
  · exact ⟨.setRetainTopic publ, _, by simp only [hr, ha]; rfl⟩

/-- Nothing takes a posted request back. -/
theorem not_noEffect_of_posted {st st' : Publishing} {req : ClusterRequest}
    (h : st'.cluster = (st.withPosted req).cluster) : ¬ NoEffect st st' := by
  intro hn
  have hlen := congrArg List.length (hn.posted.symm.trans (congrArg ClusterTx.posted h))
  simp [withPosted] at hlen

theorem FailsBooked.cluster {st st' : Publishing} {publ : Publish} {e : Error}
    (h : st.FailsBooked publ e st') : st'.cluster = st.cluster := by
  rcases h with ⟨-, rfl⟩ | ⟨b, session, -, -, rfl⟩ <;> rfl

/-- A rejected PUBLISH leaves everything alone exactly if no late check is the one that fails. -/
theorem doPublish_noEffect_iff (st : Publishing) (publ : Publish) :
    (∀ e st', doPublish publ st = (.err e, st') → NoEffect st st') ↔ ¬ st.LateRefusal publ := by
  simp only [doPublish_eq_err]
  unfold LateRefusal
  by_cases hdup : st.session.isDuplicate publ = .ok false
  · simp only [hdup, true_and]
    by_cases hr : publ.retain
    · obtain ⟨req, err, hbook⟩ := bookRetain_retain hr st
      rw [if_pos hr, hbook]
      by_cases ha : st.session.config.mqttRetainAvailable
      · simp only [ha, ↓reduceIte, true_and]
        cases st.cluster.link with
        | closed => simpa using NoEffect.refl st
        | unwakeable text =>
          have hne : ¬ NoEffect st (st.withPosted req) := not_noEffect_of_posted rfl
          simpa using hne
        | up =>
          have hfails := failsBooked_iff (st.withPosted req) publ
          change _ ↔ st.session.QosRefused publ ∨
            st.session.QosTaken publ ∧ st.session.TopicRefused publ at hfails
          rw [← hfails]
          constructor
          · rintro h ⟨e, st', hf⟩
            exact not_noEffect_of_posted hf.cluster (h e st' (.inr ⟨_, rfl, hf⟩))
          · rintro h e st' (hf | ⟨t, ht, hf⟩)
            · cases hf
            · cases ht
              exact absurd ⟨e, st', hf⟩ h
      · simpa [ha] using NoEffect.refl st
    · have hbook : bookRetain publ st = (.ok (), st) := by simp [bookRetain, hr]
      rw [if_neg hr, hbook]
      constructor
      · rintro h ⟨htaken, hid, htopic⟩
        obtain ⟨e, st', hf⟩ := (failsBooked_iff st publ).mpr (.inr ⟨htaken, htopic⟩)
        exact hf.noEffect_iff.mp (h e st' (.inr ⟨st, rfl, hf⟩)) ⟨htaken, hid⟩
      · rintro h e st' (hf | ⟨t, ht, hf⟩)
        · cases hf
        · cases ht
          refine hf.noEffect_iff.mpr ?_
          rintro ⟨htaken, hid⟩
          rcases (failsBooked_iff st publ).mp ⟨e, st', hf⟩ with hrefused | ⟨-, htopic⟩
          · exact hrefused.not_taken htaken
          · exact h ⟨htaken, hid, htopic⟩
  · simp [hdup]

/-- A session of a broker without topic aliases, on a shard of its own. -/
def aliasless : Publishing where
  session := Session.idle "alice"
  shard := Shard.spawn {} 0
  cluster := ⟨.up, []⟩

def retainedWithAlias : Publish :=
  ⟨true, .atMostOnce, false, ⟨"news"⟩, none, some { topicAlias := some 1 }, some [1]⟩

/-- The alias is refused after the cluster was told to retain the message. -/
theorem doPublish_retains_rejected :
    ¬ ∀ (st st' : Publishing) (publ : Publish) (e : Error),
      doPublish publ st = (.err e, st') → NoEffect st st' := by
  intro h
  have hrun : doPublish retainedWithAlias aliasless =
      (.err ⟨.protocolError,
        "session:10.0.0.1:1 topic-alias-is-not-supported by broker", some .topicAliasInvalid⟩,
        aliasless.withPosted (.setRetainTopic retainedWithAlias)) := by
    rfl
  exact not_noEffect_of_posted rfl (h _ _ _ _ hrun)

end Publishing
end Mqtr
