import Mqtr.Wire.Connection

/-! The packets that carry messages and subscriptions, and their acknowledgements. Five of them have
a payload that reaches to the end of the packet; where it begins is known from the properties, where
it ends from the fixed header, and nothing says that the one comes before the other. -/
namespace Mqtr
open Outcome

/-- The part of a packet before its payload: its fields, where they end, and where the packet ends
according to the fixed header. -/
structure VarHeader (α : Type) where
  fields : α
  fieldsEnd : ℕ
  packetEnd : ℕ
  deriving DecidableEq, Repr

/-- The `match` on the end of the packet: no payload, the bytes between the two ends, or a packet
longer than the stream. -/
def cutPayload {β : Type} (stream : List UInt8) (n m : ℕ) (empty : Result (β × ℕ))
    (wrap : List UInt8 → β) (short : Result (β × ℕ)) : Result (β × ℕ) :=
  if m = n then empty
  else if m ≤ stream.length then do
    let payload ← slice stream n m
    .ok (wrap payload, m)
  else short

/-- What SUBSCRIBE, SUBACK, UNSUBSCRIBE and UNSUBACK begin with. -/
def decIdHeader (α : Type) [Packetize α] (stream : List UInt8) :
    Result (VarHeader (UInt16 × Option α)) := do
  let (fh, fhLen) ← decFixedHeader stream
  let (packetId, n) ← decField UInt16 stream fhLen
  let (properties, n) ← decProps α stream n
  .ok ⟨(packetId, properties), n, fhLen + fh.remainingLen.val.toNat⟩

/-- The loop that fills a payload's bytes into values. -/
def decAll (α : Type) [Packetize α] (payload : List UInt8) : Result (List α) := do
  let (vals, _) ← readLoop (decField α payload) (fun vals val => .ok (vals ++ [val]))
    payload.length (payload.length + 1) 0 []
  .ok vals

def QoS.debug : QoS → String
  | .atMostOnce => "AtMostOnce"
  | .atLeastOnce => "AtLeastOnce"
  | .exactlyOnce => "ExactlyOnce"

structure Publish where
  retain : Bool
  qos : QoS
  duplicate : Bool
  topicName : TopicName
  packetId : Option UInt16
  properties : Option PublishProperties
  payload : Option (List UInt8)
  deriving DecidableEq, Repr

namespace Publish

def setFixedHeader (self : Publish) (retain : Bool) (qos : QoS) (dup : Bool) : Publish :=
  { self with retain := retain, qos := qos, duplicate := dup }

def setPacketId (self : Publish) (packetId : UInt16) : Publish :=
  { self with packetId := some packetId }

def addSubscriptionId (self : Publish) (id : Option UInt32) : Publish :=
  match id, self.properties with
  | some id, some props =>
    { self with properties := some { props with
        subscribtionIdentifier := props.subscribtionIdentifier ++ [⟨id⟩] } }
  | some id, none => { self with properties := some { subscribtionIdentifier := [⟨id⟩] } }
  | none, _ => self

/-- The packet up to its payload. -/
def decHeader (stream : List UInt8) : Result (VarHeader Publish) := do
  let (fh, fhLen) ← decFixedHeader stream
  let (_, retain, qos, duplicate) ← fh.unwrap
  let (topicName, n) ← decField TopicName stream fhLen
  let (packetId, n) ←
    decFieldIf UInt16 stream n (qos = QoS.atLeastOnce ∨ qos = QoS.exactlyOnce)
  let (properties, n) ← decProps PublishProperties stream n
  .ok ⟨⟨retain, qos, duplicate, topicName, packetId, properties, none⟩, n,
    fhLen + fh.remainingLen.val.toNat⟩

/-- A payload that says it is text. -/
def validateText (self : Publish) : Result Unit :=
  match self.payload, self.properties.map PublishProperties.isPayloadUtf8 with
  | some payload, some true =>
    errIf (!isUtf8 payload) .malformedPacket .payloadFormatInvalid
      (pp ++ " payload invalid utf8 ")
  | _, _ => .ok ()

def validate (self : Publish) : Result Unit := do
  errIf (self.qos = .atMostOnce ∧ self.duplicate) .malformedPacket .malformedPacket
    (pp ++ " DUP is set for QoS-0")
  errIf (self.qos ≠ .atMostOnce ∧ self.packetId.isNone) .malformedPacket .malformedPacket
    (pp ++ " packet_id missing for QoS > 0 " ++ self.qos.debug)
  self.validateText

end Publish

instance : Packetize Publish where
  decode stream := do
    let hdr ← Publish.decHeader stream
    let m := hdr.packetEnd
    let (payload, n) ← cutPayload stream hdr.fieldsEnd m (.ok (none, hdr.fieldsEnd)) some
      (errCode .malformedPacket .malformedPacket (Publish.pp ++ s!" in payload {m}"))
    let val : Publish := { hdr.fields with payload := payload }
    val.validate
    .ok (val, n)

/-- PUBACK, PUBREC, PUBREL and PUBCOMP. -/
structure Pub where
  packetType : PacketType
  packetId : UInt16
  code : ReasonCode
  properties : Option PubProperties
  deriving DecidableEq, Repr

/-- Reason codes of PUBACK and PUBREC. -/
def Pub.ackCode : ReasonCode → Bool
  | .success | .noMatchingSubscribers | .unspecifiedError | .implementationError
  | .notAuthorized | .topicNameInvalid | .packetIdInuse | .packetIdNotFound
  | .quotaExceeded | .payloadFormatInvalid => true
  | _ => false

/-- Reason codes of PUBREL and PUBCOMP. -/
def Pub.relCode : ReasonCode → Bool
  | .success | .packetIdNotFound => true
  | _ => false

/-- Any other packet type is unreachable. -/
def Pub.validate (self : Pub) : Result Unit := do
  let invalidCode ← match self.packetType with
    | .pubAck | .pubRec => .ok (!Pub.ackCode self.code)
    | .pubRel | .pubComp => .ok (!Pub.relCode self.code)
    | _ => .panic
  errIf invalidCode .malformedPacket .malformedPacket ("invalid code " ++ self.code.debug)

/-- The code and the properties may both be left out. -/
def Pub.decFields (packetType : PacketType) (packetId : UInt16) (remainingLen : UInt32)
    (stream : List UInt8) (n : ℕ) : Result (Pub × ℕ) :=
  if remainingLen = 2 then .ok (⟨packetType, packetId, .success, none⟩, n)
  else if remainingLen = 3 then do
    let (val, n) ← decField UInt8 stream n
    let code ← ReasonCode.tryFrom val
    .ok (⟨packetType, packetId, code, none⟩, n)
  else do
    let (val, n) ← decField UInt8 stream n
    let code ← ReasonCode.tryFrom val
    let (properties, n) ← decProps PubProperties stream n
    .ok (⟨packetType, packetId, code, properties⟩, n)

instance : Packetize Pub where
  decode stream := do
    let (fh, n) ← decFixedHeader stream
    let (packetType, _, _, _) ← fh.unwrap
    let (packetId, n) ← decField UInt16 stream n
    let (packet, n) ← Pub.decFields packetType packetId fh.remainingLen.val stream n
    packet.validate
    .ok (packet, n)

structure SubscriptionOpt where
  val : UInt8
  deriving DecidableEq, Repr

namespace SubscriptionOpt

def maximumQos : UInt8 := 0b00000011
def retainHandling : UInt8 := 0b00110000
def reserved : UInt8 := 0b11000000

end SubscriptionOpt

instance : Packetize SubscriptionOpt where
  decode stream := do
    let (opt, n) ← decField UInt8 stream 0
    .ok (⟨opt⟩, n)

structure SubscribeFilter where
  topicFilter : TopicFilter
  opt : SubscriptionOpt
  deriving DecidableEq, Repr

instance : Packetize SubscribeFilter where
  decode stream := do
    let (topicFilter, n) ← decField TopicFilter stream 0
    let (opt, n) ← decField SubscriptionOpt stream n
    .ok (⟨topicFilter, opt⟩, n)

structure Subscribe where
  packetId : UInt16
  properties : Option SubscribeProperties
  filters : List SubscribeFilter
  deriving DecidableEq, Repr

def SubscribeFilter.validateOpt (filter : SubscribeFilter) : Result Unit := do
  let opt := filter.opt.val
  errIf (opt &&& SubscriptionOpt.reserved > 0) .malformedPacket .malformedPacket
    (Subscribe.pp ++ " sub-opt reserved bit != 0 0x" ++ FixedHeader.hexDigits opt)
  errIf ((opt &&& SubscriptionOpt.retainHandling) >>> 4 = 3) .malformedPacket .malformedPacket
    (Subscribe.pp ++ " invalid retain handling 0x" ++ FixedHeader.hexDigits opt)
  let _ ← QoS.tryFrom (opt &&& SubscriptionOpt.maximumQos)
  .ok ()

def Subscribe.validate (self : Subscribe) : Result Unit := do
  errIf (self.filters.length = 0) .protocolError .protocolError (pp ++ " missing topic filter")
  self.filters.forM SubscribeFilter.validateOpt

instance : Packetize Subscribe where
  decode stream := do
    let hdr ← decIdHeader SubscribeProperties stream
    let m := hdr.packetEnd
    let inPayload := errCode .malformedPacket .malformedPacket
      (Subscribe.pp ++ s!" in payload {m}")
    let (payload, n) ← cutPayload stream hdr.fieldsEnd m inPayload id inPayload
    let filters ← decAll SubscribeFilter payload
    let val : Subscribe := ⟨hdr.fields.1, hdr.fields.2, filters⟩
    val.validate
    .ok (val, n)

inductive SubAckReasonCode where
  | qos0
  | qos1
  | qos2
  | unspecifiedError
  | implementationError
  | notAuthorized
  | invalidTopicFilter
  | packetIdInuse
  | quotaExceeded
  | sharedSubscriptionsNotSupported
  | subscriptionIdNotSupported
  | wildcardSubscriptionsNotSupported
  deriving DecidableEq, Repr

def SubAckReasonCode.tryFrom (val : UInt8) : Result SubAckReasonCode :=
  match val with
  | 0x0 => .ok .qos0
  | 0x1 => .ok .qos1
  | 0x2 => .ok .qos2
  | 0x80 => .ok .unspecifiedError
  | 0x83 => .ok .implementationError
  | 0x87 => .ok .notAuthorized
  | 0x8f => .ok .invalidTopicFilter
  | 0x91 => .ok .packetIdInuse
  | 0x97 => .ok .quotaExceeded
  | 0x9e => .ok .sharedSubscriptionsNotSupported
  | 0xa1 => .ok .subscriptionIdNotSupported
  | 0xa2 => .ok .wildcardSubscriptionsNotSupported
  | val => errCode .malformedPacket .malformedPacket (SubAck.pp ++ s!" reason-code {val}")

structure SubAck where
  packetId : UInt16
  properties : Option SubAckProperties
  returnCodes : List SubAckReasonCode
  deriving DecidableEq, Repr

instance : Packetize SubAck where
  decode stream := do
    let hdr ← decIdHeader SubAckProperties stream
    let m := hdr.packetEnd
    let (payload, n) ← cutPayload stream hdr.fieldsEnd m
      (errCode .malformedPacket .malformedPacket (SubAck.pp ++ " no payload")) id
      (errCode .malformedPacket .malformedPacket (SubAck.pp ++ s!" in payload {m}"))
    let returnCodes ← payload.mapM SubAckReasonCode.tryFrom
    .ok (⟨hdr.fields.1, hdr.fields.2, returnCodes⟩, n)

structure UnSubscribe where
  packetId : UInt16
  properties : Option UnSubscribeProperties
  filters : List TopicFilter
  deriving DecidableEq, Repr

def UnSubscribe.validate (self : UnSubscribe) : Result Unit :=
  errIf (self.filters.length = 0) .protocolError .protocolError (pp ++ " topic filter missing")

instance : Packetize UnSubscribe where
  decode stream := do
    let hdr ← decIdHeader UnSubscribeProperties stream
    let m := hdr.packetEnd
    let inPayload := errCode .protocolError .protocolError
      (UnSubscribe.pp ++ s!" in payload {m}")
    let (payload, n) ← cutPayload stream hdr.fieldsEnd m inPayload id inPayload
    let filters ← decAll TopicFilter payload
    let val : UnSubscribe := ⟨hdr.fields.1, hdr.fields.2, filters⟩
    val.validate
    .ok (val, n)

inductive UnsubAckReasonCode where
  | qos0
  | noSubscriptionExisted
  | unspecifiedError
  | implementationError
  | notAuthorized
  | invalidTopicFilter
  | packetIdInuse
  deriving DecidableEq, Repr

def UnsubAckReasonCode.tryFrom (val : UInt8) : Result UnsubAckReasonCode :=
  match val with
  | 0x0 => .ok .qos0
  | 0x11 => .ok .noSubscriptionExisted
  | 0x80 => .ok .unspecifiedError
  | 0x83 => .ok .implementationError
  | 0x87 => .ok .notAuthorized
  | 0x8f => .ok .invalidTopicFilter
  | 0x91 => .ok .packetIdInuse
  | val => errCode .malformedPacket .malformedPacket (UnsubAck.pp ++ s!" reason-code {val}")

structure UnsubAck where
  packetId : UInt16
  properties : Option UnsubAckProperties
  returnCodes : List UnsubAckReasonCode
  deriving DecidableEq, Repr

instance : Packetize UnsubAck where
  decode stream := do
    let hdr ← decIdHeader UnsubAckProperties stream
    let m := hdr.packetEnd
    let (payload, n) ← cutPayload stream hdr.fieldsEnd m
      (errCode .malformedPacket .malformedPacket (UnsubAck.pp ++ " no payload")) id
      (errCode .malformedPacket .malformedPacket (UnsubAck.pp ++ s!" in payload {m}"))
    let returnCodes ← payload.mapM UnsubAckReasonCode.tryFrom
    .ok (⟨hdr.fields.1, hdr.fields.2, returnCodes⟩, n)

section Payload
variable {α β γ : Type} {s : List UInt8}

/-- A payload that begins before it ends is cut out. -/
theorem cutPayload_sat {n m : ℕ} {empty short : Result (β × ℕ)} {wrap : List UInt8 → β}
    {Q : β × ℕ → Prop} (hnm : n ≤ m) (hempty : empty.Sat Q) (hwrap : ∀ p, Q (wrap p, m))
    (hshort : short.Sat Q) : (cutPayload s n m empty wrap short).Sat Q := by
  unfold cutPayload
  split_ifs with heq hlen
  · exact hempty
  · rw [slice_of_le hnm hlen]
    exact hwrap _
  · exact hshort

/-- A payload that would end before it begins is an out-of-range slice. -/
theorem cutPayload_eq_panic {n m : ℕ} (empty short : Result (β × ℕ)) (wrap : List UInt8 → β)
    (hn : n ≤ s.length) (hmn : m < n) : cutPayload s n m empty wrap short = .panic := by
  have hslice : (slice s n m : Result (List UInt8)) = .panic :=
    slice_eq_panic.mpr fun h => absurd h.1 (by omega)
  rw [cutPayload, if_neg (by omega), if_pos (by omega), hslice]
  rfl

/-- The fields lie in the stream, and the packet ends where its fixed header says. -/
def VarHeader.Within (s : List UInt8) (hdr : VarHeader α) : Prop :=
  hdr.fieldsEnd ≤ s.length ∧ ∃ (fh : FixedHeader) (fhLen : ℕ), decode s = .ok (fh, fhLen) ∧
    hdr.packetEnd = fhLen + fh.remainingLen.val.toNat

/-- The payload that follows these fields ends before it begins. -/
def Overrun (header : Result (VarHeader α)) : Prop :=
  ∃ hdr, header = .ok hdr ∧ hdr.packetEnd < hdr.fieldsEnd

/-- A decoder that cuts a payload after its header aborts exactly if the payload overruns. -/
theorem payload_panic_iff {header : Result (VarHeader α)}
    {empty short : VarHeader α → Result (β × ℕ)} {wrap : List UInt8 → β}
    {tail : VarHeader α → β × ℕ → Result γ}
    (hheader : header.Sat (VarHeader.Within s))
    (hempty : ∀ hdr, (empty hdr).Sat fun _ => True) (hshort : ∀ hdr, (short hdr).Sat fun _ => True)
    (htail : ∀ hdr r, (tail hdr r).Sat fun _ => True) :
    (header >>= fun hdr =>
      cutPayload s hdr.fieldsEnd hdr.packetEnd (empty hdr) wrap (short hdr) >>= tail hdr) =
        .panic ↔ Overrun header := by
  constructor
  · intro hpanic
    rcases bind_eq_panic.mp hpanic with hp | ⟨hdr, hok, hp⟩
    · exact absurd hp hheader.ne_panic
    · refine ⟨hdr, hok, not_le.mp fun hle => ?_⟩
      have hcut : (cutPayload s hdr.fieldsEnd hdr.packetEnd (empty hdr) wrap (short hdr)).Sat
          fun _ => True := cutPayload_sat hle (hempty hdr) (fun _ => trivial) (hshort hdr)
      exact (hcut.bind fun r _ _ => htail hdr r).ne_panic hp
  · rintro ⟨hdr, rfl, hlt⟩
    rw [ok_bind, cutPayload_eq_panic _ _ _ hheader.1 hlt]
    rfl

end Payload

theorem decIdHeader_sat (α : Type) [Packetize α] [Packetize.Bounded α] (s : List UInt8) :
    (decIdHeader α s).Sat (VarHeader.Within s) := by
  apply (decFixedHeader_sat s).bind
  intro fh hok hfh
  apply (decField_sat UInt16 s fh.2).bind
  intro id _ hid
  apply (decProps_sat α s id.2).bind
  intro props _ hprops
  exact ⟨hprops.2, fh.1, fh.2, (decFixedHeader_eq s).symm.trans hok, rfl⟩

theorem decAll_sat (α : Type) [Packetize α] [Packetize.Bounded α] (payload : List UInt8) :
    (decAll α payload).Sat fun _ => True := by
  have htake (vals : List α) (val : α) :
      (Outcome.ok (vals ++ [val]) : Result (List α)).Sat fun _ => True := trivial
  exact (readLoop_sat (decField_sat α payload) htake (Nat.zero_le _)
    (Nat.lt_succ_self _) []).bind fun _ _ _ => trivial

namespace Publish

theorem decHeader_sat (s : List UInt8) : (decHeader s).Sat (VarHeader.Within s) := by
  apply (decFixedHeader_sat s).bind
  intro fh hok hfh
  obtain ⟨t, flags, hu⟩ := FixedHeader.unwrap_of_unwraps hfh.1
  dsimp only
  rw [hu, ok_bind]
  apply (decField_sat TopicName s fh.2).bind
  intro topic _ htopic
  apply (decFieldIf_sat UInt16 htopic.2 _).bind
  intro id _ hid
  apply (decProps_sat PublishProperties s id.2).bind
  intro props _ hprops
  exact ⟨hprops.2, fh.1, fh.2, (decFixedHeader_eq s).symm.trans hok, rfl⟩

theorem validate_sat (self : Publish) : self.validate.Sat fun _ => True := by
  unfold validate
  apply (errIf_sat _ _ _ _).bind
  intro _ _ _
  apply (errIf_sat _ _ _ _).bind
  intro _ _ _
  unfold validateText
  split
  · exact (errIf_sat _ _ _ _).mono fun _ _ => trivial
  · trivial

theorem decode_panic_iff (s : List UInt8) :
    (decode s : Result (Publish × ℕ)) = .panic ↔ Overrun (decHeader s) := by
  refine payload_panic_iff (decHeader_sat s) (fun _ => trivial) (fun _ => errCode_sat _ _ _ _)
    fun hdr r => ?_
  exact (validate_sat _).bind fun _ _ _ => trivial

end Publish

namespace Pub

theorem decFields_sat (t : PacketType) (id : UInt16) (len : UInt32) {s : List UInt8} {n : ℕ}
    (hn : n ≤ s.length) :
    (decFields t id len s n).Sat fun r => r.1.packetType = t ∧ n ≤ r.2 ∧ r.2 ≤ s.length := by
  unfold decFields
  split_ifs
  · exact ⟨rfl, le_rfl, hn⟩
  · apply (decField_sat UInt8 s n).bind
    intro code _ hcode
    apply (ReasonCode.tryFrom_sat code.1).bind
    intro _ _ _
    exact ⟨rfl, hcode.1.le, hcode.2⟩
  · apply (decField_sat UInt8 s n).bind
    intro code _ hcode
    apply (ReasonCode.tryFrom_sat code.1).bind
    intro _ _ _
    apply (decProps_sat PubProperties s code.2).bind
    intro props _ hprops
    exact ⟨rfl, by omega, hprops.2⟩

/-- The packet types that `Pub` stands for. -/
def IsPub (t : PacketType) : Prop := t = .pubAck ∨ t = .pubRec ∨ t = .pubRel ∨ t = .pubComp

theorem validate_sat {self : Pub} (h : IsPub self.packetType) :
    self.validate.Sat fun _ => True := by
  unfold validate
  rcases h with h | h | h | h <;> rw [h] <;> exact (errIf_sat _ _ _ _).mono fun _ _ => trivial

theorem decode_sat {s : List UInt8} {fh : FixedHeader} {k : ℕ} {t : PacketType}
    {flags : Bool × QoS × Bool} (hfh : decode s = .ok (fh, k))
    (hu : fh.unwrap = .ok (t, flags)) (ht : IsPub t) :
    (decode s : Result (Pub × ℕ)).Sat fun _ => True := by
  have hheader : decFixedHeader s = .ok (fh, k) := (decFixedHeader_eq s).trans hfh
  have hdef : (decode s : Result (Pub × ℕ)) = (do
      let (packetId, n) ← decField UInt16 s k
      let (packet, n) ← decFields t packetId fh.remainingLen.val s n
      packet.validate
      .ok (packet, n)) := by
    change (decFixedHeader s >>= _) = _
    rw [hheader, ok_bind]
    dsimp only
    rw [hu, ok_bind]
  rw [hdef]
  apply (decField_sat UInt16 s k).bind
  intro id _ hid
  apply (decFields_sat t id.1 _ hid.2).bind
  intro r _ hr
  refine (validate_sat ?_).bind fun _ _ _ => trivial
  rw [hr.1]
  exact ht

theorem decFields_eq_ok {t : PacketType} {id : UInt16} {len : UInt32} {s : List UInt8} {n m : ℕ}
    {pkt : Pub} (h : decFields t id len s n = .ok (pkt, m)) :
    pkt.packetType = t ∧
      ((len = 2 ∧ pkt.properties = none ∧ m = n) ∨
        (len ≠ 2 ∧ len = 3 ∧ pkt.properties = none ∧ ∃ val, decField UInt8 s n = .ok (val, m)) ∨
        (len ≠ 2 ∧ len ≠ 3 ∧ CodeThenProps PubProperties s n m pkt.properties)) := by
  unfold decFields at h
  split_ifs at h with htwo hthree
  · obtain ⟨rfl, rfl⟩ := Prod.mk.inj (Outcome.ok.inj h)
    exact ⟨rfl, .inl ⟨htwo, rfl, rfl⟩⟩
  · obtain ⟨⟨val, n₁⟩, hval, h⟩ := bind_eq_ok.mp h
    obtain ⟨code, -, h⟩ := bind_eq_ok.mp h
    obtain ⟨rfl, rfl⟩ := Prod.mk.inj (Outcome.ok.inj h)
    exact ⟨rfl, .inr (.inl ⟨htwo, hthree, rfl, val, hval⟩)⟩
  · obtain ⟨⟨val, n₁⟩, hval, h⟩ := bind_eq_ok.mp h
    obtain ⟨code, -, h⟩ := bind_eq_ok.mp h
    obtain ⟨⟨properties, n₂⟩, hprops, h⟩ := bind_eq_ok.mp h
    obtain ⟨rfl, rfl⟩ := Prod.mk.inj (Outcome.ok.inj h)
    exact ⟨rfl, .inr (.inr ⟨htwo, hthree, val, n₁, hval, hprops⟩)⟩

/-- The packet id, and what follows it. -/
theorem decode_eq_ok {s : List UInt8} {fh : FixedHeader} {k n : ℕ} {pkt : Pub}
    (hfh : decFixedHeader s = .ok (fh, k)) (h : decode s = .ok (pkt, n)) :
    pkt.validate = .ok () ∧ ∃ t flags id m, fh.unwrap = .ok (t, flags) ∧
      decField UInt16 s k = .ok (id, m) ∧
      decFields t id fh.remainingLen.val s m = .ok (pkt, n) := by
  obtain ⟨_, hfh', h⟩ := bind_eq_ok.mp h
  obtain rfl := Outcome.ok.inj (hfh.symm.trans hfh')
  obtain ⟨⟨t, flags⟩, hu, h⟩ := bind_eq_ok.mp h
  obtain ⟨⟨id, m⟩, hid, h⟩ := bind_eq_ok.mp h
  obtain ⟨⟨packet, n'⟩, hfields, h⟩ := bind_eq_ok.mp h
  obtain ⟨_, hvalid, h⟩ := bind_eq_ok.mp h
  obtain ⟨rfl, rfl⟩ := Prod.mk.inj (Outcome.ok.inj h)
  exact ⟨hvalid, t, flags, id, m, hu, hid, hfields⟩

end Pub

instance : Packetize.Bounded SubscriptionOpt where
  decode_sat s := (decField_sat UInt8 s 0).bind fun _ _ h => h

instance : Packetize.Bounded SubscribeFilter where
  decode_sat s := by
    apply (decField_sat TopicFilter s 0).bind
    intro filter _ hfilter
    apply (decField_sat SubscriptionOpt s filter.2).bind
    intro opt _ hopt
    simp only [sat_ok]
    omega

theorem SubscribeFilter.validateOpt_sat (filter : SubscribeFilter) :
    filter.validateOpt.Sat fun _ => True := by
  apply (errIf_sat _ _ _ _).bind
  intro _ _ _
  apply (errIf_sat _ _ _ _).bind
  intro _ _ _
  exact (QoS.tryFrom_sat _).bind fun _ _ _ => trivial

theorem SubAckReasonCode.tryFrom_sat (v : UInt8) :
    (SubAckReasonCode.tryFrom v).Sat fun _ => True := by
  unfold SubAckReasonCode.tryFrom
  split <;> trivial

theorem UnsubAckReasonCode.tryFrom_sat (v : UInt8) :
    (UnsubAckReasonCode.tryFrom v).Sat fun _ => True := by
  unfold UnsubAckReasonCode.tryFrom
  split <;> trivial

theorem Subscribe.decode_panic_iff (s : List UInt8) :
    (decode s : Result (Subscribe × ℕ)) = .panic ↔
      Overrun (decIdHeader SubscribeProperties s) := by
  refine payload_panic_iff (decIdHeader_sat _ s) (fun _ => errCode_sat _ _ _ _)
    (fun _ => errCode_sat _ _ _ _) fun hdr r => ?_
  apply (decAll_sat SubscribeFilter r.1).bind
  intro filters _ _
  have hvalid : (Subscribe.validate ⟨hdr.fields.1, hdr.fields.2, filters⟩).Sat fun _ => True :=
    (errIf_sat _ _ _ _).bind fun _ _ _ => forM_sat SubscribeFilter.validateOpt_sat filters
  exact hvalid.bind fun _ _ _ => trivial

theorem SubAck.decode_panic_iff (s : List UInt8) :
    (decode s : Result (SubAck × ℕ)) = .panic ↔ Overrun (decIdHeader SubAckProperties s) := by
  refine payload_panic_iff (decIdHeader_sat _ s) (fun _ => errCode_sat _ _ _ _)
    (fun _ => errCode_sat _ _ _ _) fun hdr r => ?_
  exact (mapM_sat SubAckReasonCode.tryFrom_sat r.1).bind fun _ _ _ => trivial

theorem UnSubscribe.decode_panic_iff (s : List UInt8) :
    (decode s : Result (UnSubscribe × ℕ)) = .panic ↔
      Overrun (decIdHeader UnSubscribeProperties s) := by
  refine payload_panic_iff (decIdHeader_sat _ s) (fun _ => errCode_sat _ _ _ _)
    (fun _ => errCode_sat _ _ _ _) fun hdr r => ?_
  apply (decAll_sat TopicFilter r.1).bind
  intro filters _ _
  exact (errIf_sat _ _ _ _).bind fun _ _ _ => trivial

theorem UnsubAck.decode_panic_iff (s : List UInt8) :
    (decode s : Result (UnsubAck × ℕ)) = .panic ↔ Overrun (decIdHeader UnsubAckProperties s) := by
  refine payload_panic_iff (decIdHeader_sat _ s) (fun _ => errCode_sat _ _ _ _)
    (fun _ => errCode_sat _ _ _ _) fun hdr r => ?_
  exact (mapM_sat UnsubAckReasonCode.tryFrom_sat r.1).bind fun _ _ _ => trivial

end Mqtr
