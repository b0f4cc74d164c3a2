import Mqtr.Wire.MessageLayouts
import Mqtr.Wire.Packet

/-! The encoders of the packets. Each writes its fields one after the other and puts a fixed header in
front of them. -/
namespace Mqtr
open Outcome Codec

def PacketType.debug : PacketType → String
  | .connect => "Connect"
  | .connAck => "ConnAck"
  | .publish => "Publish"
  | .pubAck => "PubAck"
  | .pubRec => "PubRec"
  | .pubRel => "PubRel"
  | .pubComp => "PubComp"
  | .subscribe => "Subscribe"
  | .subAck => "SubAck"
  | .unSubscribe => "UnSubscribe"
  | .unsubAck => "UnsubAck"
  | .pingReq => "PingReq"
  | .pingResp => "PingResp"
  | .disconnect => "Disconnect"
  | .auth => "Auth"

def MqttProtocol.toU8 : MqttProtocol → UInt8
  | .v4 => 4
  | .v5 => 5

def ConnackReasonCode.toU8 : ConnackReasonCode → UInt8
  | .success => 0x00
  | .unspecifiedError => 0x80
  | .malformedPacket => 0x81
  | .protocolError => 0x82
  | .implementationError => 0x83
  | .unsupportedProtocolVersion => 0x84
  | .invalidClientID => 0x85
  | .badLogin => 0x86
  | .notAuthorized => 0x87
  | .serverUnavailable => 0x88
  | .serverBusy => 0x89
  | .banned => 0x8a
  | .badAuthenticationMethod => 0x8c
  | .topicNameInvalid => 0x90
  | .packetTooLarge => 0x95
  | .quotaExceeded => 0x97
  | .payloadFormatInvalid => 0x99
  | .retainNotSupported => 0x9a
  | .invalidQoS => 0x9b
  | .useAnotherServer => 0x9c
  | .serverMoved => 0x9d
  | .exceedConnectionRate => 0x9f

def DisconnReasonCode.toU8 : DisconnReasonCode → UInt8
  | .normalDisconnect => 0x00
  | .diconnectWillMessage => 0x04
  | .unspecifiedError => 0x80
  | .malformedPacket => 0x81
  | .protocolError => 0x82
  | .implementationError => 0x83
  | .notAuthorized => 0x87
  | .serverBusy => 0x89
  | .serverShutdown => 0x8B
  | .keepAliveTimeout => 0x8D
  | .sessionTakenOver => 0x8E
  | .invalidTopicFilter => 0x8F
  | .topicNameInvalid => 0x90
  | .exceededReceiveMaximum => 0x93
  | .topicAliasInvalid => 0x94
  | .packetTooLarge => 0x95
  | .exceedMessageRate => 0x96
  | .quotaExceeded => 0x97
  | .adminAction => 0x98
  | .payloadFormatInvalid => 0x99
  | .retainNotSupported => 0x9A
  | .qosNotSupported => 0x9B
  | .useAnotherServer => 0x9C
  | .serverMoved => 0x9D
  | .unsupportedSharedSubscription => 0x9E
  | .exceedConnectionRate => 0x9F
  | .exceedMaximumConnectTime => 0xA0
  | .subscriptionIdNotSupported => 0xA1
  | .wildcardSubscriptionsNotSupported => 0xA2

def AuthReasonCode.toU8 : AuthReasonCode → UInt8
  | .success => 0x00
  | .continueAuthentication => 0x18
  | .reAuthenticate => 0x19

def SubAckReasonCode.toU8 : SubAckReasonCode → UInt8
  | .qos0 => 0x0
  | .qos1 => 0x1
  | .qos2 => 0x2
  | .unspecifiedError => 0x80
  | .implementationError => 0x83
  | .notAuthorized => 0x87
  | .invalidTopicFilter => 0x8f
  | .packetIdInuse => 0x91
  | .quotaExceeded => 0x97
  | .sharedSubscriptionsNotSupported => 0x9e
  | .subscriptionIdNotSupported => 0xa1
  | .wildcardSubscriptionsNotSupported => 0xa2

def UnsubAckReasonCode.toU8 : UnsubAckReasonCode → UInt8
  | .qos0 => 0x0
  | .noSubscriptionExisted => 0x11
  | .unspecifiedError => 0x80
  | .implementationError => 0x83
  | .notAuthorized => 0x87
  | .invalidTopicFilter => 0x8f
  | .packetIdInuse => 0x91

/-- A field that is written only if it is there. -/
def encOpt {α : Type} [Packetize.Encode α] (val : Option α) : Result (List UInt8) :=
  match val with
  | some val => encode val
  | none => .ok []

instance : Packetize.Encode Connect where
  encode self := do
    self.validate
    let data ← concat [
      encode self.protocolName,
      encode self.protocolVersion.toU8,
      encode self.flags.val,
      encode self.keepAlive,
      encProps self.properties,
      encode self.payload.clientId.val,
      -- written whether or not there is a will
      encProps self.payload.willProperties,
      encOpt self.payload.willTopic,
      encOpt self.payload.willPayload,
      encOpt self.payload.userName,
      encOpt self.payload.password]
    frame (FixedHeader.new .connect) data

instance : Packetize.Encode ConnAck where
  encode self := do
    let data ← concat [encode self.flags.val, encode self.code.toU8, encProps self.properties]
    frame (FixedHeader.new .connAck) data

instance : Packetize.Encode Publish where
  encode self := do
    let data ← concat [
      encode self.topicName,
      encOpt self.packetId,
      encProps self.properties,
      .ok (self.payload.getD [])]
    frame (FixedHeader.newPublish self.retain self.qos self.duplicate) data

/-- The header of the four acknowledgements. -/
def Pub.newHeader (packetType : PacketType) : VarU32 → Result FixedHeader :=
  match packetType with
  | .pubAck => FixedHeader.new .pubAck
  | .pubRel => FixedHeader.newPubrel
  | .pubRec => FixedHeader.new .pubRec
  | .pubComp => FixedHeader.new .pubComp
  | packetType => fun _ => errDesc .protocolError ("packet_type " ++ packetType.debug)

instance : Packetize.Encode Pub where
  encode self := do
    let data ← concat [encode self.packetId, encode self.code.toU8, encProps self.properties]
    frame (Pub.newHeader self.packetType) data

instance : Packetize.Encode SubscriptionOpt where
  encode self := encode self.val

instance : Packetize.Encode SubscribeFilter where
  encode self := do
    let topicFilter ← encode self.topicFilter
    let opt ← encode self.opt
    .ok (topicFilter ++ opt)

instance : Packetize.Encode Subscribe where
  encode self := do
    self.validate
    let data ← concat [encode self.packetId, encProps self.properties,
      concat (self.filters.map encode)]
    frame FixedHeader.newSubscribe data

instance : Packetize.Encode SubAck where
  encode self := do
    let data ← concat [encode self.packetId, encProps self.properties,
      .ok (self.returnCodes.map SubAckReasonCode.toU8)]
    frame (FixedHeader.new .subAck) data

instance : Packetize.Encode UnSubscribe where
  encode self := do
    let data ← concat [encode self.packetId, encProps self.properties,
      concat (self.filters.map encode)]
    frame FixedHeader.newUnsubscribe data

/-- The header is that of a SUBACK. -/
instance : Packetize.Encode UnsubAck where
  encode self := do
    let data ← concat [encode self.packetId, encProps self.properties,
      .ok (self.returnCodes.map UnsubAckReasonCode.toU8)]
    frame (FixedHeader.new .subAck) data

/-- The header is that of a PINGRESP. -/
instance : Packetize.Encode PingReq where
  encode _ := do
    let fh ← FixedHeader.new .pingResp ⟨0⟩
    encode fh

/-- The header is that of a PINGREQ. -/
instance : Packetize.Encode PingResp where
  encode _ := do
    let fh ← FixedHeader.new .pingReq ⟨0⟩
    encode fh

instance : Packetize.Encode Disconnect where
  encode self := do
    let data ← concat [encode self.code.toU8, encProps self.properties]
    frame (FixedHeader.new .disconnect) data

instance : Packetize.Encode Auth where
  encode self := do
    let data ← concat [encode self.code.toU8, encProps self.properties]
    frame (FixedHeader.new .auth) data

instance : Packetize.Encode Packet where
  encode
    | .connect pkt => encode pkt
    | .connAck pkt => encode pkt
    | .publish pkt => encode pkt
    | .pubAck pkt => encode pkt
    | .pubRec pkt => encode pkt
    | .pubRel pkt => encode pkt
    | .pubComp pkt => encode pkt
    | .subscribe pkt => encode pkt
    | .subAck pkt => encode pkt
    | .unSubscribe pkt => encode pkt
    | .unsubAck pkt => encode pkt
    | .pingReq => encode PingReq.pingReq
    | .pingResp => encode PingResp.pingResp
    | .disconnect pkt => encode pkt
    | .auth pkt => encode pkt

/-- A table of codes: the numbers that are read are those that are written. -/
structure CodeTable {α : Type} (tryFrom : UInt8 → Result α) (toU8 : α → UInt8) : Prop where
  tryFrom_toU8 (code : α) : tryFrom (toU8 code) = .ok code
  toU8_of_tryFrom {val : UInt8} {code : α} : tryFrom val = .ok code → toU8 code = val

section Tables
variable {α : Type} {tryFrom : UInt8 → Result α} {toU8 : α → UInt8}

theorem CodeTable.mapM_toU8 (table : CodeTable tryFrom toU8) (codes : List α) :
    (codes.map toU8).mapM tryFrom = .ok codes := by
  induction codes with
  | nil => rfl
  | cons code codes ih =>
    rw [List.map_cons, List.mapM_cons, table.tryFrom_toU8, ok_bind, ih]
    rfl

theorem CodeTable.toU8_of_mapM (table : CodeTable tryFrom toU8) {vals : List UInt8}
    {codes : List α} (h : vals.mapM tryFrom = .ok codes) : codes.map toU8 = vals := by
  induction vals generalizing codes with
  | nil =>
    obtain rfl : [] = codes := Outcome.ok.inj h
    rfl
  | cons val vals ih =>
    rw [List.mapM_cons] at h
    obtain ⟨code, hcode, h⟩ := bind_eq_ok.mp h
    obtain ⟨rest, hrest, h⟩ := bind_eq_ok.mp h
    obtain rfl : code :: rest = codes := Outcome.ok.inj h
    rw [List.map_cons, table.toU8_of_tryFrom hcode, ih hrest]

end Tables

theorem MqttProtocol.table : CodeTable tryFrom toU8 where
  tryFrom_toU8 code := by cases code <;> rfl
  toU8_of_tryFrom h := by
    unfold tryFrom at h
    split at h <;> first | exact absurd h (errCode_ne_ok _ _ _ _) | (cases Outcome.ok.inj h; rfl)

theorem ReasonCode.table : CodeTable tryFrom toU8 where
  tryFrom_toU8 code := by cases code <;> rfl
  toU8_of_tryFrom h := by
    unfold tryFrom at h
    split at h <;> first | exact absurd h (errCode_ne_ok _ _ _ _) | (cases Outcome.ok.inj h; rfl)

theorem ConnackReasonCode.table : CodeTable tryFrom toU8 where
  tryFrom_toU8 code := by cases code <;> rfl
  toU8_of_tryFrom h := by
    unfold tryFrom at h
    split at h <;> first | exact absurd h (errCode_ne_ok _ _ _ _) | (cases Outcome.ok.inj h; rfl)

theorem DisconnReasonCode.table : CodeTable tryFrom toU8 where
  tryFrom_toU8 code := by cases code <;> rfl
  toU8_of_tryFrom h := by
    unfold tryFrom at h
    split at h <;> first | exact absurd h (errCode_ne_ok _ _ _ _) | (cases Outcome.ok.inj h; rfl)

theorem AuthReasonCode.table : CodeTable tryFrom toU8 where
  tryFrom_toU8 code := by cases code <;> rfl
  toU8_of_tryFrom h := by
    unfold tryFrom at h
    split at h <;> first | exact absurd h (errCode_ne_ok _ _ _ _) | (cases Outcome.ok.inj h; rfl)

theorem SubAckReasonCode.table : CodeTable tryFrom toU8 where
  tryFrom_toU8 code := by cases code <;> rfl
  toU8_of_tryFrom h := by
    unfold tryFrom at h
    split at h <;> first | exact absurd h (errCode_ne_ok _ _ _ _) | (cases Outcome.ok.inj h; rfl)

instance : Packetize.ReadsBack SubscriptionOpt where
  decode_encode {v b} h rest := by
    have hval : encode v.val = .ok b := h
    show (decField UInt8 _ 0 >>= _) = _
    rw [decField_at hval (.start _), ok_bind, Nat.zero_add]

instance : Packetize.WritesBack SubscriptionOpt where
  encode_decode {s v n} h := by
    obtain ⟨⟨opt, k⟩, hopt, h⟩ := bind_eq_ok.mp h
    obtain ⟨rfl, rfl⟩ := Prod.mk.inj (Outcome.ok.inj h)
    obtain ⟨b, hb, hle⟩ := encode_decField hopt
    exact ⟨b, hb, by omega⟩

instance : Packetize.ReadsBack SubscribeFilter where
  decode_encode {v b} h rest := by
    obtain ⟨filter, hfilter, h⟩ := bind_eq_ok.mp h
    obtain ⟨opt, hopt, h⟩ := bind_eq_ok.mp h
    obtain rfl := Outcome.ok.inj h
    have hat : At (filter ++ opt ++ rest) 0 (filter ++ (opt ++ rest)) := by
      rw [← List.append_assoc]
      exact .start _
    show (decField TopicFilter _ 0 >>= _) = _
    rw [decField_at hfilter hat, ok_bind]
    dsimp only
    rw [decField_at hopt hat.next, ok_bind, List.length_append, Nat.zero_add]

instance : Packetize.WritesBack SubscribeFilter where
  encode_decode {s v n} h := by
    obtain ⟨⟨filter, k⟩, hfilter, h⟩ := bind_eq_ok.mp h
    obtain ⟨⟨opt, m⟩, hopt, h⟩ := bind_eq_ok.mp h
    obtain ⟨rfl, rfl⟩ := Prod.mk.inj (Outcome.ok.inj h)
    obtain ⟨b, hb, hle⟩ := encode_decField hfilter
    obtain ⟨c, hc, hle'⟩ := encode_decField hopt
    refine ⟨b ++ c, ?_, ?_⟩
    · show (encode filter >>= _) = _
      rw [hb, ok_bind, hc]
      rfl
    · rw [List.length_append]
      omega

end Mqtr
