import Mqtr.Wire.Properties

/-! The packets that open, keep and close a connection: CONNECT, CONNACK, the pings, DISCONNECT and
AUTH. -/
namespace Mqtr
open Outcome

/-- Every packet decoder begins here. The header has been validated when it is decoded, and is
validated once more. -/
def decFixedHeader (stream : List UInt8) : Result (FixedHeader × ℕ) := do
  let (fh, n) ← decField FixedHeader stream 0
  fh.validate
  .ok (fh, n)

/-- `std::str::from_utf8` succeeds. -/
def isUtf8 (bytes : List UInt8) : Bool := (String.fromUTF8? bytes.toByteArray).isSome

inductive MqttProtocol where
  | v4
  | v5
  deriving DecidableEq, Repr

def MqttProtocol.tryFrom (val : UInt8) : Result MqttProtocol :=
  match val with
  | 4 => .ok .v4
  | 5 => .ok .v5
  | val => errCode .malformedPacket .unsupportedProtocolVersion s!"found: {val}"

def MqttProtocol.debug : MqttProtocol → String
  | .v4 => "V4"
  | .v5 => "V5"

structure ConnectFlags where
  val : UInt8
  deriving DecidableEq, Repr

namespace ConnectFlags

def cleanStart : UInt8 := 0b00000010
def willFlag : UInt8 := 0b00000100
def willRetain : UInt8 := 0b00100000
def username : UInt8 := 0b01000000
def password : UInt8 := 0b10000000
def willQosMask : UInt8 := 0b00011000

def isWillFlag (self : ConnectFlags) : Bool := self.val &&& willFlag > 0

def isUsername (self : ConnectFlags) : Bool := self.val &&& username > 0

def isPassword (self : ConnectFlags) : Bool := self.val &&& password > 0

/-- Clean start, will flag, will QoS, will retain. The mask is shifted, not what it selects. -/
def unwrap (self : ConnectFlags) : Result (Bool × Bool × QoS × Bool) := do
  let willQos ← (QoS.tryFrom (self.val &&& (willQosMask >>> 3))).unwrap
  .ok (self.val &&& cleanStart > 0, self.val &&& willFlag > 0, willQos,
    self.val &&& willRetain > 0)

def validate (self : ConnectFlags) : Result Unit :=
  errIf (self.val &&& 0b00000001 > 0) .malformedPacket .malformedPacket
    "connect-flag resrvd bit is 1"

end ConnectFlags

instance : Packetize ConnectFlags where
  decode stream := do
    let (flags, n) ← decField UInt8 stream 0
    let flags : ConnectFlags := ⟨flags⟩
    flags.validate
    .ok (flags, n)

structure ConnectPayload where
  clientId : ClientID
  willProperties : Option WillProperties
  willTopic : Option TopicName
  willPayload : Option (List UInt8)
  userName : Option String
  password : Option String
  deriving DecidableEq, Repr

structure Connect where
  protocolName : String
  protocolVersion : MqttProtocol
  flags : ConnectFlags
  keepAlive : UInt16
  properties : Option ConnectProperties
  payload : ConnectPayload
  deriving DecidableEq, Repr

namespace Connect

/-- The will that the flags announce. -/
def validateWill (self : Connect) : Result Unit :=
  if self.payload.willTopic.isNone then
    errCode .malformedPacket .malformedPacket (pp ++ " missing will-topic")
  else if self.payload.willProperties.isNone then
    errCode .malformedPacket .malformedPacket (pp ++ " missing will-properties")
  else if self.payload.willPayload.isNone then
    errCode .malformedPacket .malformedPacket (pp ++ " missing will-payload")
  else .ok ()

/-- A will message that says it is text. The payload is unwrapped. -/
def validateWillText (pld : ConnectPayload) : Result Unit :=
  if pld.willProperties.map WillProperties.isUtf8 = some true then
    match pld.willPayload with
    | none => .panic
    | some bytes =>
      errIf (!isUtf8 bytes) .malformedPacket .malformedPacket
        (pp ++ " will-message:payload not utf8")
  else .ok ()

def validate (self : Connect) : Result Unit := do
  errIf (self.protocolName ≠ "MQTT") .protocolError .unsupportedProtocolVersion
    (pp ++ " proto-name " ++ self.protocolName.quote)
  errIf (self.protocolVersion ≠ .v5) .protocolError .unsupportedProtocolVersion
    (pp ++ " proto-version " ++ self.protocolVersion.debug)
  self.flags.validate
  let flags := self.flags.val
  let _ ← QoS.tryFrom ((flags &&& ConnectFlags.willQosMask) >>> 3)
  if flags &&& ConnectFlags.willFlag > 0 then self.validateWill else .ok ()
  validateWillText self.payload

end Connect

instance : Packetize Connect where
  decode stream := do
    let (_, n) ← decFixedHeader stream
    let (protocolName, n) ← decField String stream n
    let (val, n) ← decField UInt8 stream n
    let protocolVersion ← MqttProtocol.tryFrom val
    let (flags, n) ← decField ConnectFlags stream n
    let (keepAlive, n) ← decField UInt16 stream n
    let (properties, n) ← decProps ConnectProperties stream n
    let willFlag := flags.isWillFlag
    let (clientId, n) ← decField String stream n
    let (willProperties, n) ← decPropsIf WillProperties stream n willFlag
    let (willTopic, n) ← decFieldIf TopicName stream n willFlag
    let (willPayload, n) ← decFieldIf (List UInt8) stream n willFlag
    let (userName, n) ← decFieldIf String stream n flags.isUsername
    let (password, n) ← decFieldIf String stream n flags.isPassword
    let val : Connect :=
      ⟨protocolName, protocolVersion, flags, keepAlive, properties,
        ⟨⟨clientId⟩, willProperties, willTopic, willPayload, userName, password⟩⟩
    val.validate
    .ok (val, n)

structure ConnackFlags where
  val : UInt8
  deriving DecidableEq, Repr

/-- The session-present bit. -/
def ConnackFlags.unwrap (self : ConnackFlags) : Result Bool := do
  errIf (self.val &&& 0b11111110 > 0) .malformedPacket .malformedPacket
    (ConnAck.pp ++ " flags " ++ toString self.val)
  .ok (self.val &&& 0b00000001 > 0)

instance : Packetize ConnackFlags where
  decode stream := do
    let (flags, n) ← decField UInt8 stream 0
    let flags : ConnackFlags := ⟨flags⟩
    let _ ← flags.unwrap
    .ok (flags, n)

inductive ConnackReasonCode where
  | success
  | unspecifiedError
  | malformedPacket
  | protocolError
  | implementationError
  | unsupportedProtocolVersion
  | invalidClientID
  | badLogin
  | notAuthorized
  | serverUnavailable
  | serverBusy
  | banned
  | badAuthenticationMethod
  | topicNameInvalid
  | packetTooLarge
  | quotaExceeded
  | payloadFormatInvalid
  | retainNotSupported
  | invalidQoS
  | useAnotherServer
  | serverMoved
  | exceedConnectionRate
  deriving DecidableEq, Repr

def ConnackReasonCode.tryFrom (val : UInt8) : Result ConnackReasonCode :=
  match val with
  | 0x00 => .ok .success
  | 0x80 => .ok .unspecifiedError
  | 0x81 => .ok .malformedPacket
  | 0x82 => .ok .protocolError
  | 0x83 => .ok .implementationError
  | 0x84 => .ok .unsupportedProtocolVersion
  | 0x85 => .ok .invalidClientID
  | 0x86 => .ok .badLogin
  | 0x87 => .ok .notAuthorized
  | 0x88 => .ok .serverUnavailable
  | 0x89 => .ok .serverBusy
  | 0x8a => .ok .banned
  | 0x8c => .ok .badAuthenticationMethod
  | 0x90 => .ok .topicNameInvalid
  | 0x95 => .ok .packetTooLarge
  | 0x97 => .ok .quotaExceeded
  | 0x99 => .ok .payloadFormatInvalid
  | 0x9a => .ok .retainNotSupported
  | 0x9b => .ok .invalidQoS
  | 0x9c => .ok .useAnotherServer
  | 0x9d => .ok .serverMoved
  | 0x9f => .ok .exceedConnectionRate
  | val => errCode .malformedPacket .malformedPacket (ConnAck.pp ++ s!" reason-code {val}")

structure ConnAck where
  flags : ConnackFlags
  code : ConnackReasonCode
  properties : Option ConnAckProperties
  deriving DecidableEq, Repr

instance : Packetize ConnAck where
  decode stream := do
    let (_, n) ← decFixedHeader stream
    let (flags, n) ← decField ConnackFlags stream n
    let (code, n) ← decField UInt8 stream n
    let code ← ConnackReasonCode.tryFrom code
    let (properties, n) ← decProps ConnAckProperties stream n
    .ok (⟨flags, code, properties⟩, n)

inductive PingReq where
  | pingReq
  deriving DecidableEq, Repr

instance : Packetize PingReq where
  decode stream := do
    let (_, n) ← decFixedHeader stream
    .ok (.pingReq, n)

inductive PingResp where
  | pingResp
  deriving DecidableEq, Repr

instance : Packetize PingResp where
  decode stream := do
    let (_, n) ← decFixedHeader stream
    .ok (.pingResp, n)

inductive DisconnReasonCode where
  | normalDisconnect
  | diconnectWillMessage
  | unspecifiedError
  | malformedPacket
  | protocolError
  | implementationError
  | notAuthorized
  | serverBusy
  | serverShutdown
  | keepAliveTimeout
  | sessionTakenOver
  | invalidTopicFilter
  | topicNameInvalid
  | exceededReceiveMaximum
  | topicAliasInvalid
  | packetTooLarge
  | exceedMessageRate
  | quotaExceeded
  | adminAction
  | payloadFormatInvalid
  | retainNotSupported
  | qosNotSupported
  | useAnotherServer
  | serverMoved
  | unsupportedSharedSubscription
  | exceedConnectionRate
  | exceedMaximumConnectTime
  | subscriptionIdNotSupported
  | wildcardSubscriptionsNotSupported
  deriving DecidableEq, Repr

def DisconnReasonCode.tryFrom (val : UInt8) : Result DisconnReasonCode :=
  match val with
  | 0x00 => .ok .normalDisconnect
  | 0x04 => .ok .diconnectWillMessage
  | 0x80 => .ok .unspecifiedError
  | 0x81 => .ok .malformedPacket
  | 0x82 => .ok .protocolError
  | 0x83 => .ok .implementationError
  | 0x87 => .ok .notAuthorized
  | 0x89 => .ok .serverBusy
  | 0x8B => .ok .serverShutdown
  | 0x8D => .ok .keepAliveTimeout
  | 0x8E => .ok .sessionTakenOver
  | 0x8F => .ok .invalidTopicFilter
  | 0x90 => .ok .topicNameInvalid
  | 0x93 => .ok .exceededReceiveMaximum
  | 0x94 => .ok .topicAliasInvalid
  | 0x95 => .ok .packetTooLarge
  | 0x96 => .ok .exceedMessageRate
  | 0x97 => .ok .quotaExceeded
  | 0x98 => .ok .adminAction
  | 0x99 => .ok .payloadFormatInvalid
  | 0x9A => .ok .retainNotSupported
  | 0x9B => .ok .qosNotSupported
  | 0x9C => .ok .useAnotherServer
  | 0x9D => .ok .serverMoved
  | 0x9E => .ok .unsupportedSharedSubscription
  | 0x9F => .ok .exceedConnectionRate
  | 0xA0 => .ok .exceedMaximumConnectTime
  | 0xA1 => .ok .subscriptionIdNotSupported
  | 0xA2 => .ok .wildcardSubscriptionsNotSupported
  | val => errCode .malformedPacket .malformedPacket
    (" " ++ Disconnect.pp ++ s!" reason-code {val}")

structure Disconnect where
  code : DisconnReasonCode
  properties : Option DisconnProperties
  deriving DecidableEq, Repr

instance : Packetize Disconnect where
  decode stream := do
    let (fh, n) ← decFixedHeader stream
    if fh.remainingLen.val = 0 then .ok (⟨.normalDisconnect, none⟩, n)
    else if fh.remainingLen.val < 2 then do
      let (code, n) ← decField UInt8 stream n
      let code ← DisconnReasonCode.tryFrom code
      .ok (⟨code, none⟩, n)
    else do
      let (code, n) ← decField UInt8 stream n
      let code ← DisconnReasonCode.tryFrom code
      let (properties, n) ← decProps DisconnProperties stream n
      .ok (⟨code, properties⟩, n)

inductive AuthReasonCode where
  | success
  | continueAuthentication
  | reAuthenticate
  deriving DecidableEq, Repr

def AuthReasonCode.tryFrom (val : UInt8) : Result AuthReasonCode :=
  match val with
  | 0x00 => .ok .success
  | 0x18 => .ok .continueAuthentication
  | 0x19 => .ok .reAuthenticate
  | val => errCode .protocolError .protocolError (Auth.pp ++ s!" reason-code {val}")

structure Auth where
  code : AuthReasonCode
  properties : Option AuthProperties
  deriving DecidableEq, Repr

instance : Packetize Auth where
  decode stream := do
    let (fh, n) ← decFixedHeader stream
    if fh.remainingLen.val = 0 then .ok (⟨.success, none⟩, n)
    else do
      let (code, n) ← decField UInt8 stream n
      let code ← AuthReasonCode.tryFrom code
      let (properties, n) ← decProps AuthProperties stream n
      .ok (⟨code, properties⟩, n)

/-- The second validation changes nothing. -/
theorem decFixedHeader_eq (s : List UInt8) : decFixedHeader s = decode s := by
  have hfield : decField FixedHeader s 0 = decode s := by
    rw [decField, advance_of_le (Nat.zero_le _), ok_bind, List.drop_zero]
    cases (decode s : Result (FixedHeader × ℕ)) <;> simp
  rw [decFixedHeader, hfield]
  cases hd : (decode s : Result (FixedHeader × ℕ)) with
  | ok r =>
    have hv := ((FixedHeader.decode_valid s).of_ok hd).1
    simp [hv]
  | err e => rfl
  | panic => rfl

theorem decFixedHeader_sat (s : List UInt8) :
    (decFixedHeader s).Sat fun r => r.1.Unwraps ∧ 0 < r.2 ∧ r.2 ≤ s.length := by
  rw [decFixedHeader_eq]
  exact (FixedHeader.decode_valid s).mono fun _ h => h.2

theorem MqttProtocol.tryFrom_sat (v : UInt8) : (MqttProtocol.tryFrom v).Sat fun _ => True := by
  unfold MqttProtocol.tryFrom
  split <;> trivial

theorem ConnackReasonCode.tryFrom_sat (v : UInt8) :
    (ConnackReasonCode.tryFrom v).Sat fun _ => True := by
  unfold ConnackReasonCode.tryFrom
  split <;> trivial

theorem DisconnReasonCode.tryFrom_sat (v : UInt8) :
    (DisconnReasonCode.tryFrom v).Sat fun _ => True := by
  unfold DisconnReasonCode.tryFrom
  split <;> trivial

theorem AuthReasonCode.tryFrom_sat (v : UInt8) :
    (AuthReasonCode.tryFrom v).Sat fun _ => True := by
  unfold AuthReasonCode.tryFrom
  split <;> trivial

theorem ConnectFlags.decode_eq_ok {s : List UInt8} {flags : ConnectFlags} {n : ℕ} :
    decode s = .ok (flags, n) ↔
      (∃ rest, s = flags.val :: rest) ∧ flags.validate = .ok () ∧ n = 1 := by
  refine (checkedByte_eq_ok (fun byte => validate ⟨byte⟩) ConnectFlags.mk).trans ?_
  constructor
  · rintro ⟨byte, rest, hs, ⟨⟨⟩, hvalid⟩, rfl, hn⟩
    exact ⟨⟨rest, hs⟩, hvalid, hn⟩
  · rintro ⟨⟨rest, hs⟩, hvalid, hn⟩
    exact ⟨flags.val, rest, hs, ⟨(), hvalid⟩, rfl, hn⟩

theorem ConnackFlags.decode_eq_ok {s : List UInt8} {flags : ConnackFlags} {n : ℕ} :
    decode s = .ok (flags, n) ↔
      (∃ rest, s = flags.val :: rest) ∧ (∃ present, flags.unwrap = .ok present) ∧ n = 1 := by
  refine (checkedByte_eq_ok (fun byte => unwrap ⟨byte⟩) ConnackFlags.mk).trans ?_
  constructor
  · rintro ⟨byte, rest, hs, hbits, rfl, hn⟩
    exact ⟨⟨rest, hs⟩, hbits, hn⟩
  · rintro ⟨⟨rest, hs⟩, hbits, hn⟩
    exact ⟨flags.val, rest, hs, hbits, rfl, hn⟩

instance : Packetize.Bounded ConnectFlags where
  decode_sat s := by
    apply (decField_sat UInt8 s 0).bind
    intro r _ hr
    exact (errIf_sat _ _ _ _).bind fun _ _ _ => hr

instance : Packetize.Bounded ConnackFlags where
  decode_sat s := by
    apply (decField_sat UInt8 s 0).bind
    intro r _ hr
    have hflags : (ConnackFlags.unwrap ⟨r.1⟩).Sat fun _ => True :=
      (errIf_sat _ _ _ _).bind fun _ _ _ => trivial
    exact hflags.bind fun _ _ _ => hr

namespace Connect

theorem validateWill_sat (self : Connect) : self.validateWill.Sat fun _ => True := by
  unfold validateWill
  split_ifs <;> trivial

theorem validateWillText_sat {pld : ConnectPayload}
    (h : pld.willProperties.isSome → pld.willPayload.isSome) :
    (validateWillText pld).Sat fun _ => True := by
  unfold validateWillText
  split_ifs with htext
  · have hsome : pld.willProperties.isSome := by
      obtain ⟨w, hw, -⟩ := Option.map_eq_some_iff.mp htext
      rw [hw]
      rfl
    obtain ⟨bytes, hb⟩ := Option.isSome_iff_exists.mp (h hsome)
    rw [hb]
    exact (errIf_sat _ _ _ _).mono fun _ _ => trivial
  · trivial

/-- The payload of a will is unwrapped only where there is one. -/
theorem validate_sat {self : Connect}
    (h : self.payload.willProperties.isSome → self.payload.willPayload.isSome) :
    self.validate.Sat fun _ => True := by
  unfold validate
  apply (errIf_sat _ _ _ _).bind
  intro _ _ _
  apply (errIf_sat _ _ _ _).bind
  intro _ _ _
  apply (errIf_sat _ _ _ _).bind
  intro _ _ _
  apply (QoS.tryFrom_sat _).bind
  intro _ _ _
  dsimp only
  split_ifs
  · exact self.validateWill_sat.bind fun _ _ _ => validateWillText_sat h
  · exact validateWillText_sat h

end Connect

instance : Packetize.Bounded Connect where
  decode_sat s := by
    apply (decFixedHeader_sat s).bind
    intro fh _ hfh
    apply (decField_sat String s fh.2).bind
    intro name _ hname
    apply (decField_sat UInt8 s name.2).bind
    intro val _ hval
    apply (MqttProtocol.tryFrom_sat val.1).bind
    intro version _ _
    apply (decField_sat ConnectFlags s val.2).bind
    intro flags _ hflags
    apply (decField_sat UInt16 s flags.2).bind
    intro alive _ halive
    apply (decProps_sat ConnectProperties s alive.2).bind
    intro props _ hprops
    apply (decField_sat String s props.2).bind
    intro client _ hclient
    apply (decPropsIf_sat WillProperties hclient.2 _).bind
    intro wprops _ hwprops
    apply (decFieldIf_sat TopicName hwprops.1.2 _).bind
    intro topic _ htopic
    apply (decFieldIf_sat (List UInt8) htopic.1.2 _).bind
    intro will _ hwill
    apply (decFieldIf_sat String hwill.1.2 _).bind
    intro user _ huser
    apply (decFieldIf_sat String huser.1.2 _).bind
    intro pass _ hpass
    refine (Connect.validate_sat ?_).bind fun _ _ _ => ?_
    · -- the flag that lets the properties be read lets the payload be read
      exact fun h => hwill.2.trans (hwprops.2 h)
    · simp only [sat_ok]
      omega

instance : Packetize.Bounded ConnAck where
  decode_sat s := by
    apply (decFixedHeader_sat s).bind
    intro fh _ hfh
    apply (decField_sat ConnackFlags s fh.2).bind
    intro flags _ hflags
    apply (decField_sat UInt8 s flags.2).bind
    intro code _ hcode
    apply (ConnackReasonCode.tryFrom_sat code.1).bind
    intro _ _ _
    apply (decProps_sat ConnAckProperties s code.2).bind
    intro props _ hprops
    simp only [sat_ok]
    omega

instance : Packetize.Bounded PingReq where
  decode_sat s := (decFixedHeader_sat s).bind fun _ _ h => h.2

instance : Packetize.Bounded PingResp where
  decode_sat s := (decFixedHeader_sat s).bind fun _ _ h => h.2

instance : Packetize.Bounded Disconnect where
  decode_sat s := by
    apply (decFixedHeader_sat s).bind
    intro fh _ hfh
    dsimp only
    split_ifs
    · exact hfh.2
    · apply (decField_sat UInt8 s fh.2).bind
      intro code _ hcode
      apply (DisconnReasonCode.tryFrom_sat code.1).bind
      intro _ _ _
      simp only [sat_ok]
      omega
    · apply (decField_sat UInt8 s fh.2).bind
      intro code _ hcode
      apply (DisconnReasonCode.tryFrom_sat code.1).bind
      intro _ _ _
      apply (decProps_sat DisconnProperties s code.2).bind
      intro props _ hprops
      simp only [sat_ok]
      omega

instance : Packetize.Bounded Auth where
  decode_sat s := by
    apply (decFixedHeader_sat s).bind
    intro fh _ hfh
    dsimp only
    split_ifs
    · exact hfh.2
    · apply (decField_sat UInt8 s fh.2).bind
      intro code _ hcode
      apply (AuthReasonCode.tryFrom_sat code.1).bind
      intro _ _ _
      apply (decProps_sat AuthProperties s code.2).bind
      intro props _ hprops
      simp only [sat_ok]
      omega

/-- A reason code and then properties, from position `n` to position `m`. -/
def CodeThenProps (α : Type) [Packetize α] (s : List UInt8) (n m : ℕ) (properties : Option α) : Prop :=
  ∃ val k, decField UInt8 s n = .ok (val, k) ∧ decProps α s k = .ok (properties, m)

section Inversion
variable {s : List UInt8} {fh : FixedHeader} {k n : ℕ}

theorem ConnAck.decode_eq_ok {pkt : ConnAck} (hfh : decFixedHeader s = .ok (fh, k))
    (h : decode s = .ok (pkt, n)) :
    ∃ m, decField ConnackFlags s k = .ok (pkt.flags, m) ∧
      CodeThenProps ConnAckProperties s m n pkt.properties := by
  obtain ⟨_, hfh', h⟩ := bind_eq_ok.mp h
  obtain rfl := Outcome.ok.inj (hfh.symm.trans hfh')
  obtain ⟨⟨flags, n₁⟩, hflags, h⟩ := bind_eq_ok.mp h
  obtain ⟨⟨val, n₂⟩, hval, h⟩ := bind_eq_ok.mp h
  obtain ⟨code, -, h⟩ := bind_eq_ok.mp h
  obtain ⟨⟨properties, n₃⟩, hprops, h⟩ := bind_eq_ok.mp h
  obtain ⟨rfl, rfl⟩ := Prod.mk.inj (Outcome.ok.inj h)
  exact ⟨n₁, hflags, val, n₂, hval, hprops⟩

/-- The remaining length tells which of the three forms it is. -/
theorem Disconnect.decode_eq_ok {pkt : Disconnect} (hfh : decFixedHeader s = .ok (fh, k))
    (h : decode s = .ok (pkt, n)) :
    (fh.remainingLen.val = 0 ∧ pkt.properties = none ∧ n = k) ∨
      (fh.remainingLen.val ≠ 0 ∧ fh.remainingLen.val < 2 ∧ pkt.properties = none ∧
        ∃ val, decField UInt8 s k = .ok (val, n)) ∨
      (fh.remainingLen.val ≠ 0 ∧ ¬ fh.remainingLen.val < 2 ∧
        CodeThenProps DisconnProperties s k n pkt.properties) := by
  obtain ⟨_, hfh', h⟩ := bind_eq_ok.mp h
  obtain rfl := Outcome.ok.inj (hfh.symm.trans hfh')
  dsimp only at h
  split_ifs at h with hzero hone
  · obtain ⟨rfl, rfl⟩ := Prod.mk.inj (Outcome.ok.inj h)
    exact .inl ⟨hzero, rfl, rfl⟩
  · obtain ⟨⟨val, n₁⟩, hval, h⟩ := bind_eq_ok.mp h
    obtain ⟨code, -, h⟩ := bind_eq_ok.mp h
    obtain ⟨rfl, rfl⟩ := Prod.mk.inj (Outcome.ok.inj h)
    exact .inr (.inl ⟨hzero, hone, rfl, val, hval⟩)
  · obtain ⟨⟨val, n₁⟩, hval, h⟩ := bind_eq_ok.mp h
    obtain ⟨code, -, h⟩ := bind_eq_ok.mp h
    obtain ⟨⟨properties, n₂⟩, hprops, h⟩ := bind_eq_ok.mp h
    obtain ⟨rfl, rfl⟩ := Prod.mk.inj (Outcome.ok.inj h)
    exact .inr (.inr ⟨hzero, hone, val, n₁, hval, hprops⟩)

theorem Auth.decode_eq_ok {pkt : Auth} (hfh : decFixedHeader s = .ok (fh, k))
    (h : decode s = .ok (pkt, n)) :
    (fh.remainingLen.val = 0 ∧ pkt.properties = none ∧ n = k) ∨
      (fh.remainingLen.val ≠ 0 ∧ CodeThenProps AuthProperties s k n pkt.properties) := by
  obtain ⟨_, hfh', h⟩ := bind_eq_ok.mp h
  obtain rfl := Outcome.ok.inj (hfh.symm.trans hfh')
  dsimp only at h
  split_ifs at h with hzero
  · obtain ⟨rfl, rfl⟩ := Prod.mk.inj (Outcome.ok.inj h)
    exact .inl ⟨hzero, rfl, rfl⟩
  · obtain ⟨⟨val, n₁⟩, hval, h⟩ := bind_eq_ok.mp h
    obtain ⟨code, -, h⟩ := bind_eq_ok.mp h
    obtain ⟨⟨properties, n₂⟩, hprops, h⟩ := bind_eq_ok.mp h
    obtain ⟨rfl, rfl⟩ := Prod.mk.inj (Outcome.ok.inj h)
    exact .inr ⟨hzero, val, n₁, hval, hprops⟩

end Inversion

end Mqtr
