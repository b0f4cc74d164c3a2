import Mqtr.Core.Outcome

/-! Error values of the package: a kind for the callers, an optional MQTT reason code for the
remote, and a text. The boxed cause, the source location and the backtrace are not modelled. -/
namespace Mqtr

inductive ErrorKind where
  | noError
  | invalidInput
  | malformedPacket
  | protocolError
  | unsupportedProtocolVersion
  | insufficientBytes
  | sessionTakenOver
  | disconnected
  | slowClient
  | ipcFail
  | rxClosed
  | txFinish
  | tryFromIntError
  | ioError
  deriving DecidableEq, Repr

inductive ReasonCode where
  | success
  | qos1
  | qos2
  | diconnectWillMessage
  | noMatchingSubscribers
  | noSubscriptionExisted
  | continueAuthentication
  | reAuthenticate
  | unspecifiedError
  | malformedPacket
  | protocolError
  | implementationError
  | unsupportedProtocolVersion
  | invalidClientID
  | badLogin
  | notAuthorized
  | serverNotAvailable
  | serverBusy
  | banned
  | serverShutdown
  | badAuthenticationMethod
  | keepAliveTimeout
  | sessionTakenOver
  | invalidTopicFilter
  | topicNameInvalid
  | packetIdInuse
  | packetIdNotFound
  | exceededReceiveMaximum
  | topicAliasInvalid
  | packetTooLarge
  | exceedMessageRate
  | quotaExceeded
  | adminAction
  | payloadFormatInvalid
  | retainNotSupported
  | qosNotSupported
  | useAnotherServer
  | serverMoved
  | unsupportedSharedSubscription
  | exceedConnectionRate
  | exceedMaximumConnectTime
  | subscriptionIdNotSupported
  | wildcardSubscriptionsNotSupported
  deriving DecidableEq, Repr

structure Error where
  kind : ErrorKind
  description : String
  code : Option ReasonCode
  deriving DecidableEq, Repr

/-- `Error::code()`: an error without a code counts as unspecified. -/
def Error.reasonCode (self : Error) : ReasonCode := self.code.getD .unspecifiedError

abbrev Result (α : Type) := Outcome Error α

/-- `err!(kind, code: code, description)`. -/
def errCode {α : Type} (kind : ErrorKind) (code : ReasonCode) (description : String) : Result α :=
  .err ⟨kind, description, some code⟩

/-- `err!(kind, desc: description)`. -/
def errDesc {α : Type} (kind : ErrorKind) (description : String) : Result α :=
  .err ⟨kind, description, none⟩

@[simp] theorem errCode_sat {α : Type} (k : ErrorKind) (c : ReasonCode) (d : String)
    (Q : α → Prop) : (errCode k c d : Result α).Sat Q := trivial

@[simp] theorem errDesc_sat {α : Type} (k : ErrorKind) (d : String) (Q : α → Prop) :
    (errDesc k d : Result α).Sat Q := trivial

@[simp] theorem errCode_ne_ok {α : Type} (k : ErrorKind) (c : ReasonCode) (d : String) (a : α) :
    (errCode k c d : Result α) ≠ .ok a := nofun

def ReasonCode.tryFrom (val : UInt8) : Result ReasonCode :=
  match val with
  | 0x00 => .ok .success
  | 0x01 => .ok .qos1
  | 0x02 => .ok .qos2
  | 0x04 => .ok .diconnectWillMessage
  | 0x10 => .ok .noMatchingSubscribers
  | 0x11 => .ok .noSubscriptionExisted
  | 0x18 => .ok .continueAuthentication
  | 0x19 => .ok .reAuthenticate
  | 0x80 => .ok .unspecifiedError
  | 0x81 => .ok .malformedPacket
  | 0x82 => .ok .protocolError
  | 0x83 => .ok .implementationError
  | 0x84 => .ok .unsupportedProtocolVersion
  | 0x85 => .ok .invalidClientID
  | 0x86 => .ok .badLogin
  | 0x87 => .ok .notAuthorized
  | 0x88 => .ok .serverNotAvailable
  | 0x89 => .ok .serverBusy
  | 0x8A => .ok .banned
  | 0x8B => .ok .serverShutdown
  | 0x8C => .ok .badAuthenticationMethod
  | 0x8D => .ok .keepAliveTimeout
  | 0x8E => .ok .sessionTakenOver
  | 0x8F => .ok .invalidTopicFilter
  | 0x90 => .ok .topicNameInvalid
  | 0x91 => .ok .packetIdInuse
  | 0x92 => .ok .packetIdNotFound
  | 0x93 => .ok .exceededReceiveMaximum
  | 0x94 => .ok .topicAliasInvalid
  | 0x95 => .ok .packetTooLarge
  | 0x96 => .ok .exceedMessageRate
  | 0x97 => .ok .quotaExceeded
  | 0x98 => .ok .adminAction
  | 0x99 => .ok .payloadFormatInvalid
  | 0x9A => .ok .retainNotSupported
  | 0x9B => .ok .qosNotSupported
  | 0x9C => .ok .useAnotherServer
  | 0x9D => .ok .serverMoved
  | 0x9E => .ok .unsupportedSharedSubscription
  | 0x9F => .ok .exceedConnectionRate
  | 0xA0 => .ok .exceedMaximumConnectTime
  | 0xA1 => .ok .subscriptionIdNotSupported
  | 0xA2 => .ok .wildcardSubscriptionsNotSupported
  | val => errCode .malformedPacket .malformedPacket s!"reason-code {val}"

/-- `code as u8`. -/
def ReasonCode.toU8 : ReasonCode → UInt8
  | .success => 0x00
  | .qos1 => 0x01
  | .qos2 => 0x02
  | .diconnectWillMessage => 0x04
  | .noMatchingSubscribers => 0x10
  | .noSubscriptionExisted => 0x11
  | .continueAuthentication => 0x18
  | .reAuthenticate => 0x19
  | .unspecifiedError => 0x80
  | .malformedPacket => 0x81
  | .protocolError => 0x82
  | .implementationError => 0x83
  | .unsupportedProtocolVersion => 0x84
  | .invalidClientID => 0x85
  | .badLogin => 0x86
  | .notAuthorized => 0x87
  | .serverNotAvailable => 0x88
  | .serverBusy => 0x89
  | .banned => 0x8A
  | .serverShutdown => 0x8B
  | .badAuthenticationMethod => 0x8C
  | .keepAliveTimeout => 0x8D
  | .sessionTakenOver => 0x8E
  | .invalidTopicFilter => 0x8F
  | .topicNameInvalid => 0x90
  | .packetIdInuse => 0x91
  | .packetIdNotFound => 0x92
  | .exceededReceiveMaximum => 0x93
  | .topicAliasInvalid => 0x94
  | .packetTooLarge => 0x95
  | .exceedMessageRate => 0x96
  | .quotaExceeded => 0x97
  | .adminAction => 0x98
  | .payloadFormatInvalid => 0x99
  | .retainNotSupported => 0x9A
  | .qosNotSupported => 0x9B
  | .useAnotherServer => 0x9C
  | .serverMoved => 0x9D
  | .unsupportedSharedSubscription => 0x9E
  | .exceedConnectionRate => 0x9F
  | .exceedMaximumConnectTime => 0xA0
  | .subscriptionIdNotSupported => 0xA1
  | .wildcardSubscriptionsNotSupported => 0xA2

/-- The text that `{:?}` prints. -/
def ReasonCode.debug : ReasonCode → String
  | .success => "Success"
  | .qos1 => "QoS1"
  | .qos2 => "QoS2"
  | .diconnectWillMessage => "DiconnectWillMessage"
  | .noMatchingSubscribers => "NoMatchingSubscribers"
  | .noSubscriptionExisted => "NoSubscriptionExisted"
  | .continueAuthentication => "ContinueAuthentication"
  | .reAuthenticate => "ReAuthenticate"
  | .unspecifiedError => "UnspecifiedError"
  | .malformedPacket => "MalformedPacket"
  | .protocolError => "ProtocolError"
  | .implementationError => "ImplementationError"
  | .unsupportedProtocolVersion => "UnsupportedProtocolVersion"
  | .invalidClientID => "InvalidClientID"
  | .badLogin => "BadLogin"
  | .notAuthorized => "NotAuthorized"
  | .serverNotAvailable => "ServerNotAvailable"
  | .serverBusy => "ServerBusy"
  | .banned => "Banned"
  | .serverShutdown => "ServerShutdown"
  | .badAuthenticationMethod => "BadAuthenticationMethod"
  | .keepAliveTimeout => "KeepAliveTimeout"
  | .sessionTakenOver => "SessionTakenOver"
  | .invalidTopicFilter => "InvalidTopicFilter"
  | .topicNameInvalid => "TopicNameInvalid"
  | .packetIdInuse => "PacketIdInuse"
  | .packetIdNotFound => "PacketIdNotFound"
  | .exceededReceiveMaximum => "ExceededReceiveMaximum"
  | .topicAliasInvalid => "TopicAliasInvalid"
  | .packetTooLarge => "PacketTooLarge"
  | .exceedMessageRate => "ExceedMessageRate"
  | .quotaExceeded => "QuotaExceeded"
  | .adminAction => "AdminAction"
  | .payloadFormatInvalid => "PayloadFormatInvalid"
  | .retainNotSupported => "RetainNotSupported"
  | .qosNotSupported => "QoSNotSupported"
  | .useAnotherServer => "UseAnotherServer"
  | .serverMoved => "ServerMoved"
  | .unsupportedSharedSubscription => "UnsupportedSharedSubscription"
  | .exceedConnectionRate => "ExceedConnectionRate"
  | .exceedMaximumConnectTime => "ExceedMaximumConnectTime"
  | .subscriptionIdNotSupported => "SubscriptionIdNotSupported"
  | .wildcardSubscriptionsNotSupported => "WildcardSubscriptionsNotSupported"

/-- A check that fails with an error. -/
def errIf (bad : Bool) (kind : ErrorKind) (code : ReasonCode) (description : String) :
    Result Unit :=
  if bad then errCode kind code description else .ok ()

theorem errIf_sat (bad : Bool) (kind : ErrorKind) (code : ReasonCode) (description : String) :
    (errIf bad kind code description).Sat fun _ => bad = false := by
  unfold errIf
  split_ifs with h
  · exact errCode_sat _ _ _ _
  · exact Bool.eq_false_iff.mpr h

theorem ReasonCode.tryFrom_sat (val : UInt8) : (ReasonCode.tryFrom val).Sat fun _ => True := by
  unfold ReasonCode.tryFrom
  split <;> trivial

end Mqtr
