import Mqtr.Wire.Property

/-! The property lists of the packets. Each says which properties it takes and where it puts them;
the loop is `PropertyList.decode`. -/
namespace Mqtr
open Outcome

inductive PayloadFormat where
  | binary
  | utf8
  deriving DecidableEq, Repr

def PayloadFormat.tryFrom (val : UInt8) : Result PayloadFormat :=
  match val with
  | 0 => .ok .binary
  | 1 => .ok .utf8
  | val => errCode .malformedPacket .malformedPacket s!"invalid payload format {val}"

def PayloadFormat.isUtf8 (self : PayloadFormat) : Bool := self = .utf8

/-- Every property but a user property may come only once. -/
def notUserProp (pt : PropertyType) : Bool := pt ≠ .userProp

/-- A byte that stands for a truth value. -/
def flagValue (name : String) (val : UInt8) : Result Bool :=
  match val with
  | 0 => .ok false
  | 1 => .ok true
  | val => errCode .protocolError .protocolError s!"{name} invalid {val}"

/-- A text about a property of a packet, as `"{} text {:?}"` prints it. -/
def aboutProp (pp text : String) (pt : PropertyType) : String := pp ++ text ++ pt.debug

def protocolErr {α : Type} (description : String) : Result α :=
  errCode .protocolError .protocolError description

def Connect.pp : String := "Packet::Connect"

structure ConnectProperties where
  sessionExpiryInterval : Option UInt32 := none
  receiveMaximum : Option UInt16 := none
  maxPacketSize : Option UInt32 := none
  topicAliasMax : Option UInt16 := none
  requestResponseInfo : Option Bool := none
  requestProblemInfo : Option Bool := none
  authenticationMethod : Option String := none
  authenticationData : Option (List UInt8) := none
  userProperties : List UserProperty := []
  deriving DecidableEq, Repr

def ConnectProperties.take (props : ConnectProperties) (property : Property) :
    Result ConnectProperties :=
  match property with
  | .sessionExpiryInterval val => .ok { props with sessionExpiryInterval := some val }
  | .receiveMaximum val =>
    if val = 0 then protocolErr (Connect.pp ++ " receive_maximum:0")
    else .ok { props with receiveMaximum := some val }
  | .maximumPacketSize val =>
    if val = 0 then protocolErr (Connect.pp ++ " max_packet_size:0")
    else .ok { props with maxPacketSize := some val }
  | .topicAliasMaximum val => .ok { props with topicAliasMax := some val }
  | .requestResponseInformation val => do
    let info ← flagValue "request-reposne" val
    .ok { props with requestResponseInfo := some info }
  | .requestProblemInformation val => do
    let info ← flagValue "request-problem-information" val
    .ok { props with requestProblemInfo := some info }
  | .userProp val => .ok { props with userProperties := props.userProperties ++ [val] }
  | .authenticationMethod val => .ok { props with authenticationMethod := some val }
  | .authenticationData val => .ok { props with authenticationData := some val }
  | p => protocolErr (aboutProp Connect.pp " bad prop " p.toPropertyType)

def ConnectProperties.list : PropertyList ConnectProperties :=
  ⟨notUserProp, aboutProp Connect.pp " repeat prop ", ConnectProperties.take⟩

instance : Packetize ConnectProperties := ⟨ConnectProperties.list.decode {}⟩

structure WillProperties where
  willDelayInterval : Option UInt32 := none
  payloadFormatIndicator : PayloadFormat := .binary
  messageExpiryInterval : Option UInt32 := none
  contentType : Option String := none
  responseTopic : Option TopicName := none
  correlationData : Option (List UInt8) := none
  userProperties : List UserProperty := []
  deriving DecidableEq, Repr

def WillProperties.isUtf8 (self : WillProperties) : Bool := self.payloadFormatIndicator = .utf8

def WillProperties.take (wps : WillProperties) (property : Property) : Result WillProperties :=
  match property with
  | .willDelayInterval val => .ok { wps with willDelayInterval := some val }
  | .payloadFormatIndicator val => do
    let format ← PayloadFormat.tryFrom val
    .ok { wps with payloadFormatIndicator := format }
  | .messageExpiryInterval val => .ok { wps with messageExpiryInterval := some val }
  | .contentType val => .ok { wps with contentType := some val }
  | .responseTopic val => .ok { wps with responseTopic := some val }
  | .correlationData val => .ok { wps with correlationData := some val }
  | .userProp val => .ok { wps with userProperties := wps.userProperties ++ [val] }
  | p => protocolErr (aboutProp Connect.pp " bad prop in will-message " p.toPropertyType)

def WillProperties.list : PropertyList WillProperties :=
  ⟨notUserProp, aboutProp Connect.pp " repeat prop in will-message ", WillProperties.take⟩

instance : Packetize WillProperties := ⟨WillProperties.list.decode {}⟩

def ConnAck.pp : String := "Packet::ConnAck"

structure ConnAckProperties where
  sessionExpiryInterval : Option UInt32 := none
  receiveMaximum : Option UInt16 := none
  maximumQos : Option QoS := none
  retainAvailable : Option Bool := none
  maxPacketSize : Option UInt32 := none
  assignedClientIdentifier : Option String := none
  topicAliasMax : Option UInt16 := none
  reasonString : Option String := none
  wildcardSubscriptionAvailable : Option Bool := none
  subscriptionIdentifiersAvailable : Option Bool := none
  sharedSubscriptionAvailable : Option Bool := none
  serverKeepAlive : Option UInt16 := none
  responseInformation : Option String := none
  serverReference : Option String := none
  authenticationMethod : Option String := none
  authenticationData : Option (List UInt8) := none
  userProperties : List UserProperty := []
  deriving DecidableEq, Repr

def ConnAckProperties.take (props : ConnAckProperties) (property : Property) :
    Result ConnAckProperties :=
  match property with
  | .sessionExpiryInterval val => .ok { props with sessionExpiryInterval := some val }
  | .receiveMaximum val =>
    if val = 0 then protocolErr (ConnAck.pp ++ " receive_maximum:0")
    else .ok { props with receiveMaximum := some val }
  | .maximumQoS val => .ok { props with maximumQos := some val }
  | .retainAvailable val => do
    let available ← flagValue "retain-available" val
    .ok { props with retainAvailable := some available }
  | .maximumPacketSize val =>
    if val = 0 then protocolErr (ConnAck.pp ++ " max_packet_size:0")
    else .ok { props with maxPacketSize := some val }
  | .assignedClientIdentifier val => .ok { props with assignedClientIdentifier := some val }
  | .topicAliasMaximum val => .ok { props with topicAliasMax := some val }
  | .reasonString val => .ok { props with reasonString := some val }
  | .userProp val => .ok { props with userProperties := props.userProperties ++ [val] }
  | .wildcardSubscriptionAvailable val => do
    let available ← flagValue "wildcard-subscription-available" val
    .ok { props with wildcardSubscriptionAvailable := some available }
  | .subscriptionIdentifierAvailable val => do
    let available ← flagValue "subscription-identifier-available" val
    .ok { props with subscriptionIdentifiersAvailable := some available }
  | .sharedSubscriptionAvailable val => do
    let available ← flagValue "shared-subscription-available" val
    .ok { props with sharedSubscriptionAvailable := some available }
  | .serverKeepAlive val => .ok { props with serverKeepAlive := some val }
  | .responseInformation val => .ok { props with responseInformation := some val }
  | .serverReference val => .ok { props with serverReference := some val }
  | .authenticationMethod val => .ok { props with authenticationMethod := some val }
  | .authenticationData val => .ok { props with authenticationData := some val }
  | p => protocolErr (aboutProp ConnAck.pp " bad prop " p.toPropertyType)

def ConnAckProperties.list : PropertyList ConnAckProperties :=
  ⟨notUserProp, aboutProp ConnAck.pp " repeat prop ", ConnAckProperties.take⟩

instance : Packetize ConnAckProperties := ⟨ConnAckProperties.list.decode {}⟩

def Publish.pp : String := "Packet::Publish"

structure PublishProperties where
  payloadFormatIndicator : PayloadFormat := .binary
  messageExpiryInterval : Option UInt32 := none
  topicAlias : Option UInt16 := none
  responseTopic : Option TopicName := none
  correlationData : Option (List UInt8) := none
  subscribtionIdentifier : List VarU32 := []
  contentType : Option String := none
  userProperties : List UserProperty := []
  deriving DecidableEq, Repr

def PublishProperties.isPayloadUtf8 (self : PublishProperties) : Bool :=
  self.payloadFormatIndicator.isUtf8

def PublishProperties.take (props : PublishProperties) (property : Property) :
    Result PublishProperties :=
  match property with
  | .payloadFormatIndicator val => do
    let format ← PayloadFormat.tryFrom val
    .ok { props with payloadFormatIndicator := format }
  | .messageExpiryInterval val => .ok { props with messageExpiryInterval := some val }
  | .topicAlias val =>
    if val = 0 then protocolErr (Publish.pp ++ " topic-alias=ZERO")
    else .ok { props with topicAlias := some val }
  | .responseTopic val => .ok { props with responseTopic := some val }
  | .correlationData val => .ok { props with correlationData := some val }
  | .subscriptionIdentifier val =>
    .ok { props with subscribtionIdentifier := props.subscribtionIdentifier ++ [val] }
  | .contentType val => .ok { props with contentType := some val }
  | .userProp val => .ok { props with userProperties := props.userProperties ++ [val] }
  | p => protocolErr (aboutProp Publish.pp " bad prop " p.toPropertyType)

/-- Here the check is the other way round: the two properties that may come more than once are the
two that may not. -/
def PublishProperties.list : PropertyList PublishProperties :=
  ⟨fun pt => [PropertyType.userProp, .subscriptionIdentifier].contains pt,
    aboutProp Publish.pp " repeat prop ", PublishProperties.take⟩

instance : Packetize PublishProperties := ⟨PublishProperties.list.decode {}⟩

/-- The properties of the acknowledgements: a reason and user properties. -/
structure ReasonProperties where
  reasonString : Option String := none
  userProperties : List UserProperty := []
  deriving DecidableEq, Repr

/-- The list of an acknowledgement, with its texts for a repeated and for an unknown property. -/
def ReasonProperties.list (repeated bad : PropertyType → String) :
    PropertyList ReasonProperties where
  unique := notUserProp
  repeated := repeated
  take props property :=
    match property with
    | .reasonString val => .ok { props with reasonString := some val }
    | .userProp val => .ok { props with userProperties := props.userProperties ++ [val] }
    | p => protocolErr (bad p.toPropertyType)

def PubProperties := ReasonProperties
  deriving DecidableEq, Repr

def PubProperties.list : PropertyList PubProperties :=
  ReasonProperties.list (aboutProp "" "duplicate property ")
    (fun pt => pt.debug ++ " found in puback properties")

instance : Packetize PubProperties := ⟨PubProperties.list.decode (ReasonProperties.mk none [])⟩

def SubAck.pp : String := "Packet::SubAck"

def SubAckProperties := ReasonProperties
  deriving DecidableEq, Repr

def SubAckProperties.list : PropertyList SubAckProperties :=
  ReasonProperties.list (aboutProp SubAck.pp " repeat prop ") (aboutProp SubAck.pp " bad prop, ")

instance : Packetize SubAckProperties :=
  ⟨SubAckProperties.list.decode (ReasonProperties.mk none [])⟩

def UnsubAck.pp : String := "Packet::UnsubAck"

def UnsubAckProperties := ReasonProperties
  deriving DecidableEq, Repr

def UnsubAckProperties.list : PropertyList UnsubAckProperties :=
  ReasonProperties.list (aboutProp UnsubAck.pp " repeat prop ")
    (aboutProp UnsubAck.pp " bad prop ")

instance : Packetize UnsubAckProperties :=
  ⟨UnsubAckProperties.list.decode (ReasonProperties.mk none [])⟩

def Subscribe.pp : String := "Packet::Subscribe"

structure SubscribeProperties where
  subscriptionId : Option VarU32 := none
  userProperties : List UserProperty := []
  deriving DecidableEq, Repr

def SubscribeProperties.take (props : SubscribeProperties) (property : Property) :
    Result SubscribeProperties :=
  match property with
  | .subscriptionIdentifier val =>
    if val.val = 0 then protocolErr (Subscribe.pp ++ " subcr_ide:0")
    else .ok { props with subscriptionId := some val }
  | .userProp val => .ok { props with userProperties := props.userProperties ++ [val] }
  | p => protocolErr (aboutProp Subscribe.pp " bad prop " p.toPropertyType)

def SubscribeProperties.list : PropertyList SubscribeProperties :=
  ⟨notUserProp, aboutProp Subscribe.pp " repeat prop ", SubscribeProperties.take⟩

instance : Packetize SubscribeProperties := ⟨SubscribeProperties.list.decode {}⟩

def UnSubscribe.pp : String := "Packet::UnSubscribe"

structure UnSubscribeProperties where
  userProperties : List UserProperty := []
  deriving DecidableEq, Repr

def UnSubscribeProperties.take (props : UnSubscribeProperties) (property : Property) :
    Result UnSubscribeProperties :=
  match property with
  | .userProp val => .ok { props with userProperties := props.userProperties ++ [val] }
  | p => protocolErr (aboutProp UnSubscribe.pp " bad prop " p.toPropertyType)

def UnSubscribeProperties.list : PropertyList UnSubscribeProperties :=
  ⟨notUserProp, aboutProp UnSubscribe.pp " repeat prop ", UnSubscribeProperties.take⟩

instance : Packetize UnSubscribeProperties := ⟨UnSubscribeProperties.list.decode {}⟩

def Disconnect.pp : String := "Packet::Disconnect"

structure DisconnProperties where
  sessionExpiryInterval : Option UInt32 := none
  reasonString : Option String := none
  userProperties : List UserProperty := []
  serverReference : Option String := none
  deriving DecidableEq, Repr

def DisconnProperties.take (props : DisconnProperties) (property : Property) :
    Result DisconnProperties :=
  match property with
  | .sessionExpiryInterval val => .ok { props with sessionExpiryInterval := some val }
  | .reasonString val => .ok { props with reasonString := some val }
  | .serverReference val => .ok { props with serverReference := some val }
  | .userProp val => .ok { props with userProperties := props.userProperties ++ [val] }
  | p => protocolErr (aboutProp Disconnect.pp " bad prop, " p.toPropertyType)

def DisconnProperties.list : PropertyList DisconnProperties :=
  ⟨notUserProp, aboutProp Disconnect.pp " repeat prop ", DisconnProperties.take⟩

instance : Packetize DisconnProperties := ⟨DisconnProperties.list.decode {}⟩

def Auth.pp : String := "Packet::Auth"

structure AuthProperties where
  authenticationMethod : String
  authenticationData : List UInt8
  reasonString : Option String
  userProperties : List UserProperty
  deriving DecidableEq, Repr

/-- The locals of `AuthProperties::decode`: the method and the data are not yet known. -/
structure AuthProperties.Partial where
  authenticationMethod : Option String := none
  authenticationData : Option (List UInt8) := none
  reasonString : Option String := none
  userProperties : List UserProperty := []
  deriving DecidableEq, Repr

def AuthProperties.take (props : AuthProperties.Partial) (property : Property) :
    Result AuthProperties.Partial :=
  match property with
  | .authenticationMethod val => .ok { props with authenticationMethod := some val }
  | .authenticationData val => .ok { props with authenticationData := some val }
  | .reasonString val => .ok { props with reasonString := some val }
  | .userProp val => .ok { props with userProperties := props.userProperties ++ [val] }
  | p => protocolErr (aboutProp Auth.pp " bad prop " p.toPropertyType)

def AuthProperties.list : PropertyList AuthProperties.Partial :=
  ⟨notUserProp, aboutProp Auth.pp " repeat prop ", AuthProperties.take⟩

instance : Packetize AuthProperties where
  decode stream := do
    let (props, n) ← AuthProperties.list.decode {} stream
    match props.authenticationMethod, props.authenticationData with
    | none, _ => protocolErr (Auth.pp ++ " missing auth-method")
    | some _, none => protocolErr (Auth.pp ++ " missing auth-data")
    | some method, some data => .ok (⟨method, data, props.reasonString, props.userProperties⟩, n)

theorem PayloadFormat.tryFrom_sat (val : UInt8) :
    (PayloadFormat.tryFrom val).Sat fun _ => True := by
  unfold PayloadFormat.tryFrom
  split <;> trivial

theorem flagValue_sat (name : String) (val : UInt8) : (flagValue name val).Sat fun _ => True := by
  unfold flagValue
  split <;> trivial

@[simp] theorem protocolErr_sat {α : Type} (d : String) (Q : α → Prop) :
    (protocolErr d : Result α).Sat Q := trivial

section Bounded

theorem ConnectProperties.take_sat (props : ConnectProperties) (p : Property) :
    (props.take p).Sat fun _ => True := by
  unfold ConnectProperties.take
  split
  case h_5 | h_6 => exact (flagValue_sat _ _).bind fun _ _ _ => trivial
  case h_2 | h_3 => split_ifs <;> trivial
  all_goals trivial

instance : Packetize.Bounded ConnectProperties where
  decode_sat s := ConnectProperties.list.decode_sat ConnectProperties.take_sat {} s

theorem WillProperties.take_sat (props : WillProperties) (p : Property) :
    (props.take p).Sat fun _ => True := by
  unfold WillProperties.take
  split
  case h_2 => exact (PayloadFormat.tryFrom_sat _).bind fun _ _ _ => trivial
  all_goals trivial

instance : Packetize.Bounded WillProperties where
  decode_sat s := WillProperties.list.decode_sat WillProperties.take_sat {} s

theorem ConnAckProperties.take_sat (props : ConnAckProperties) (p : Property) :
    (props.take p).Sat fun _ => True := by
  unfold ConnAckProperties.take
  split
  case h_4 | h_10 | h_11 | h_12 => exact (flagValue_sat _ _).bind fun _ _ _ => trivial
  case h_2 | h_5 => split_ifs <;> trivial
  all_goals trivial

instance : Packetize.Bounded ConnAckProperties where
  decode_sat s := ConnAckProperties.list.decode_sat ConnAckProperties.take_sat {} s

theorem PublishProperties.take_sat (props : PublishProperties) (p : Property) :
    (props.take p).Sat fun _ => True := by
  unfold PublishProperties.take
  split
  case h_1 => exact (PayloadFormat.tryFrom_sat _).bind fun _ _ _ => trivial
  case h_3 => split_ifs <;> trivial
  all_goals trivial

instance : Packetize.Bounded PublishProperties where
  decode_sat s := PublishProperties.list.decode_sat PublishProperties.take_sat {} s

theorem ReasonProperties.take_sat (repeated bad : PropertyType → String)
    (props : ReasonProperties) (p : Property) :
    ((ReasonProperties.list repeated bad).take props p).Sat fun _ => True := by
  unfold ReasonProperties.list
  dsimp only
  split <;> trivial

instance : Packetize.Bounded PubProperties where
  decode_sat s := PubProperties.list.decode_sat (ReasonProperties.take_sat _ _) _ s

instance : Packetize.Bounded SubAckProperties where
  decode_sat s := SubAckProperties.list.decode_sat (ReasonProperties.take_sat _ _) _ s

instance : Packetize.Bounded UnsubAckProperties where
  decode_sat s := UnsubAckProperties.list.decode_sat (ReasonProperties.take_sat _ _) _ s

theorem SubscribeProperties.take_sat (props : SubscribeProperties) (p : Property) :
    (props.take p).Sat fun _ => True := by
  unfold SubscribeProperties.take
  split
  case h_1 => split_ifs <;> trivial
  all_goals trivial

instance : Packetize.Bounded SubscribeProperties where
  decode_sat s := SubscribeProperties.list.decode_sat SubscribeProperties.take_sat {} s

theorem UnSubscribeProperties.take_sat (props : UnSubscribeProperties) (p : Property) :
    (props.take p).Sat fun _ => True := by
  unfold UnSubscribeProperties.take
  split <;> trivial

instance : Packetize.Bounded UnSubscribeProperties where
  decode_sat s := UnSubscribeProperties.list.decode_sat UnSubscribeProperties.take_sat {} s

theorem DisconnProperties.take_sat (props : DisconnProperties) (p : Property) :
    (props.take p).Sat fun _ => True := by
  unfold DisconnProperties.take
  split <;> trivial

instance : Packetize.Bounded DisconnProperties where
  decode_sat s := DisconnProperties.list.decode_sat DisconnProperties.take_sat {} s

theorem AuthProperties.take_sat (props : AuthProperties.Partial) (p : Property) :
    (AuthProperties.take props p).Sat fun _ => True := by
  unfold AuthProperties.take
  split <;> trivial

instance : Packetize.Bounded AuthProperties where
  decode_sat s := by
    apply (AuthProperties.list.decode_sat AuthProperties.take_sat {} s).bind
    intro r _ hr
    dsimp only
    split
    · exact protocolErr_sat _ _
    · exact protocolErr_sat _ _
    · exact hr

end Bounded

end Mqtr
