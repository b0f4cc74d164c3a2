import Mqtr.Wire.Header

/-! Properties, and the lists of properties that every packet but the pings may carry. -/
namespace Mqtr
open Outcome

inductive PropertyType where
  | payloadFormatIndicator
  | messageExpiryInterval
  | contentType
  | responseTopic
  | correlationData
  | subscriptionIdentifier
  | sessionExpiryInterval
  | assignedClientIdentifier
  | serverKeepAlive
  | authenticationMethod
  | authenticationData
  | requestProblemInformation
  | willDelayInterval
  | requestResponseInformation
  | responseInformation
  | serverReference
  | reasonString
  | receiveMaximum
  | topicAliasMaximum
  | topicAlias
  | maximumQoS
  | retainAvailable
  | userProp
  | maximumPacketSize
  | wildcardSubscriptionAvailable
  | subscriptionIdentifierAvailable
  | sharedSubscriptionAvailable
  deriving DecidableEq, Repr

def PropertyType.tryFrom (val : UInt32) : Result PropertyType :=
  match val with
  | 1 => .ok .payloadFormatIndicator
  | 2 => .ok .messageExpiryInterval
  | 3 => .ok .contentType
  | 8 => .ok .responseTopic
  | 9 => .ok .correlationData
  | 11 => .ok .subscriptionIdentifier
  | 17 => .ok .sessionExpiryInterval
  | 18 => .ok .assignedClientIdentifier
  | 19 => .ok .serverKeepAlive
  | 21 => .ok .authenticationMethod
  | 22 => .ok .authenticationData
  | 23 => .ok .requestProblemInformation
  | 24 => .ok .willDelayInterval
  | 25 => .ok .requestResponseInformation
  | 26 => .ok .responseInformation
  | 28 => .ok .serverReference
  | 31 => .ok .reasonString
  | 33 => .ok .receiveMaximum
  | 34 => .ok .topicAliasMaximum
  | 35 => .ok .topicAlias
  | 36 => .ok .maximumQoS
  | 37 => .ok .retainAvailable
  | 38 => .ok .userProp
  | 39 => .ok .maximumPacketSize
  | 40 => .ok .wildcardSubscriptionAvailable
  | 41 => .ok .subscriptionIdentifierAvailable
  | 42 => .ok .sharedSubscriptionAvailable
  | val => errCode .malformedPacket .malformedPacket s!"invalid PropertyType {val}"

/-- The text that `{:?}` prints. -/
def PropertyType.debug : PropertyType → String
  | .payloadFormatIndicator => "PayloadFormatIndicator"
  | .messageExpiryInterval => "MessageExpiryInterval"
  | .contentType => "ContentType"
  | .responseTopic => "ResponseTopic"
  | .correlationData => "CorrelationData"
  | .subscriptionIdentifier => "SubscriptionIdentifier"
  | .sessionExpiryInterval => "SessionExpiryInterval"
  | .assignedClientIdentifier => "AssignedClientIdentifier"
  | .serverKeepAlive => "ServerKeepAlive"
  | .authenticationMethod => "AuthenticationMethod"
  | .authenticationData => "AuthenticationData"
  | .requestProblemInformation => "RequestProblemInformation"
  | .willDelayInterval => "WillDelayInterval"
  | .requestResponseInformation => "RequestResponseInformation"
  | .responseInformation => "ResponseInformation"
  | .serverReference => "ServerReference"
  | .reasonString => "ReasonString"
  | .receiveMaximum => "ReceiveMaximum"
  | .topicAliasMaximum => "TopicAliasMaximum"
  | .topicAlias => "TopicAlias"
  | .maximumQoS => "MaximumQoS"
  | .retainAvailable => "RetainAvailable"
  | .userProp => "UserProp"
  | .maximumPacketSize => "MaximumPacketSize"
  | .wildcardSubscriptionAvailable => "WildcardSubscriptionAvailable"
  | .subscriptionIdentifierAvailable => "SubscriptionIdentifierAvailable"
  | .sharedSubscriptionAvailable => "SharedSubscriptionAvailable"

inductive Property where
  | payloadFormatIndicator (val : UInt8)
  | messageExpiryInterval (val : UInt32)
  | contentType (val : String)
  | responseTopic (val : TopicName)
  | correlationData (val : List UInt8)
  | subscriptionIdentifier (val : VarU32)
  | sessionExpiryInterval (val : UInt32)
  | assignedClientIdentifier (val : String)
  | serverKeepAlive (val : UInt16)
  | authenticationMethod (val : String)
  | authenticationData (val : List UInt8)
  | requestProblemInformation (val : UInt8)
  | willDelayInterval (val : UInt32)
  | requestResponseInformation (val : UInt8)
  | responseInformation (val : String)
  | serverReference (val : String)
  | reasonString (val : String)
  | receiveMaximum (val : UInt16)
  | topicAliasMaximum (val : UInt16)
  | topicAlias (val : UInt16)
  | maximumQoS (val : QoS)
  | retainAvailable (val : UInt8)
  | userProp (val : UserProperty)
  | maximumPacketSize (val : UInt32)
  | wildcardSubscriptionAvailable (val : UInt8)
  | subscriptionIdentifierAvailable (val : UInt8)
  | sharedSubscriptionAvailable (val : UInt8)
  deriving DecidableEq, Repr

def Property.toPropertyType : Property → PropertyType
  | .payloadFormatIndicator _ => .payloadFormatIndicator
  | .messageExpiryInterval _ => .messageExpiryInterval
  | .contentType _ => .contentType
  | .responseTopic _ => .responseTopic
  | .correlationData _ => .correlationData
  | .subscriptionIdentifier _ => .subscriptionIdentifier
  | .sessionExpiryInterval _ => .sessionExpiryInterval
  | .assignedClientIdentifier _ => .assignedClientIdentifier
  | .serverKeepAlive _ => .serverKeepAlive
  | .authenticationMethod _ => .authenticationMethod
  | .authenticationData _ => .authenticationData
  | .requestProblemInformation _ => .requestProblemInformation
  | .willDelayInterval _ => .willDelayInterval
  | .requestResponseInformation _ => .requestResponseInformation
  | .responseInformation _ => .responseInformation
  | .serverReference _ => .serverReference
  | .reasonString _ => .reasonString
  | .receiveMaximum _ => .receiveMaximum
  | .topicAliasMaximum _ => .topicAliasMaximum
  | .topicAlias _ => .topicAlias
  | .maximumQoS _ => .maximumQoS
  | .retainAvailable _ => .retainAvailable
  | .userProp _ => .userProp
  | .maximumPacketSize _ => .maximumPacketSize
  | .wildcardSubscriptionAvailable _ => .wildcardSubscriptionAvailable
  | .subscriptionIdentifierAvailable _ => .subscriptionIdentifierAvailable
  | .sharedSubscriptionAvailable _ => .sharedSubscriptionAvailable

/-- The macro `dec_prop!`. -/
def decProp (α : Type) [Packetize α] (varn : α → Property) (stream : List UInt8) :
    Result (Property × ℕ) := do
  let (val, n) ← (decode stream : Result (α × ℕ))
  .ok (varn val, n)

/-- The value of a property, by its type. -/
def Property.decodeValue (propType : PropertyType) (stream : List UInt8) :
    Result (Property × ℕ) :=
  match propType with
  | .payloadFormatIndicator => decProp UInt8 .payloadFormatIndicator stream
  | .messageExpiryInterval => decProp UInt32 .messageExpiryInterval stream
  | .contentType => decProp String .contentType stream
  | .responseTopic => decProp TopicName .responseTopic stream
  | .correlationData => decProp (List UInt8) .correlationData stream
  | .subscriptionIdentifier => decProp VarU32 .subscriptionIdentifier stream
  | .sessionExpiryInterval => decProp UInt32 .sessionExpiryInterval stream
  | .assignedClientIdentifier => decProp String .assignedClientIdentifier stream
  | .serverKeepAlive => decProp UInt16 .serverKeepAlive stream
  | .authenticationMethod => decProp String .authenticationMethod stream
  | .authenticationData => decProp (List UInt8) .authenticationData stream
  | .requestProblemInformation => decProp UInt8 .requestProblemInformation stream
  | .willDelayInterval => decProp UInt32 .willDelayInterval stream
  | .requestResponseInformation => decProp UInt8 .requestResponseInformation stream
  | .responseInformation => decProp String .responseInformation stream
  | .serverReference => decProp String .serverReference stream
  | .reasonString => decProp String .reasonString stream
  | .receiveMaximum => decProp UInt16 .receiveMaximum stream
  | .topicAliasMaximum => decProp UInt16 .topicAliasMaximum stream
  | .topicAlias => decProp UInt16 .topicAlias stream
  | .maximumQoS => do
    let (val, n) ← (decode stream : Result (UInt8 × ℕ))
    let qos ← QoS.tryFrom val
    .ok (.maximumQoS qos, n)
  | .retainAvailable => decProp UInt8 .retainAvailable stream
  | .userProp => decProp UserProperty .userProp stream
  | .maximumPacketSize => decProp UInt32 .maximumPacketSize stream
  | .wildcardSubscriptionAvailable => decProp UInt8 .wildcardSubscriptionAvailable stream
  | .subscriptionIdentifierAvailable => decProp UInt8 .subscriptionIdentifierAvailable stream
  | .sharedSubscriptionAvailable => decProp UInt8 .sharedSubscriptionAvailable stream

instance : Packetize Property where
  decode stream := do
    let (propType, n) ← decField VarU32 stream 0
    let stream ← advance stream n
    let propType ← PropertyType.tryFrom propType.val
    let (property, m) ← Property.decodeValue propType stream
    .ok (property, n + m)

/-- What tells one list of properties from another: the types that may not come twice, the text for
one that does, and where each property goes. -/
structure PropertyList (σ : Type) where
  unique : PropertyType → Bool
  repeated : PropertyType → String
  take : σ → Property → Result σ

namespace PropertyList
variable {σ : Type}

/-- The body of the loop over a list, with the types seen so far. -/
def step (list : PropertyList σ) (state : σ × List PropertyType) (property : Property) :
    Result (σ × List PropertyType) :=
  let (props, dups) := state
  let pt := property.toPropertyType
  if list.unique pt && dups.contains pt then
    errCode .protocolError .protocolError (list.repeated pt)
  else do
    let props ← list.take props property
    .ok (props, pt :: dups)

/-- The properties announced by the length at the start of `stream`, from the default `props`. The
last property may reach past that length. -/
def decode (list : PropertyList σ) (props : σ) (stream : List UInt8) : Result (σ × ℕ) := do
  let (len, n) ← decField VarU32 stream 0
  let limit := len.val.toNat + n
  let ((props, _), n) ←
    readLoop (decField Property stream) list.step limit (stream.length + 1) n (props, [])
  .ok (props, n)

end PropertyList

/-- The macro `dec_props!` without a condition: an empty list counts as no list. -/
def decProps (α : Type) [Packetize α] (stream : List UInt8) (n : ℕ) : Result (Option α × ℕ) := do
  let rest ← advance stream n
  let (p, m) ← (decode rest : Result (VarU32 × ℕ))
  if p.val = 0 then .ok (none, n + m)
  else do
    let rest ← advance stream n
    let (properties, r) ← (decode rest : Result (α × ℕ))
    if r = m + p.val.toNat then .ok (some properties, n + r)
    else errCode .protocolError .protocolError s!"property len mismatching {r}"

/-- The macro `dec_props!` with a condition. -/
def decPropsIf (α : Type) [Packetize α] (stream : List UInt8) (n : ℕ) (pred : Bool) :
    Result (Option α × ℕ) :=
  if pred then decProps α stream n else .ok (none, n)

theorem PropertyType.tryFrom_sat (val : UInt32) :
    (PropertyType.tryFrom val).Sat fun _ => True := by
  unfold PropertyType.tryFrom
  split <;> trivial

theorem decProp_sat (α : Type) [Packetize α] [Packetize.Bounded α] (varn : α → Property)
    (s : List UInt8) : (decProp α varn s).Sat fun r => 0 < r.2 ∧ r.2 ≤ s.length :=
  (decode_sat s).bind fun _ _ hr => hr

theorem Property.decodeValue_sat (pt : PropertyType) (s : List UInt8) :
    (Property.decodeValue pt s).Sat fun r => 0 < r.2 ∧ r.2 ≤ s.length := by
  cases pt with
  | maximumQoS =>
    apply (decode_sat s).bind
    intro r _ hr
    exact (QoS.tryFrom_sat r.1).bind fun _ _ _ => hr
  | _ => exact decProp_sat _ _ s

/-- A property takes at least a byte for its type and one for its value. -/
theorem Property.decode_bounds (s : List UInt8) :
    (decode s : Result (Property × ℕ)).Sat fun r => 2 ≤ r.2 ∧ r.2 ≤ s.length := by
  apply (decField_sat VarU32 s 0).bind
  intro r _ hr
  apply (advance_sat s r.2).bind
  intro rest _ hrest
  obtain ⟨hn, rfl⟩ := hrest
  apply (PropertyType.tryFrom_sat r.1.val).bind
  intro pt _ _
  apply (Property.decodeValue_sat pt (s.drop r.2)).bind
  intro r' _ hr'
  simp only [List.length_drop] at hr'
  simp only [sat_ok]
  omega

instance : Packetize.Bounded Property where
  decode_sat s := (Property.decode_bounds s).mono fun _ hr => ⟨by omega, hr.2⟩

section Lists
variable {σ : Type} (list : PropertyList σ)

theorem PropertyList.step_sat (h : ∀ props p, (list.take props p).Sat fun _ => True)
    (state : σ × List PropertyType) (p : Property) : (list.step state p).Sat fun _ => True := by
  unfold PropertyList.step
  dsimp only
  split_ifs
  · exact errCode_sat _ _ _ _
  · exact (h state.1 p).bind fun _ _ _ => trivial

/-- A list is read within the stream if every property is dealt with. -/
theorem PropertyList.decode_sat (h : ∀ props p, (list.take props p).Sat fun _ => True) (props : σ)
    (s : List UInt8) : (list.decode props s).Sat fun r => 0 < r.2 ∧ r.2 ≤ s.length := by
  apply (decField_sat VarU32 s 0).bind
  intro r _ hr
  have hfuel : s.length < s.length + 1 + r.2 := by omega
  refine (readLoop_sat (decField_sat Property s) (list.step_sat h) hr.2 hfuel
    (props, [])).bind fun r' _ hr' => ?_
  exact ⟨by omega, hr'.2⟩

end Lists

theorem decProps_sat (α : Type) [Packetize α] [Packetize.Bounded α] (s : List UInt8) (n : ℕ) :
    (decProps α s n).Sat fun r => n < r.2 ∧ r.2 ≤ s.length := by
  apply (advance_sat s n).bind
  intro rest hrest hn
  obtain ⟨hn, rfl⟩ := hn
  apply (decode_sat (α := VarU32) (s.drop n)).bind
  intro r _ hr
  simp only [List.length_drop] at hr
  dsimp only
  split_ifs
  · simp only [sat_ok]
    omega
  · rw [hrest, ok_bind]
    apply (decode_sat (α := α) (s.drop n)).bind
    intro r' _ hr'
    simp only [List.length_drop] at hr'
    split_ifs
    · simp only [sat_ok]
      omega
    · exact errCode_sat _ _ _ _

theorem decPropsIf_sat (α : Type) [Packetize α] [Packetize.Bounded α] {s : List UInt8} {n : ℕ}
    (hn : n ≤ s.length) (pred : Bool) :
    (decPropsIf α s n pred).Sat fun r =>
      (n ≤ r.2 ∧ r.2 ≤ s.length) ∧ (r.1.isSome → pred = true) := by
  cases pred with
  | false => exact ⟨⟨le_rfl, hn⟩, nofun⟩
  | true => exact (decProps_sat α s n).mono fun _ h => ⟨⟨h.1.le, h.2⟩, fun _ => rfl⟩

end Mqtr
