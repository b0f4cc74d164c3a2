import Mqtr.Wire.Reads

/-! How the decoders of whole packets fail. A packet that is malformed or breaks the protocol is
reported as such, and one that ends inside a field is not. The reason codes that go with the errors are
few, and one of them has no place in a DISCONNECT. -/
namespace Mqtr
open Outcome Trace
open Packetize (Reads)

section Sequence
variable {α β : Type} [Packetize α] [Packetize.Bounded α] [Reads α] {s : List UInt8} {n : ℕ}

/-- The fixed header, and what is read after it. -/
def readHeader (s : List UInt8) (next : FixedHeader × ℕ → List FieldRead) : List FieldRead :=
  ⟨.byte, s⟩ :: after (decFixedHeader s) next

/-- A field, and what is read after it. -/
def readField (α : Type) [Packetize α] [Reads α] (s : List UInt8) (n : ℕ)
    (next : α × ℕ → List FieldRead) : List FieldRead :=
  fieldReads α s n ++ after (decField α s n) next

def readFieldIf (α : Type) [Packetize α] [Reads α] (s : List UInt8) (n : ℕ) (pred : Bool)
    (next : Option α × ℕ → List FieldRead) : List FieldRead :=
  (if pred then fieldReads α s n else []) ++ after (decFieldIf α s n pred) next

def readProps (α : Type) [Packetize α] [Reads α] (s : List UInt8) (n : ℕ)
    (next : Option α × ℕ → List FieldRead) : List FieldRead :=
  propsReads α s n ++ after (decProps α s n) next

def readPropsIf (α : Type) [Packetize α] [Reads α] (s : List UInt8) (n : ℕ) (pred : Bool)
    (next : Option α × ℕ → List FieldRead) : List FieldRead :=
  (if pred then propsReads α s n else []) ++ after (decPropsIf α s n pred) next

theorem readHeader_traced {f : FixedHeader × ℕ → Result β} {next : FixedHeader × ℕ → List FieldRead}
    (hf : ∀ fh, fh.2 ≤ s.length → Reports Error.Plain (f fh) (next fh)) :
    Reports Error.Plain (decFixedHeader s >>= f) (readHeader s next) := by
  have hheader : Reports Error.Plain (decFixedHeader s) [⟨.byte, s⟩] := by
    rw [decFixedHeader_eq]
    exact Reads.traced s
  exact hheader.bind fun fh hfh => hf fh ((decFixedHeader_sat s).of_ok hfh).2.2

theorem readField_traced {f : α × ℕ → Result β} {next : α × ℕ → List FieldRead} (hn : n ≤ s.length)
    (hf : ∀ r, r.2 ≤ s.length → Reports Error.Plain (f r) (next r)) :
    Reports Error.Plain (decField α s n >>= f) (readField α s n next) :=
  (decField_traced hn).bind fun r hr => hf r ((decField_sat α s n).of_ok hr).2

theorem readFieldIf_traced {f : Option α × ℕ → Result β} {next : Option α × ℕ → List FieldRead}
    {pred : Bool} (hn : n ≤ s.length)
    (hf : ∀ r, r.2 ≤ s.length → Reports Error.Plain (f r) (next r)) :
    Reports Error.Plain (decFieldIf α s n pred >>= f) (readFieldIf α s n pred next) :=
  (decFieldIf_traced hn pred).bind fun r hr => hf r ((decFieldIf_sat α hn pred).of_ok hr).1.2

theorem readProps_traced {f : Option α × ℕ → Result β} {next : Option α × ℕ → List FieldRead}
    (hn : n ≤ s.length) (hf : ∀ r, r.2 ≤ s.length → Reports Error.Plain (f r) (next r)) :
    Reports Error.Plain (decProps α s n >>= f) (readProps α s n next) :=
  (decProps_traced hn).bind fun r hr => hf r ((decProps_sat α s n).of_ok hr).2

theorem readPropsIf_traced {f : Option α × ℕ → Result β} {next : Option α × ℕ → List FieldRead}
    {pred : Bool} (hn : n ≤ s.length)
    (hf : ∀ r, r.2 ≤ s.length → Reports Error.Plain (f r) (next r)) :
    Reports Error.Plain (decPropsIf α s n pred >>= f) (readPropsIf α s n pred next) :=
  (decPropsIf_traced hn pred).bind fun r hr => hf r ((decPropsIf_sat α hn pred).of_ok hr).1.2

end Sequence

section Codes

theorem ConnackReasonCode.tryFrom_traced (v : UInt8) :
    Reports Error.Plain (ConnackReasonCode.tryFrom v) [] := by
  unfold ConnackReasonCode.tryFrom
  split <;> first | exact .ok _ | exact malformed_traced _

theorem DisconnReasonCode.tryFrom_traced (v : UInt8) :
    Reports Error.Plain (DisconnReasonCode.tryFrom v) [] := by
  unfold DisconnReasonCode.tryFrom
  split <;> first | exact .ok _ | exact malformed_traced _

theorem AuthReasonCode.tryFrom_traced (v : UInt8) :
    Reports Error.Plain (AuthReasonCode.tryFrom v) [] := by
  unfold AuthReasonCode.tryFrom
  split <;> first | exact .ok _ | exact protocol_traced _

theorem ReasonCode.tryFrom_traced (v : UInt8) : Reports Error.Plain (ReasonCode.tryFrom v) [] := by
  unfold ReasonCode.tryFrom
  split <;> first | exact .ok _ | exact malformed_traced _

theorem SubAckReasonCode.tryFrom_traced (v : UInt8) :
    Reports Error.Plain (SubAckReasonCode.tryFrom v) [] := by
  unfold SubAckReasonCode.tryFrom
  split <;> first | exact .ok _ | exact malformed_traced _

theorem UnsubAckReasonCode.tryFrom_traced (v : UInt8) :
    Reports Error.Plain (UnsubAckReasonCode.tryFrom v) [] := by
  unfold UnsubAckReasonCode.tryFrom
  split <;> first | exact .ok _ | exact malformed_traced _

end Codes

section Connection

instance : Reads ConnectFlags where
  reads s := readField UInt8 s 0 fun _ => []
  traced s := by
    apply readField_traced (Nat.zero_le _)
    intro r _
    exact (errIf_traced (malformed_traced _) _).bind_done fun _ _ => .ok _

instance : Reads ConnackFlags where
  reads s := readField UInt8 s 0 fun _ => []
  traced s := by
    apply readField_traced (Nat.zero_le _)
    intro r _
    have hflags : Reports Error.Plain (ConnackFlags.unwrap ⟨r.1⟩) [] :=
      (errIf_traced (malformed_traced _) _).bind_done fun _ _ => .ok _
    exact hflags.bind_done fun _ _ => .ok _

instance : Reads ConnAck where
  reads s := readHeader s fun fh => readField ConnackFlags s fh.2 fun flags =>
    readField UInt8 s flags.2 fun code => after (ConnackReasonCode.tryFrom code.1) fun _ =>
      readProps ConnAckProperties s code.2 fun _ => []
  traced s := by
    apply readHeader_traced
    intro fh hfh
    apply readField_traced hfh
    intro flags hflags
    apply readField_traced hflags
    intro code hcode
    apply (ConnackReasonCode.tryFrom_traced code.1).bind_after
    intro _ _
    exact readProps_traced hcode fun _ _ => .ok _

instance : Reads PingReq where
  reads s := readHeader s fun _ => []
  traced _ := readHeader_traced fun _ _ => .ok _

instance : Reads PingResp where
  reads s := readHeader s fun _ => []
  traced _ := readHeader_traced fun _ _ => .ok _

instance : Reads Disconnect where
  reads s := readHeader s fun fh =>
    if fh.1.remainingLen.val = 0 then []
    else if fh.1.remainingLen.val < 2 then readField UInt8 s fh.2 fun code =>
      after (DisconnReasonCode.tryFrom code.1) fun _ => []
    else readField UInt8 s fh.2 fun code => after (DisconnReasonCode.tryFrom code.1) fun _ =>
      readProps DisconnProperties s code.2 fun _ => []
  traced s := by
    apply readHeader_traced
    intro fh hfh
    dsimp only
    split_ifs
    · exact .ok _
    · apply readField_traced hfh
      intro code _
      exact (DisconnReasonCode.tryFrom_traced code.1).bind_after fun _ _ => .ok _
    · apply readField_traced hfh
      intro code hcode
      apply (DisconnReasonCode.tryFrom_traced code.1).bind_after
      intro _ _
      exact readProps_traced hcode fun _ _ => .ok _

instance : Reads Auth where
  reads s := readHeader s fun fh =>
    if fh.1.remainingLen.val = 0 then []
    else readField UInt8 s fh.2 fun code => after (AuthReasonCode.tryFrom code.1) fun _ =>
      readProps AuthProperties s code.2 fun _ => []
  traced s := by
    apply readHeader_traced
    intro fh hfh
    dsimp only
    split_ifs
    · exact .ok _
    · apply readField_traced hfh
      intro code hcode
      apply (AuthReasonCode.tryFrom_traced code.1).bind_after
      intro _ _
      exact readProps_traced hcode fun _ _ => .ok _

end Connection

namespace Pub

theorem validate_traced (self : Pub) : Reports Error.Plain self.validate [] := by
  have hcode (bad : Bool) : Reports Error.Plain (errIf bad .malformedPacket .malformedPacket
      ("invalid code " ++ self.code.debug)) [] := errIf_traced (malformed_traced _) bad
  obtain ⟨t, id, code, props⟩ := self
  cases t with
  | pubAck | pubRec | pubRel | pubComp => exact hcode _
  | _ => exact .panic

/-- What is read after the packet id. -/
def fieldsReads (remainingLen : UInt32) (s : List UInt8) (n : ℕ) : List FieldRead :=
  if remainingLen = 2 then []
  else if remainingLen = 3 then readField UInt8 s n fun val =>
    after (ReasonCode.tryFrom val.1) fun _ => []
  else readField UInt8 s n fun val => after (ReasonCode.tryFrom val.1) fun _ =>
    readProps PubProperties s val.2 fun _ => []

theorem decFields_traced (t : PacketType) (id : UInt16) (len : UInt32) {s : List UInt8} {n : ℕ}
    (hn : n ≤ s.length) :
    Reports Error.Plain (decFields t id len s n) (fieldsReads len s n) := by
  unfold decFields fieldsReads
  split_ifs
  · exact .ok _
  · apply readField_traced hn
    intro val _
    exact (ReasonCode.tryFrom_traced val.1).bind_after fun _ _ => .ok _
  · apply readField_traced hn
    intro val hval
    apply (ReasonCode.tryFrom_traced val.1).bind_after
    intro _ _
    exact readProps_traced hval fun _ _ => .ok _

end Pub

instance : Reads Pub where
  reads s := readHeader s fun fh => after fh.1.unwrap fun _ => readField UInt16 s fh.2 fun id =>
    Pub.fieldsReads fh.1.remainingLen.val s id.2
  traced s := by
    apply readHeader_traced
    intro fh hfh
    apply fh.1.unwrap_traced.bind_after
    intro r _
    apply readField_traced hfh
    intro id hid
    apply (Pub.decFields_traced _ _ _ hid).bind_done
    intro packet _
    exact packet.1.validate_traced.bind_done fun _ _ => .ok _

section Payload

/-- What is read of a payload, if it can be cut out. -/
def payloadReads {α : Type} (s : List UInt8) (hdr : VarHeader α)
    (next : List UInt8 → List FieldRead) : List FieldRead :=
  if hdr.fieldsEnd < hdr.packetEnd ∧ hdr.packetEnd ≤ s.length then
    next ((s.drop hdr.fieldsEnd).take (hdr.packetEnd - hdr.fieldsEnd))
  else []

/-- What is read to fill a payload's bytes into values. -/
def allReads (α : Type) [Packetize α] [Reads α] (payload : List UInt8) : List FieldRead :=
  loopReads (decField α payload) (fun (vals : List α) val => (.ok (vals ++ [val]) : Result _))
    (fieldReads α payload) payload.length (payload.length + 1) 0 []

/-- What is read of the packets that begin with a packet id. -/
def idReads (α : Type) [Packetize α] [Reads α] (s : List UInt8) : List FieldRead :=
  readHeader s fun fh => readField UInt16 s fh.2 fun id => readProps α s id.2 fun _ => []

theorem payload_traced {α β γ : Type} {s : List UInt8} {hdr : VarHeader α}
    {empty short : Result (β × ℕ)} {wrap : List UInt8 → β} {f : β × ℕ → Result γ}
    {next : List UInt8 → List FieldRead} (hempty : Reports Error.Plain (empty >>= f) [])
    (hshort : Reports Error.Plain (short >>= f) [])
    (hf : ∀ payload, Reports Error.Plain (f (wrap payload, hdr.packetEnd)) (next payload)) :
    Reports Error.Plain (cutPayload s hdr.fieldsEnd hdr.packetEnd empty wrap short >>= f)
      (payloadReads s hdr next) := by
  unfold cutPayload payloadReads
  by_cases heq : hdr.packetEnd = hdr.fieldsEnd
  · rw [if_pos heq, if_neg (by omega)]
    exact hempty
  rw [if_neg heq]
  by_cases hlen : hdr.packetEnd ≤ s.length
  · rw [if_pos hlen]
    by_cases hlt : hdr.fieldsEnd < hdr.packetEnd
    · rw [slice_of_le hlt.le hlen, if_pos ⟨hlt, hlen⟩]
      exact hf _
    · rw [slice_eq_panic.mpr (by omega), if_neg (by omega)]
      exact .panic
  · rw [if_neg hlen, if_neg (by omega)]
    exact hshort

/-- A payload of which nothing is read. -/
theorem payload_done {α β γ : Type} {s : List UInt8} {hdr : VarHeader α}
    {empty short : Result (β × ℕ)} {wrap : List UInt8 → β} {f : β × ℕ → Result γ}
    (hempty : Reports Error.Plain (empty >>= f) []) (hshort : Reports Error.Plain (short >>= f) [])
    (hf : ∀ payload, Reports Error.Plain (f (wrap payload, hdr.packetEnd)) []) :
    Reports Error.Plain (cutPayload s hdr.fieldsEnd hdr.packetEnd empty wrap short >>= f) [] := by
  have hcut := payload_traced (s := s) hempty hshort hf
  rwa [payloadReads, ite_self] at hcut

theorem decAll_traced (α : Type) [Packetize α] [Packetize.Bounded α] [Reads α]
    (payload : List UInt8) : Reports Error.Plain (decAll α payload) (allReads α payload) := by
  have hloop := Traced.readLoop payload.length (payload.length + 1)
    (fun n hn => decField_traced (α := α) (n := n) hn)
    (fun hx => ((decField_sat α payload _).of_ok hx).2)
    (fun (vals : List α) val => .ok (vals ++ [val])) (Nat.zero_le _) []
  exact hloop.bind_done fun _ _ => .ok _

theorem decIdHeader_traced (α : Type) [Packetize α] [Packetize.Bounded α] [Reads α]
    (s : List UInt8) : Reports Error.Plain (decIdHeader α s) (idReads α s) := by
  apply readHeader_traced
  intro fh hfh
  apply readField_traced hfh
  intro id hid
  exact readProps_traced hid fun _ _ => .ok _

end Payload

namespace Publish

def headerReads (s : List UInt8) : List FieldRead :=
  readHeader s fun fh => after fh.1.unwrap fun (_, _, qos, _) => readField TopicName s fh.2 fun topic =>
    readFieldIf UInt16 s topic.2 (qos = QoS.atLeastOnce ∨ qos = QoS.exactlyOnce) fun id =>
      readProps PublishProperties s id.2 fun _ => []

theorem decHeader_traced (s : List UInt8) : Reports Error.Plain (decHeader s) (headerReads s) := by
  apply readHeader_traced
  intro fh hfh
  apply fh.1.unwrap_traced.bind_after
  intro r _
  apply readField_traced hfh
  intro topic htopic
  apply readFieldIf_traced htopic
  intro id hid
  exact readProps_traced hid fun _ _ => .ok _

theorem validate_traced (self : Publish) : Reports Error.Plain self.validate [] := by
  apply (errIf_traced (malformed_traced _) _).bind_done
  intro _ _
  apply (errIf_traced (malformed_traced _) _).bind_done
  intro _ _
  unfold validateText
  split
  · exact errIf_traced (.err (.inr (.inr rfl)) (.inl rfl)) _
  · exact .ok ()

end Publish

instance : Reads Publish where
  reads s := Publish.headerReads s
  traced s := by
    apply (Publish.decHeader_traced s).bind_done
    intro hdr _
    apply payload_done
    · exact (Publish.validate_traced _).bind_done fun _ _ => .ok _
    · exact malformed_traced _
    · intro payload
      exact (Publish.validate_traced _).bind_done fun _ _ => .ok _

instance : Reads SubscriptionOpt where
  reads s := readField UInt8 s 0 fun _ => []
  traced _ := readField_traced (Nat.zero_le _) fun _ _ => .ok _

instance : Reads SubscribeFilter where
  reads s := readField TopicFilter s 0 fun filter => readField SubscriptionOpt s filter.2 fun _ => []
  traced s := by
    apply readField_traced (Nat.zero_le _)
    intro filter hfilter
    exact readField_traced hfilter fun _ _ => .ok _

theorem SubscribeFilter.validateOpt_traced (filter : SubscribeFilter) :
    Reports Error.Plain filter.validateOpt [] := by
  apply (errIf_traced (malformed_traced _) _).bind_done
  intro _ _
  apply (errIf_traced (malformed_traced _) _).bind_done
  intro _ _
  exact (QoS.tryFrom_traced _).bind_done fun _ _ => .ok ()

instance : Reads Subscribe where
  reads s := idReads SubscribeProperties s ++ after (decIdHeader SubscribeProperties s) fun hdr =>
    payloadReads s hdr (allReads SubscribeFilter)
  traced s := by
    apply (decIdHeader_traced SubscribeProperties s).bind
    intro hdr _
    apply payload_traced (malformed_traced _) (malformed_traced _)
    intro payload
    apply (decAll_traced SubscribeFilter payload).bind_done
    intro filters _
    apply Traced.bind_done
    · apply (errIf_traced (protocol_traced _) _).bind_done
      intro _ _
      exact .forM SubscribeFilter.validateOpt_traced filters
    · exact fun _ _ => .ok _

instance : Reads UnSubscribe where
  reads s := idReads UnSubscribeProperties s ++ after (decIdHeader UnSubscribeProperties s) fun hdr =>
    payloadReads s hdr (allReads TopicFilter)
  traced s := by
    apply (decIdHeader_traced UnSubscribeProperties s).bind
    intro hdr _
    apply payload_traced (protocol_traced _) (protocol_traced _)
    intro payload
    apply (decAll_traced TopicFilter payload).bind_done
    intro filters _
    exact (errIf_traced (protocol_traced _) _).bind_done fun _ _ => .ok _

instance : Reads SubAck where
  reads := idReads SubAckProperties
  traced s := by
    apply (decIdHeader_traced SubAckProperties s).bind_done
    intro hdr _
    apply payload_done (malformed_traced _) (malformed_traced _)
    intro payload
    exact (Traced.mapM SubAckReasonCode.tryFrom_traced payload).bind_done fun _ _ => .ok _

instance : Reads UnsubAck where
  reads := idReads UnsubAckProperties
  traced s := by
    apply (decIdHeader_traced UnsubAckProperties s).bind_done
    intro hdr _
    apply payload_done (malformed_traced _) (malformed_traced _)
    intro payload
    exact (Traced.mapM UnsubAckReasonCode.tryFrom_traced payload).bind_done fun _ _ => .ok _

/-- The reason codes of all decoders. -/
def Error.Coded (e : Error) : Prop := e.Plain ∨ e.code = some .unsupportedProtocolVersion

namespace Connect

/-- The packet up to the byte with the version. -/
def decStart (stream : List UInt8) : Result (String × UInt8 × ℕ) := do
  let (_, n) ← decFixedHeader stream
  let (protocolName, n) ← decField String stream n
  let (val, n) ← decField UInt8 stream n
  .ok (protocolName, val, n)

/-- The fields after the version. -/
def decTail (stream : List UInt8) (n : ℕ) :
    Result ((ConnectFlags × UInt16 × Option ConnectProperties × ConnectPayload) × ℕ) := do
  let (flags, n) ← decField ConnectFlags stream n
  let (keepAlive, n) ← decField UInt16 stream n
  let (properties, n) ← decProps ConnectProperties stream n
  let willFlag := flags.isWillFlag
  let (clientId, n) ← decField String stream n
  let (willProperties, n) ← decPropsIf WillProperties stream n willFlag
  let (willTopic, n) ← decFieldIf TopicName stream n willFlag
  let (willPayload, n) ← decFieldIf (List UInt8) stream n willFlag
  let (userName, n) ← decFieldIf String stream n flags.isUsername
  let (password, n) ← decFieldIf String stream n flags.isPassword
  .ok ((flags, keepAlive, properties,
    ⟨⟨clientId⟩, willProperties, willTopic, willPayload, userName, password⟩), n)

/-- What is validated after the protocol. -/
def validateTail (self : Connect) : Result Unit := do
  self.flags.validate
  let flags := self.flags.val
  let _ ← QoS.tryFrom ((flags &&& ConnectFlags.willQosMask) >>> 3)
  if flags &&& ConnectFlags.willFlag > 0 then self.validateWill else .ok ()
  validateWillText self.payload

/-- The decoder, cut where the protocol is looked at. -/
theorem decode_eq (s : List UInt8) :
    (decode s : Result (Connect × ℕ)) = (do
      let (protocolName, val, n) ← decStart s
      let protocolVersion ← MqttProtocol.tryFrom val
      let ((flags, keepAlive, properties, payload), n) ← decTail s n
      let val : Connect := ⟨protocolName, protocolVersion, flags, keepAlive, properties, payload⟩
      val.validate
      .ok (val, n)) := by
  simp only [decode, decStart, decTail, bind_assoc, ok_bind]

def startReads (s : List UInt8) : List FieldRead :=
  readHeader s fun fh => readField String s fh.2 fun name => readField UInt8 s name.2 fun _ => []

def tailReads (s : List UInt8) (n : ℕ) : List FieldRead :=
  readField ConnectFlags s n fun flags => readField UInt16 s flags.2 fun alive =>
    readProps ConnectProperties s alive.2 fun props => readField String s props.2 fun client =>
    readPropsIf WillProperties s client.2 flags.1.isWillFlag fun wprops =>
    readFieldIf TopicName s wprops.2 flags.1.isWillFlag fun topic =>
    readFieldIf (List UInt8) s topic.2 flags.1.isWillFlag fun will =>
    readFieldIf String s will.2 flags.1.isUsername fun user =>
    readFieldIf String s user.2 flags.1.isPassword fun _ => []

/-- Past the version nothing is read unless it is one of the two that are known. -/
def reads (s : List UInt8) : List FieldRead :=
  startReads s ++ after (decStart s) fun (_, val, n) =>
    after (MqttProtocol.tryFrom val) fun _ => tailReads s n

theorem decStart_traced (s : List UInt8) : Reports Error.Plain (decStart s) (startReads s) := by
  apply readHeader_traced
  intro fh hfh
  apply readField_traced hfh
  intro name hname
  exact readField_traced hname fun _ _ => .ok _

theorem decStart_sat (s : List UInt8) : (decStart s).Sat fun r => r.2.2 ≤ s.length := by
  apply (decFixedHeader_sat s).bind
  intro fh _ _
  apply (decField_sat String s fh.2).bind
  intro name _ _
  apply (decField_sat UInt8 s name.2).bind
  intro val _ hval
  exact hval.2

theorem decTail_traced {s : List UInt8} {n : ℕ} (hn : n ≤ s.length) :
    Reports Error.Plain (decTail s n) (tailReads s n) := by
  apply readField_traced hn
  intro flags hflags
  apply readField_traced hflags
  intro alive halive
  apply readProps_traced halive
  intro props hprops
  apply readField_traced hprops
  intro client hclient
  apply readPropsIf_traced hclient
  intro wprops hwprops
  apply readFieldIf_traced hwprops
  intro topic htopic
  apply readFieldIf_traced htopic
  intro will hwill
  apply readFieldIf_traced hwill
  intro user huser
  exact readFieldIf_traced huser fun _ _ => .ok _

theorem validateTail_traced (self : Connect) : Reports Error.Plain self.validateTail [] := by
  have hwill : Reports Error.Plain self.validateWill [] := by
    unfold validateWill
    split_ifs <;> first | exact .ok () | exact malformed_traced _
  have htext : Reports Error.Plain (validateWillText self.payload) [] := by
    unfold validateWillText
    split_ifs
    · split
      · exact .panic
      · exact errIf_traced (malformed_traced _) _
    · exact .ok ()
  apply (errIf_traced (malformed_traced _) _).bind_done
  intro _ _
  apply (QoS.tryFrom_traced _).bind_done
  intro _ _
  dsimp only
  split_ifs
  · exact hwill.bind_done fun _ _ => htext
  · exact htext

theorem version_traced (v : UInt8) : Reports Error.Coded (MqttProtocol.tryFrom v) [] := by
  unfold MqttProtocol.tryFrom
  split
  · exact .ok _
  · exact .ok _
  · exact .err (.inr rfl) (.inl rfl)

theorem validate_traced (self : Connect) : Reports Error.Coded self.validate [] := by
  have hprotocol (d : String) (bad : Bool) : Reports Error.Coded
      (errIf bad .protocolError .unsupportedProtocolVersion d) [] :=
    errIf_traced (.err (.inr rfl) (.inr rfl)) bad
  apply (hprotocol _ _).bind_done
  intro _ _
  apply (hprotocol _ _).bind_done
  intro _ _
  exact self.validateTail_traced.mono fun _ => .inl

theorem traced (s : List UInt8) :
    Reports Error.Coded (decode s : Result (Connect × ℕ)) (reads s) := by
  rw [decode_eq]
  apply ((decStart_traced s).mono fun _ => .inl).bind
  rintro ⟨name, val, n⟩ hstart
  have hn : n ≤ s.length := (decStart_sat s).of_ok hstart
  apply (version_traced val).bind_after
  intro version _
  apply ((decTail_traced hn).mono fun _ => .inl).bind_done
  intro r _
  exact (validate_traced _).bind_done fun _ _ => .ok _

/-- The protocol is refused: the version is unknown, or the packet can be read in full and the name or
the version is not that of MQTT 5. -/
def Refused (s : List UInt8) : Prop :=
  ∃ name val n, decStart s = .ok (name, val, n) ∧
    (val ≠ 4 ∧ val ≠ 5 ∨ (name ≠ "MQTT" ∨ val ≠ 5) ∧ (decTail s n).isOk)

theorem unknown_version {v : UInt8} (h4 : v ≠ 4) (h5 : v ≠ 5) :
    MqttProtocol.tryFrom v = errCode .malformedPacket .unsupportedProtocolVersion s!"found: {v}" := by
  unfold MqttProtocol.tryFrom
  split
  · exact absurd rfl h4
  · exact absurd rfl h5
  · rfl

/-- A plain error does not become one about the version. -/
theorem plain_ne_unsupported {e : Error} (h : e.Plain) :
    e.code ≠ some .unsupportedProtocolVersion := by
  rcases h with h | h | h <;> rw [h] <;> decide

theorem validate_unsupported_iff (self : Connect) :
    (∃ e, self.validate = .err e ∧ e.code = some .unsupportedProtocolVersion) ↔
      self.protocolName ≠ "MQTT" ∨ self.protocolVersion ≠ .v5 := by
  have hdef : self.validate = (do
      errIf (self.protocolName ≠ "MQTT") .protocolError .unsupportedProtocolVersion
        (pp ++ " proto-name " ++ self.protocolName.quote)
      errIf (self.protocolVersion ≠ .v5) .protocolError .unsupportedProtocolVersion
        (pp ++ " proto-version " ++ self.protocolVersion.debug)
      self.validateTail) := rfl
  rw [hdef]
  by_cases hname : self.protocolName = "MQTT"
  · by_cases hversion : self.protocolVersion = .v5
    · have hplain (e : Error) (he : self.validateTail = .err e) :=
        plain_ne_unsupported (self.validateTail_traced.known he)
      simpa [errIf, hname, hversion] using hplain
    · simp [errIf, errCode, hname, hversion]
  · simp [errIf, errCode, hname]

theorem unsupported_iff (s : List UInt8) :
    (∃ e, (decode s : Result (Connect × ℕ)) = .err e ∧
      e.code = some .unsupportedProtocolVersion) ↔ Refused s := by
  rw [decode_eq]
  cases hstart : decStart s with
  | err e =>
    have hne := plain_ne_unsupported ((decStart_traced s).known hstart)
    simp [Refused, hstart, hne]
  | panic => simp [Refused, hstart]
  | ok r =>
    obtain ⟨name, val, n⟩ := r
    have hn : n ≤ s.length := (decStart_sat s).of_ok hstart
    have hrefused : Refused s ↔
        (val ≠ 4 ∧ val ≠ 5 ∨ (name ≠ "MQTT" ∨ val ≠ 5) ∧ (decTail s n).isOk) := by
      simp [Refused, hstart]
    rw [hrefused, ok_bind]
    by_cases hknown : val = 4 ∨ val = 5
    · obtain ⟨version, hversion, hv5⟩ : ∃ version, MqttProtocol.tryFrom val = .ok version ∧
          (version ≠ .v5 ↔ val ≠ 5) := by
        rcases hknown with rfl | rfl
        · exact ⟨.v4, rfl, by decide⟩
        · exact ⟨.v5, rfl, by decide⟩
      have hunknown : ¬ (val ≠ 4 ∧ val ≠ 5) := by
        push Not
        exact hknown.resolve_left
      dsimp only
      rw [or_iff_right hunknown, ← hv5, hversion, ok_bind]
      cases htail : decTail s n with
      | err e =>
        have hne := plain_ne_unsupported ((decTail_traced hn).known htail)
        simp [isOk, hne]
      | panic => simp [isOk]
      | ok r =>
        obtain ⟨⟨flags, alive, props, payload⟩, m⟩ := r
        rw [ok_bind]
        simp only [bind_ok_eq_err, isOk, and_true]
        exact validate_unsupported_iff ⟨name, version, flags, alive, props, payload⟩
    · push Not at hknown
      simp [unknown_version hknown.1 hknown.2, errCode, hknown]

end Connect

namespace Packet

/-- What is read for a packet of one type. -/
def typeReads (pktType : PacketType) (s : List UInt8) : List FieldRead :=
  match pktType with
  | .connect => Connect.reads s
  | .connAck => Reads.reads ConnAck s
  | .publish => Reads.reads Publish s
  | .pubAck | .pubRec | .pubRel | .pubComp => Reads.reads Pub s
  | .subscribe => Reads.reads Subscribe s
  | .subAck => Reads.reads SubAck s
  | .unSubscribe => Reads.reads UnSubscribe s
  | .unsubAck => Reads.reads UnsubAck s
  | .pingReq => Reads.reads PingReq s
  | .pingResp => Reads.reads PingResp s
  | .disconnect => Reads.reads Disconnect s
  | .auth => Reads.reads Auth s

/-- The fields that the decoder comes to, in their order. A field is come to if all fields before it
could be decoded. -/
def reads (s : List UInt8) : List FieldRead :=
  ⟨.byte, s⟩ :: after (decode s : Result (FixedHeader × ℕ)) fun fh =>
    after fh.1.unwrap fun (pktType, _) => typeReads pktType s

theorem decodeType_plain {t : PacketType} (ht : t ≠ .connect) (s : List UInt8) :
    Reports Error.Plain (decodeType t s) (typeReads t s) := by
  cases t with
  | connect => exact absurd rfl ht
  | _ => exact (Reads.traced s).bind_done fun _ _ => .ok _

theorem decodeType_traced (t : PacketType) (s : List UInt8) :
    Reports Error.Coded (decodeType t s) (typeReads t s) := by
  by_cases ht : t = .connect
  · subst ht
    exact (Connect.traced s).bind_done fun _ _ => .ok _
  · exact (decodeType_plain ht s).mono fun _ => .inl

theorem traced (s : List UInt8) :
    Reports Error.Coded (decode s : Result (Packet × ℕ)) (reads s) := by
  apply ((Reads.traced (α := FixedHeader) s).mono fun _ => .inl).bind
  intro fh _
  apply (fh.1.unwrap_traced.mono fun _ => .inl).bind_after
  intro r _
  exact decodeType_traced r.1 s

theorem ordinary_iff (s : List UInt8) :
    (∀ e, (decode s : Result (Packet × ℕ)) = .err e →
      e.kind = .malformedPacket ∨ e.kind = .protocolError) ↔ ∀ r ∈ reads s, r.Fits :=
  (traced s).fits_iff.symm

/-- A PUBACK of one byte ends inside its packet id. -/
theorem pubAck_cut_off :
    ¬ ∀ (s : List UInt8) (e : Error), (decode s : Result (Packet × ℕ)) = .err e →
      e.kind = .malformedPacket ∨ e.kind = .protocolError := by
  intro hall
  have hkind := hall [0x40, 0x01, 0x00] ⟨.insufficientBytes, "u16::decode()", some .malformedPacket⟩
    (by decide)
  exact absurd hkind (by decide)

/-- The packet type that the fixed header has, if it has one. -/
def headerType (s : List UInt8) : Option PacketType :=
  match (decode s : Result (FixedHeader × ℕ)) with
  | .ok (fh, _) => fh.unwrap.toOption.map Prod.fst
  | _ => none

theorem unsupported_iff (s : List UInt8) :
    (∃ e, (decode s : Result (Packet × ℕ)) = .err e ∧ e.code = some .unsupportedProtocolVersion) ↔
      headerType s = some .connect ∧ Connect.Refused s := by
  cases hfh : (decode s : Result (FixedHeader × ℕ)) with
  | ok r =>
    obtain ⟨fh, k⟩ := r
    obtain ⟨t, flags, hu⟩ := FixedHeader.unwrap_of_unwraps ((FixedHeader.decode_valid s).of_ok hfh).2.1
    have htype : headerType s = some t := by simp [headerType, hfh, hu, toOption]
    rw [decode_eq hfh hu, htype]
    by_cases ht : t = .connect
    · subst ht
      simp only [decodeType, decAs, bind_ok_eq_err, Connect.unsupported_iff, true_and]
    · have hplain (e : Error) (he : decodeType t s = .err e) :=
        Connect.plain_ne_unsupported ((decodeType_plain ht s).known he)
      simpa [ht] using hplain
  | err e =>
    have herr : (decode s : Result (Packet × ℕ)) = .err e := by
      change ((decode s : Result (FixedHeader × ℕ)) >>= _) = _
      rw [hfh, err_bind]
    have hne := Connect.plain_ne_unsupported ((Reads.traced (α := FixedHeader) s).known hfh)
    simp [herr, headerType, hfh, hne]
  | panic => exact absurd hfh (FixedHeader.decode_valid s).ne_panic

theorem disconnect_code_iff {e : Error} (h : e.Coded) :
    (DisconnReasonCode.tryFrom e.reasonCode.toU8).isOk ↔
      e.code ≠ some .unsupportedProtocolVersion := by
  rcases h with (h | h | h) | h <;> simp only [Error.reasonCode, h] <;> decide

theorem disconnect_reports_iff (s : List UInt8) :
    (∀ e, (decode s : Result (Packet × ℕ)) = .err e →
      (DisconnReasonCode.tryFrom e.reasonCode.toU8).isOk) ↔
        ¬ (headerType s = some .connect ∧ Connect.Refused s) := by
  rw [← unsupported_iff]
  constructor
  · rintro hall ⟨e, he, hcode⟩
    exact (disconnect_code_iff ((traced s).known he)).mp (hall e he) hcode
  · intro hnone e he
    refine (disconnect_code_iff ((traced s).known he)).mpr fun hcode => ?_
    exact hnone ⟨e, he, hcode⟩

/-- A CONNECT with version 3 is refused with a code that a DISCONNECT does not have. -/
theorem old_version_not_reported :
    ¬ ∀ (s : List UInt8) (e : Error), (decode s : Result (Packet × ℕ)) = .err e →
      (DisconnReasonCode.tryFrom e.reasonCode.toU8).isOk := by
  intro hall
  have hok := hall [0x10, 0x07, 0x00, 0x04, 0x4d, 0x51, 0x54, 0x54, 0x03]
    ⟨.malformedPacket, "found: 3", some .unsupportedProtocolVersion⟩ (by decide)
  exact absurd hok (by decide)

end Packet

end Mqtr
