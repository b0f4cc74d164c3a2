import Mqtr.Wire.RoundTrip

/-! The round trips of PUBLISH and CONNECT, which hold only for some of the packets that can be sent. A
PUBLISH keeps one user property and one subscription identifier. A CONNECT is read back if it has a will
with properties, and if its authentication data are the bytes of its authentication method. -/
namespace Mqtr
open Outcome Codec

namespace Publish

/-- The packets that can be sent. -/
structure WellFormed (p : Publish) : Prop where
  valid : p.validate = .ok ()
  packetId : p.packetId.isSome ↔ p.qos ≠ .atMostOnce
  topicAlias {props : PublishProperties} : p.properties = some props → props.topicAlias ≠ some 0
  payload : p.payload ≠ some []
  properties : p.properties ≠ some {}

/-- At most one user property and at most one subscription identifier. -/
def NoneRepeated (p : Publish) : Prop :=
  ∀ props, p.properties = some props →
    props.userProperties.length ≤ 1 ∧ props.subscribtionIdentifier.length ≤ 1

theorem survives_iff {p : Publish} (hp : p.WellFormed) :
    Survives p.properties ↔ p.NoneRepeated := by
  constructor
  · intro h props hprops
    exact (PublishProperties.sparse_written_iff props).mp (h props hprops).1.2
  · intro h props hprops
    refine ⟨⟨PublishProperties.accepts_written (hp.topicAlias hprops), ?_⟩, fun hnil => ?_⟩
    · exact (PublishProperties.sparse_written_iff props).mpr (h props hprops)
    · apply hp.properties
      rw [hprops, PublishProperties.layout_lawful.written_eq_nil_iff.mp hnil]

/-- The header is read up to the topic, whatever follows it. -/
theorem decHeader_topic {p : Publish} {b : List UInt8} (h : encode p = .ok b) (rest : List UInt8) :
    ∃ n idBytes propBytes, encOpt p.packetId = .ok idBytes ∧ encProps p.properties = .ok propBytes ∧
      At (b ++ rest) n (idBytes ++ (propBytes ++ (p.payload.getD [] ++ rest))) ∧
      b.length = n + idBytes.length + propBytes.length + (p.payload.getD []).length ∧
      (decode (b ++ rest) : Result (Packet × ℕ)) = Packet.decodeType .publish (b ++ rest) ∧
      decHeader (b ++ rest) = (do
        let (packetId, n) ← decFieldIf UInt16 (b ++ rest) n
          (p.qos = .atLeastOnce ∨ p.qos = .exactlyOnce)
        let (properties, n) ← decProps PublishProperties (b ++ rest) n
        .ok ⟨{ p with packetId := packetId, properties := properties, payload := none }, n,
          b.length⟩) := by
  obtain ⟨data, hdata, h⟩ := bind_eq_ok.mp h
  obtain ⟨topic, _, htopic, htail, rfl⟩ := concat_cons_eq_ok.mp hdata
  obtain ⟨id, props, payload, hidBytes, hprop, hpayload, rfl⟩ := concat_three_eq_ok.mp htail
  obtain rfl := Outcome.ok.inj hpayload
  obtain ⟨fh, k, hfh, hu, hlen, hat, hb, hdec⟩ := (framed_of_withByte h).read rest
  simp only [List.append_assoc, List.length_append] at hat hb hlen
  refine ⟨_, id, props, hidBytes, hprop, hat.next, by omega, hdec, ?_⟩
  rw [decHeader, hfh, ok_bind]
  dsimp only
  rw [hu, ok_bind]
  dsimp only
  rw [decField_at htopic hat, ok_bind, hlen, ← hb]

/-- The header is read up to the properties, whatever these are. -/
theorem decHeader_encode {p : Publish} (hid : p.packetId.isSome ↔ p.qos ≠ .atMostOnce)
    {b : List UInt8} (h : encode p = .ok b) (rest : List UInt8) :
    ∃ n propBytes, encProps p.properties = .ok propBytes ∧
      At (b ++ rest) n (propBytes ++ (p.payload.getD [] ++ rest)) ∧
      b.length = n + propBytes.length + (p.payload.getD []).length ∧
      (decode (b ++ rest) : Result (Packet × ℕ)) = Packet.decodeType .publish (b ++ rest) ∧
      decHeader (b ++ rest) = (do
        let (properties, n) ← decProps PublishProperties (b ++ rest) n
        .ok ⟨{ p with properties := properties, payload := none }, n, b.length⟩) := by
  obtain ⟨n, idBytes, propBytes, hidBytes, hprop, hat, hb, hdec, hheader⟩ := decHeader_topic h rest
  have hpred : decide (p.qos = .atLeastOnce ∨ p.qos = .exactlyOnce) = p.packetId.isSome := by
    rw [Bool.eq_iff_iff, hid, decide_eq_true_iff]
    cases p.qos <;> simp
  refine ⟨_, propBytes, hprop, hat.next, hb, hdec, ?_⟩
  rw [hheader, decFieldIf_at hidBytes hpred hat, ok_bind]

/-- The decoder stops at a second user property or a second subscription identifier. -/
theorem noneRepeated_of_decode {p : Publish} (hid : p.packetId.isSome ↔ p.qos ≠ .atMostOnce)
    {b rest : List UInt8} {r : Packet × ℕ} (h : encode p = .ok b)
    (hr : decode (b ++ rest) = .ok r) : p.NoneRepeated := by
  obtain ⟨n, propBytes, hprop, hat, -, hdec, hheader⟩ := decHeader_encode hid h rest
  rw [hdec] at hr
  obtain ⟨_, hpublish, -⟩ := bind_eq_ok.mp hr
  obtain ⟨_, hok, -⟩ := bind_eq_ok.mp hpublish
  rw [hheader] at hok
  obtain ⟨_, hprops, -⟩ := bind_eq_ok.mp hok
  intro props hsome
  rw [hsome] at hprop
  have hrecord := (PublishProperties.encode_eq props).symm.trans hprop
  exact (PublishProperties.sparse_written_iff props).mp
    (sparse_of_decProps (fun _ => rfl) hrecord hat hprops)

/-- A payload that follows the fields of a header is read with them. -/
theorem decode_of_fields {s rest : List UInt8} {fields : Publish} {e : ℕ}
    {payload : Option (List UInt8)}
    (hheader : decHeader s = .ok ⟨fields, e, e + (payload.getD []).length⟩)
    (hat : At s e (payload.getD [] ++ rest)) (hne : payload ≠ some [])
    (hvalid : Publish.validate { fields with payload := payload } = .ok ()) :
    decode s = .ok ({ fields with payload := payload }, e + (payload.getD []).length) := by
  have hcut : cutPayload s e (e + (payload.getD []).length) (.ok (none, e)) some
      (errCode .malformedPacket .malformedPacket
        (pp ++ s!" in payload {e + (payload.getD []).length}")) =
        (.ok (payload, e + (payload.getD []).length) : Result (Option (List UInt8) × ℕ)) := by
    cases payload with
    | none => exact if_pos rfl
    | some payload => exact cutPayload_at hat fun hnil => hne (congrArg some hnil)
  show (decHeader s >>= _) = _
  rw [hheader, ok_bind]
  dsimp only
  rw [hcut, ok_bind]
  dsimp only
  rw [hvalid, ok_bind]

/-- What is read is the fields of the header with the payload between the two ends. -/
theorem fields_of_decode {s : List UInt8} {q : Publish} {n : ℕ} (h : decode s = .ok (q, n)) :
    ∃ hdr payload, decHeader s = .ok hdr ∧ q = { hdr.fields with payload := payload } ∧
      q.validate = .ok () ∧ n = hdr.packetEnd ∧
      hdr.fieldsEnd + (payload.getD []).length = hdr.packetEnd ∧ payload ≠ some [] := by
  obtain ⟨hdr, hheader, h⟩ := bind_eq_ok.mp h
  obtain ⟨⟨payload, m⟩, hcut, h⟩ := bind_eq_ok.mp h
  obtain ⟨_, hvalid, h⟩ := bind_eq_ok.mp h
  obtain ⟨rfl, rfl⟩ := Prod.mk.inj (Outcome.ok.inj h)
  refine ⟨hdr, payload, hheader, rfl, hvalid, ?_⟩
  rcases cutPayload_cases hcut with ⟨hend, hnone⟩ | ⟨bytes, hne, hend, hsome⟩ | hshort
  · obtain ⟨rfl, rfl⟩ := Prod.mk.inj (Outcome.ok.inj hnone)
    exact ⟨hend.symm, hend.symm, by simp⟩
  · obtain ⟨rfl, rfl⟩ := Prod.mk.inj hsome
    exact ⟨rfl, hend, fun hnil => hne (Option.some.inj hnil)⟩
  · exact absurd hshort (errCode_ne_ok _ _ _ _)

theorem decode_encode {p : Publish} (hp : p.WellFormed) (hfew : p.NoneRepeated) {b : List UInt8}
    (h : encode p = .ok b) (rest : List UInt8) :
    decode (b ++ rest) = .ok (Packet.publish p, b.length) := by
  obtain ⟨n, propBytes, hprop, hat, hb, hdec, hheader⟩ := decHeader_encode hp.packetId h rest
  rw [decProps_encProps hprop ((survives_iff hp).mpr hfew) hat, ok_bind, hb] at hheader
  have hread := decode_of_fields hheader hat.next hp.payload hp.valid
  rw [hdec, hb]
  exact Packet.decAs_of_decode hread

theorem publish_round_trip_iff {p : Publish} (hp : p.WellFormed) {b : List UInt8}
    (h : encode p = .ok b) :
    (∀ rest, decode (b ++ rest) = .ok (Packet.publish p, b.length)) ↔ p.NoneRepeated := by
  constructor
  · intro hall
    exact noneRepeated_of_decode hp.packetId h (hall [])
  · intro hfew rest
    exact decode_encode hp hfew h rest

/-- A message with one user property and one subscription identifier. -/
def tagged : Publish where
  retain := false
  qos := .atLeastOnce
  duplicate := false
  topicName := ⟨"a"⟩
  packetId := some 7
  properties := some { subscribtionIdentifier := [⟨5⟩], userProperties := [("k", "v")] }
  payload := some [0x68]

theorem tagged_round_trip :
    decode ([0x32, 0x10, 0x00, 0x01, 0x61, 0x00, 0x07, 0x09, 0x0b, 0x05, 0x26, 0x00, 0x01, 0x6b,
        0x00, 0x01, 0x76, 0x68] ++ [0xff]) = .ok (Packet.publish tagged, 18) := by
  have hp : tagged.WellFormed :=
    ⟨by decide, by decide, by rintro _ ⟨⟩; decide, by decide, by decide⟩
  have hfew : tagged.NoneRepeated := by
    rintro _ ⟨⟩
    decide
  exact (publish_round_trip_iff hp (b := [0x32, 0x10, 0x00, 0x01, 0x61, 0x00, 0x07, 0x09, 0x0b, 0x05,
    0x26, 0x00, 0x01, 0x6b, 0x00, 0x01, 0x76, 0x68]) (by decide)).mpr hfew [0xff]

/-- The same message with a second user property can be sent but not read. -/
theorem two_user_properties_lost :
    ¬ ∀ (p : Publish) (b : List UInt8), p.WellFormed → encode p = .ok b →
      ∀ rest, decode (b ++ rest) = .ok (Packet.publish p, b.length) := by
  intro hall
  let p : Publish := { tagged with
    properties := some { userProperties := [("k", "v"), ("k", "w")] } }
  have hp : p.WellFormed :=
    ⟨by decide, by decide, by rintro _ ⟨⟩; decide, by decide, by decide⟩
  have hround := hall p [0x32, 0x15, 0x00, 0x01, 0x61, 0x00, 0x07, 0x0e, 0x26, 0x00, 0x01, 0x6b, 0x00,
    0x01, 0x76, 0x26, 0x00, 0x01, 0x6b, 0x00, 0x01, 0x77, 0x68] hp (by decide) []
  exact absurd hround (by decide)

end Publish

namespace Connect

/-- The packets that can be sent: the flags say what the payload has, and no maximum is zero. -/
structure WellFormed (c : Connect) : Prop where
  valid : c.validate = .ok ()
  will : c.flags.isWillFlag = true ↔ c.payload.willTopic.isSome ∧ c.payload.willPayload.isSome ∧
    c.payload.willProperties.isSome
  userName : c.flags.isUsername = c.payload.userName.isSome
  password : c.flags.isPassword = c.payload.password.isSome
  maxima {props : ConnectProperties} : c.properties = some props →
    props.receiveMaximum ≠ some 0 ∧ props.maxPacketSize ≠ some 0

/-- Absent properties count as an empty set. -/
def normal (c : Connect) : Connect :=
  { c with
    properties := some (c.properties.getD {})
    payload := { c.payload with willProperties := some (c.payload.willProperties.getD {}) } }

/-- A will with properties, and the bytes of the authentication method for data. -/
def Recoverable (c : Connect) : Prop :=
  c.flags.isWillFlag = true ∧ c.payload.willProperties ≠ some {} ∧
    ∀ props, c.properties = some props →
      props.authenticationData = props.authenticationMethod.map asBytes

/-- The rest of the decoder, once what comes before the will has been read into `self`. -/
def decRest (self : Connect) (stream : List UInt8) (n : ℕ) : Result (Connect × ℕ) := do
  let willFlag := self.flags.isWillFlag
  let (willProperties, n) ← decPropsIf WillProperties stream n willFlag
  let (willTopic, n) ← decFieldIf TopicName stream n willFlag
  let (willPayload, n) ← decFieldIf (List UInt8) stream n willFlag
  let (userName, n) ← decFieldIf String stream n self.flags.isUsername
  let (password, n) ← decFieldIf String stream n self.flags.isPassword
  let val : Connect := { self with
    payload := ⟨self.payload.clientId, willProperties, willTopic, willPayload, userName, password⟩ }
  val.validate
  .ok (val, n)

theorem flags_validate {c : Connect} (h : c.validate = .ok ()) : c.flags.validate = .ok () := by
  obtain ⟨_, -, h⟩ := bind_eq_ok.mp h
  obtain ⟨_, -, h⟩ := bind_eq_ok.mp h
  obtain ⟨_, hflags, -⟩ := bind_eq_ok.mp h
  exact hflags

/-- A will must have properties. -/
theorem willProperties_of_validate {c : Connect} (h : c.validate = .ok ())
    (hwill : c.flags.isWillFlag = true) : c.payload.willProperties.isSome := by
  obtain ⟨_, -, h⟩ := bind_eq_ok.mp h
  obtain ⟨_, -, h⟩ := bind_eq_ok.mp h
  obtain ⟨_, -, h⟩ := bind_eq_ok.mp h
  obtain ⟨_, -, h⟩ := bind_eq_ok.mp h
  dsimp only at h
  rw [if_pos (of_decide_eq_true hwill)] at h
  obtain ⟨_, h, -⟩ := bind_eq_ok.mp h
  unfold validateWill at h
  split_ifs at h with _ hnone
  · exact absurd h (errCode_ne_ok _ _ _ _)
  · exact absurd h (errCode_ne_ok _ _ _ _)
  · exact absurd h (errCode_ne_ok _ _ _ _)
  · exact Option.isSome_iff_ne_none.mpr fun h => hnone (by rw [h]; rfl)

theorem flags_decode_cons {flags : ConnectFlags} (h : flags.validate = .ok ())
    (rest : List UInt8) : decode ([flags.val] ++ rest) = .ok (flags, [flags.val].length) :=
  ConnectFlags.decode_eq_ok.mpr ⟨⟨rest, rfl⟩, h, rfl⟩

/-- The properties come back as they were sent. -/
theorem decProps_sent {properties : Option ConnectProperties} {b s rest : List UInt8} {n : ℕ}
    (hmax : ∀ props, properties = some props →
      props.receiveMaximum ≠ some 0 ∧ props.maxPacketSize ≠ some 0)
    (h : encProps properties = .ok b) (hat : At s n (b ++ rest)) :
    ∃ properties', decProps ConnectProperties s n = .ok (properties', n + b.length) ∧
      properties'.getD {} = (properties.getD {}).sent := by
  cases properties with
  | none =>
    refine ⟨none, ?_, rfl⟩
    rw [decProps, advance_of_le hat.1, ok_bind, hat.2, decode_encode h, ok_bind]
    rfl
  | some x =>
    obtain ⟨hreceive, hsize⟩ := hmax x rfl
    have hacc : PropertySet.Accepted x.sent := ConnectProperties.accepted hreceive hsize
    refine ⟨_, decProps_encRecord (ConnectProperties.encode_eq_ok h) hacc hat, ?_⟩
    split_ifs with hnil
    · exact (ConnectProperties.layout_lawful.written_eq_nil_iff.mp hnil).symm
    · rfl

/-- Up to the client identifier the decoder reads what was written. -/
theorem decode_encode_rest {c : Connect} (hc : c.WellFormed) {b : List UInt8} (h : encode c = .ok b)
    (rest : List UInt8) :
    ∃ n properties wprops topic will user pass,
      properties.getD {} = (c.properties.getD {}).sent ∧
      encProps c.payload.willProperties = .ok wprops ∧ encOpt c.payload.willTopic = .ok topic ∧
      encOpt c.payload.willPayload = .ok will ∧ encOpt c.payload.userName = .ok user ∧
      encOpt c.payload.password = .ok pass ∧
      At (b ++ rest) n (wprops ++ (topic ++ (will ++ (user ++ (pass ++ rest))))) ∧
      b.length = n + (wprops ++ (topic ++ (will ++ (user ++ pass)))).length ∧
      decode (b ++ rest) = decRest { c with properties := properties } (b ++ rest) n := by
  obtain ⟨_, -, h⟩ := bind_eq_ok.mp h
  obtain ⟨data, hdata, h⟩ := bind_eq_ok.mp h
  obtain ⟨name, _, hname, hdata₁, rfl⟩ := concat_cons_eq_ok.mp hdata
  obtain ⟨version, _, hversion, hdata₂, rfl⟩ := concat_cons_eq_ok.mp hdata₁
  obtain ⟨flags, _, hflags, hdata₃, rfl⟩ := concat_cons_eq_ok.mp hdata₂
  obtain ⟨alive, _, halive, hdata₄, rfl⟩ := concat_cons_eq_ok.mp hdata₃
  obtain ⟨props, _, hprops, hdata₅, rfl⟩ := concat_cons_eq_ok.mp hdata₄
  obtain ⟨client, _, hclient, hdata₆, rfl⟩ := concat_cons_eq_ok.mp hdata₅
  obtain ⟨wprops, _, hwprops, hdata₇, rfl⟩ := concat_cons_eq_ok.mp hdata₆
  obtain ⟨topic, _, htopic, hdata₈, rfl⟩ := concat_cons_eq_ok.mp hdata₇
  obtain ⟨will, user, pass, hwill, huser, hpass, rfl⟩ := concat_three_eq_ok.mp hdata₈
  obtain rfl := Outcome.ok.inj hflags
  obtain ⟨fh, k, hfh, -, -, hat, hb, -⟩ := (framed_of_new h).read rest
  simp only [List.append_assoc] at hat
  obtain ⟨properties, hread, hsent⟩ := decProps_sent (fun _ => hc.maxima) hprops
    hat.next.next.next.next
  refine ⟨_, properties, wprops, topic, will, user, pass, hsent, hwprops, htopic, hwill, huser, hpass,
    hat.next.next.next.next.next.next, ?_, ?_⟩
  · rw [hb]
    simp only [List.length_append, Nat.add_assoc]
  · show (decFixedHeader _ >>= _) = _
    rw [hfh, ok_bind]
    dsimp only
    rw [decField_at hname hat, ok_bind]
    dsimp only
    rw [decField_at hversion hat.next, ok_bind]
    dsimp only
    rw [MqttProtocol.table.tryFrom_toU8, ok_bind,
      decField_of_decode (flags_decode_cons (flags_validate hc.valid) _) hat.next.next, ok_bind]
    dsimp only
    rw [decField_at halive hat.next.next.next, ok_bind]
    dsimp only
    rw [hread, ok_bind]
    dsimp only
    rw [decField_at hclient hat.next.next.next.next.next, ok_bind]
    rfl

/-- A text that is read takes as many bytes as it is written in. -/
theorem decFieldIf_length {s b : List UInt8} {n m : ℕ} {pred : Bool} {v : Option String}
    (h : decFieldIf String s n pred = .ok (v, m)) (hb : encOpt v = .ok b) : m = n + b.length := by
  unfold decFieldIf at h
  split_ifs at h
  · obtain ⟨⟨text, k⟩, hfield, h⟩ := bind_eq_ok.mp h
    obtain ⟨rfl, rfl⟩ := Prod.mk.inj (Outcome.ok.inj h)
    obtain ⟨tail, _, hfield⟩ := bind_eq_ok.mp hfield
    obtain ⟨⟨text', j⟩, htext, hfield⟩ := bind_eq_ok.mp hfield
    obtain ⟨rfl, rfl⟩ := Prod.mk.inj (Outcome.ok.inj hfield)
    obtain ⟨-, -, rfl⟩ := String.encode_eq_ok hb
    rw [(String.decode_eq_ok htext).1, List.length_append]
    rfl
  · obtain ⟨rfl, rfl⟩ := Prod.mk.inj (Outcome.ok.inj h)
    obtain rfl := Outcome.ok.inj hb
    rfl

theorem decode_encode {c : Connect} (hc : c.WellFormed) (hrec : c.Recoverable) {b : List UInt8}
    (h : encode c = .ok b) (rest : List UInt8) :
    ∃ c' : Connect, decode (b ++ rest) = .ok (c', b.length) ∧ c'.normal = c.normal := by
  obtain ⟨hflag, hnonempty, hauth⟩ := hrec
  obtain ⟨htopicSome, hwillSome, hpropsSome⟩ := hc.will.mp hflag
  obtain ⟨n, properties, wprops, topic, will, user, pass, hsent, hwprops, htopic, hwill, huser, hpass,
    hat, hb, hdec⟩ := decode_encode_rest hc h rest
  have hsurvives : Mqtr.Survives c.payload.willProperties :=
    Packet.survives_of_ne (fun x _ => WillProperties.accepted x)
      (fun _ => WillProperties.layout_lawful.written_eq_nil_iff.mp) hnonempty
  refine ⟨{ c with properties := properties }, ?_, ?_⟩
  · have hvalid : validate { c with properties := properties } = .ok () := hc.valid
    rw [hdec, decRest]
    dsimp only
    rw [hflag, decPropsIf, if_pos rfl, decProps_encProps hwprops hsurvives hat, ok_bind]
    dsimp only
    rw [decFieldIf_at htopic htopicSome.symm hat.next, ok_bind]
    dsimp only
    rw [decFieldIf_at hwill hwillSome.symm hat.next.next, ok_bind]
    dsimp only
    rw [decFieldIf_at huser hc.userName hat.next.next.next, ok_bind]
    dsimp only
    rw [decFieldIf_at hpass hc.password hat.next.next.next.next, ok_bind, hvalid, ok_bind, hb]
    simp only [List.length_append, Nat.add_assoc]
  · have hprops : properties.getD {} = c.properties.getD {} := by
      rw [hsent]
      cases hp : c.properties with
      | none => rfl
      | some props =>
        rw [Option.getD_some, ConnectProperties.sent, ← hauth props hp]
    rw [normal, normal, hprops]

/-- Without a will the empty list of its properties is written and not read. -/
theorem recoverable_of_decode {c c' : Connect} (hc : c.WellFormed) {b rest : List UInt8}
    (h : encode c = .ok b) (hdec' : decode (b ++ rest) = .ok (c', b.length))
    (hsame : c'.normal = c.normal) : c.Recoverable := by
  obtain ⟨n, properties, wprops, topic, will, user, pass, hsent, hwprops, htopic, hwill, huser, hpass,
    hat, hb, hdec⟩ := decode_encode_rest hc h rest
  rw [hdec] at hdec'
  obtain ⟨⟨wprops', n₁⟩, hwprops', hdec'⟩ := bind_eq_ok.mp hdec'
  obtain ⟨⟨topic', n₂⟩, htopic', hdec'⟩ := bind_eq_ok.mp hdec'
  obtain ⟨⟨will', n₃⟩, hwill', hdec'⟩ := bind_eq_ok.mp hdec'
  obtain ⟨⟨user', n₄⟩, huser', hdec'⟩ := bind_eq_ok.mp hdec'
  obtain ⟨⟨pass', n₅⟩, hpass', hdec'⟩ := bind_eq_ok.mp hdec'
  obtain ⟨_, hvalid, hdec'⟩ := bind_eq_ok.mp hdec'
  obtain ⟨rfl, hend⟩ := Prod.mk.inj (Outcome.ok.inj hdec')
  dsimp only at hwprops' htopic' hwill' huser' hpass' hend
  obtain rfl : user' = c.payload.userName := congrArg (·.payload.userName) hsame
  obtain rfl : pass' = c.payload.password := congrArg (·.payload.password) hsame
  have hproperties : properties.getD {} = c.properties.getD {} :=
    Option.some.inj (congrArg Connect.properties hsame)
  have hflag : c.flags.isWillFlag = true := by
    by_contra hno
    rw [Bool.not_eq_true] at hno
    rw [hno] at hwprops' htopic' hwill'
    obtain ⟨-, rfl⟩ := Prod.mk.inj (Outcome.ok.inj hwprops')
    obtain ⟨-, rfl⟩ := Prod.mk.inj (Outcome.ok.inj htopic')
    obtain ⟨-, rfl⟩ := Prod.mk.inj (Outcome.ok.inj hwill')
    have huserEnd := decFieldIf_length huser' huser
    have hpassEnd := decFieldIf_length hpass' hpass
    have hpos := encProps_pos hwprops
    simp only [List.length_append] at hb
    omega
  refine ⟨hflag, fun hempty => ?_, fun props hprops => ?_⟩
  · -- an empty list of will properties is read as none, which no will may have
    rw [hempty] at hwprops
    rw [hflag, decPropsIf, if_pos rfl,
      decProps_encRecord ((WillProperties.encode_eq _).symm.trans hwprops)
        (WillProperties.accepted _) hat, if_pos (by rfl)] at hwprops'
    obtain ⟨rfl, -⟩ := Prod.mk.inj (Outcome.ok.inj hwprops')
    exact absurd (willProperties_of_validate hvalid hflag) (by simp)
  · rw [hprops, Option.getD_some] at hproperties hsent
    rw [hproperties] at hsent
    exact congrArg ConnectProperties.authenticationData hsent

theorem connect_round_trip_iff {c : Connect} (hc : c.WellFormed) {b : List UInt8}
    (h : encode c = .ok b) :
    (∀ rest, ∃ c' : Connect, decode (b ++ rest) = .ok (c', b.length) ∧ c'.normal = c.normal) ↔
      c.Recoverable := by
  constructor
  · intro hall
    obtain ⟨c', hdec, hsame⟩ := hall []
    exact recoverable_of_decode hc h hdec hsame
  · intro hrec rest
    exact decode_encode hc hrec h rest

/-- A client that leaves a will. -/
def withWill : Connect where
  protocolName := "MQTT"
  protocolVersion := .v5
  flags := ⟨0b00000100⟩
  keepAlive := 60
  properties := none
  payload := ⟨⟨"c"⟩, some { willDelayInterval := some 5 }, some ⟨"t"⟩, some [0x01], none, none⟩

theorem withWill_round_trip :
    ∃ c' : Connect, decode ([0x10, 0x1a, 0x00, 0x04, 0x4d, 0x51, 0x54, 0x54, 0x05, 0x04, 0x00, 0x3c, 0x00,
        0x00, 0x01, 0x63, 0x05, 0x18, 0x00, 0x00, 0x00, 0x05, 0x00, 0x01, 0x74, 0x00, 0x01, 0x01] ++
        [0xc0, 0x00]) = .ok (c', 28) ∧ c'.normal = withWill.normal := by
  have hc : withWill.WellFormed := ⟨by decide, by decide, rfl, rfl, nofun⟩
  have hnone (props : ConnectProperties) : withWill.properties ≠ some props :=
    (Option.some_ne_none props).symm
  have hrec : withWill.Recoverable := ⟨rfl, by decide, fun props h => absurd h (hnone props)⟩
  exact (connect_round_trip_iff hc (by decide)).mpr hrec [0xc0, 0x00]

/-- A client without a will sends one byte that its packet is not read to. -/
theorem no_will_not_read_back :
    ¬ ∀ (c : Connect) (b : List UInt8), c.WellFormed → encode c = .ok b →
      ∀ rest, ∃ c' : Connect, decode (b ++ rest) = .ok (c', b.length) ∧ c'.normal = c.normal := by
  intro hall
  let c : Connect := { withWill with
    flags := ⟨0⟩
    payload := ⟨⟨"c"⟩, none, none, none, none, none⟩ }
  have hc : c.WellFormed := ⟨by decide, by decide, by decide, by decide, nofun⟩
  obtain ⟨c', hdec, -⟩ := hall c [0x10, 0x0f, 0x00, 0x04, 0x4d, 0x51, 0x54, 0x54, 0x05, 0x00, 0x00, 0x3c,
    0x00, 0x00, 0x01, 0x63, 0x00] hc (by decide) []
  have hshort : (decode ([0x10, 0x0f, 0x00, 0x04, 0x4d, 0x51, 0x54, 0x54, 0x05, 0x00, 0x00, 0x3c, 0x00,
      0x00, 0x01, 0x63, 0x00] ++ []) : Result (Connect × ℕ)) = .ok (c, 16) := by decide
  rw [hshort] at hdec
  have hend : (16 : ℕ) = 17 := congrArg Prod.snd (Outcome.ok.inj hdec)
  exact absurd hend (by decide)

end Connect
end Mqtr
