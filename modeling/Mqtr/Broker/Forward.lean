import Mqtr.Broker.Fanout
import Mqtr.Wire.MessageRoundTrip
import Mqtr.Wire.Totality

/-! What a subscriber reads of a PUBLISH that the broker forwards. Every forwarded packet gets a packet
identifier, whatever its QoS, and the identifier of the subscription is added to those it came with. The
decoder expects a packet identifier only above QoS 0, and one subscription identifier. At QoS 0 the
identifier is taken for the beginning of the properties, and few identifiers can be read as that. -/
namespace Mqtr
open Outcome Codec

namespace Publish

/-- The bytes are read as a packet with the same topic, QoS, retain flag and payload. -/
def ReadBack (p : Publish) (b : List UInt8) : Prop :=
  ∃ q : Publish, decode b = .ok (Packet.publish q, b.length) ∧ q.topicName = p.topicName ∧
    q.qos = p.qos ∧ q.retain = p.retain ∧ q.payload = p.payload

/-- What the packets that the broker forwards have in common. -/
structure Forwarded (p : Publish) : Prop where
  packetId : p.packetId.isSome
  duplicate : p.duplicate = false
  qos : p.qos ≠ .exactlyOnce
  text : p.validateText = .ok ()
  payload : p.payload ≠ some []
  topicAlias {props : PublishProperties} : p.properties = some props → props.topicAlias ≠ some 0
  userProperties {props : PublishProperties} : p.properties = some props →
    props.userProperties.length ≤ 1

theorem validate_eq {p : Publish} (hdup : p.duplicate = false)
    (hid : p.qos ≠ .atMostOnce → p.packetId.isSome) : p.validate = p.validateText := by
  have hpresent : ¬ (p.qos ≠ .atMostOnce ∧ p.packetId.isNone) := by
    rintro ⟨hqos, hnone⟩
    rw [Option.isNone_iff_eq_none.mp hnone] at hid
    cases hid hqos
  rw [validate, errIf, if_neg (by simp [hdup]), ok_bind, errIf, if_neg (by simpa using hpresent),
    ok_bind]

theorem validateText_eq_ok_iff (p : Publish) :
    p.validateText = .ok () ↔ ∀ payload, p.payload = some payload →
      (p.properties.getD {}).isPayloadUtf8 = true → isUtf8 payload = true := by
  unfold validateText
  rcases p.payload with _ | payload <;> rcases p.properties with _ | props
  · simp
  · simp
  · simp [PublishProperties.isPayloadUtf8, PayloadFormat.isUtf8]
  · cases htext : props.isPayloadUtf8 <;> cases isUtf8 payload <;> simp [htext, errIf, errCode]

/-- Given the header up to the properties, a packet is read back if its properties end at its
payload. -/
theorem readBack_iff_decProps {p : Publish} {packetId : Option UInt16} {b : List UInt8} {n e : ℕ}
    (hdec : (decode b : Result (Packet × ℕ)) = Packet.decodeType .publish b)
    (hheader : decHeader b = (do
      let (properties, n) ← decProps PublishProperties b n
      .ok ⟨{ p with packetId := packetId, properties := properties, payload := none }, n,
        b.length⟩))
    (hdup : p.duplicate = false) (hid : p.qos ≠ .atMostOnce → packetId.isSome)
    (hne : p.payload ≠ some []) (hat : At b e (p.payload.getD []))
    (hb : b.length = e + (p.payload.getD []).length) :
    p.ReadBack b ↔ ∃ properties, decProps PublishProperties b n = .ok (properties, e) ∧
      Publish.validateText { p with properties := properties } = .ok () := by
  have hcheck (properties : Option PublishProperties) :
      Publish.validate { p with packetId := packetId, properties := properties } =
        Publish.validateText { p with properties := properties } := validate_eq hdup hid
  constructor
  · rintro ⟨q, hq, -, -, -, hpayload⟩
    rw [hdec] at hq
    obtain ⟨_, hread, hwrap⟩ := Packet.decAs_eq_ok hq
    obtain rfl := Packet.publish.inj hwrap
    obtain ⟨hdr, payload, hfields, rfl, hvalid, -, hend, -⟩ := fields_of_decode hread
    obtain rfl : payload = p.payload := hpayload
    rw [hheader] at hfields
    obtain ⟨⟨properties, m⟩, hprops, hfields⟩ := bind_eq_ok.mp hfields
    obtain rfl := Outcome.ok.inj hfields
    obtain rfl : m = e := by
      dsimp only at hend
      omega
    exact ⟨properties, hprops, (hcheck properties).symm.trans hvalid⟩
  · rintro ⟨properties, hprops, htext⟩
    rw [hprops, ok_bind, hb] at hheader
    have hread := decode_of_fields hheader (by rwa [List.append_nil]) hne
      ((hcheck properties).trans htext)
    rw [ReadBack, hdec, hb]
    exact ⟨_, Packet.decAs_of_decode hread, rfl, rfl, rfl, rfl⟩

/-- Properties without repetitions are read, and the payload is still text if they say so. -/
theorem Forwarded.decProps_sent {p : Publish} (hp : p.Forwarded)
    (hone : p.subscriptionIds.length ≤ 1) {propBytes s rest : List UInt8} {n : ℕ}
    (hprop : encProps p.properties = .ok propBytes) (hat : At s n (propBytes ++ rest)) :
    ∃ properties, decProps PublishProperties s n = .ok (properties, n + propBytes.length) ∧
      Publish.validateText { p with properties := properties } = .ok () := by
  have htext := hp.text
  cases hprops : p.properties with
  | none =>
    rw [hprops] at hprop
    have hsurvives : Survives (none : Option PublishProperties) := by
      rintro _ ⟨⟩
    exact ⟨none, decProps_encProps hprop hsurvives hat, by simp [validateText]⟩
  | some props =>
    have hacc : PropertySet.Accepted props :=
      ⟨PublishProperties.accepts_written (hp.topicAlias hprops),
        (PublishProperties.sparse_written_iff props).mpr
          ⟨hp.userProperties hprops, by simpa [subscriptionIds, hprops] using hone⟩⟩
    rw [hprops, encProps, PropertySet.Encodes.encode_eq] at hprop
    refine ⟨_, decProps_encRecord hprop hacc hat, ?_⟩
    split_ifs
    · simp [validateText]
    · rw [← hprops]
      exact htext

theorem Forwarded.readBack_iff_of_atLeastOnce {p : Publish} (hp : p.Forwarded)
    (hqos : p.qos = .atLeastOnce) {b : List UInt8} (h : encode p = .ok b) :
    p.ReadBack b ↔ p.subscriptionIds.length ≤ 1 := by
  have hid : p.packetId.isSome ↔ p.qos ≠ .atMostOnce := by simp [hp.packetId, hqos]
  constructor
  · rintro ⟨q, hq, -⟩
    rw [← List.append_nil b] at hq
    have honce := noneRepeated_of_decode hid h hq
    cases hprops : p.properties with
    | none => simp [subscriptionIds, hprops]
    | some props => simpa [subscriptionIds, hprops] using (honce props hprops).2
  · intro hone
    obtain ⟨n, propBytes, hprop, hat, hb, hdec, hheader⟩ := decHeader_encode hid h []
    rw [List.append_nil] at hat hdec hheader
    rw [List.append_nil] at hat
    exact (readBack_iff_decProps hdec hheader hp.duplicate (fun _ => hp.packetId) hp.payload hat.next
      hb).mpr (hp.decProps_sent hone hprop hat)

/-- No identifier is expected at QoS 0, so that its bytes are where properties should be. -/
theorem Forwarded.readBack_iff_of_atMostOnce {p : Publish} (hp : p.Forwarded)
    (hqos : p.qos = .atMostOnce) {b propBytes : List UInt8} {packetId : UInt16} (h : encode p = .ok b)
    (hid : p.packetId = some packetId) (hprop : encProps p.properties = .ok propBytes) :
    p.ReadBack b ↔ ∃ properties,
      decProps PublishProperties (beBytes16 packetId ++ (propBytes ++ p.payload.getD [])) 0 =
        .ok (properties, 2 + propBytes.length) ∧
      Publish.validateText { p with properties := properties } = .ok () := by
  obtain ⟨n, idBytes, propBytes', hidBytes, hprop', hat, hb, hdec, hheader⟩ := decHeader_topic h []
  obtain rfl := Outcome.ok.inj (hprop.symm.trans hprop')
  rw [hid] at hidBytes
  obtain rfl := Outcome.ok.inj hidBytes
  rw [List.append_nil] at hat hdec hheader
  rw [List.append_nil] at hat
  have hheader' : decHeader b = (do
      let (properties, n) ← decProps PublishProperties b n
      .ok ⟨{ p with packetId := none, properties := properties, payload := none }, n,
        b.length⟩) := by
    rw [hheader, decFieldIf, if_neg (by simp [hqos]), ok_bind]
  rw [readBack_iff_decProps hdec hheader' hp.duplicate (fun hne => absurd hqos hne) hp.payload
    hat.next.next hb, decProps_at hat]
  have hlen : (beBytes16 packetId).length = 2 := rfl
  constructor
  · rintro ⟨properties, hread, htext⟩
    obtain ⟨⟨properties', m⟩, hpast, hread⟩ := bind_eq_ok.mp hread
    obtain ⟨rfl, hend⟩ := Prod.mk.inj (Outcome.ok.inj hread)
    obtain rfl : m = 2 + propBytes.length := by
      dsimp only at hend
      omega
    exact ⟨properties', hpast, htext⟩
  · rintro ⟨properties, hpast, htext⟩
    refine ⟨properties, ?_, htext⟩
    rw [hpast, ok_bind, hlen, Nat.add_assoc]

theorem beBytes16_inj {v w : UInt16} : beBytes16 v = beBytes16 w ↔ v = w := by
  constructor
  · intro h
    have hv := u16_decode_beBytes16 v []
    rw [h, u16_decode_beBytes16] at hv
    exact (Prod.mk.inj (Outcome.ok.inj hv)).1.symm
  · rintro rfl
    rfl

/-- The only properties of two bytes with a zero at the end. -/
theorem property_with_zero {lo : UInt8} {q : Property} (h : decode [lo, 0] = .ok (q, 2))
    (hq : PublishProperties.Allowed q) : lo = 1 ∨ lo = 0x0b := by
  have hall : ∀ lo : UInt8, ((decode [lo, 0] : Result (Property × ℕ)).toOption.any fun r =>
      decide (r.1.toPropertyType ∈ PublishProperties.layout.order)) = true → lo = 1 ∨ lo = 0x0b :=
    Varint.forall_byte (by decide +kernel)
  apply hall
  rw [h]
  exact decide_eq_true hq.1

/-- A block of at most two bytes holds no more than one property. -/
theorem segment_of_short {segs : List (List UInt8 × Property)} (hsegs : Segments segs)
    (hpos : 0 < (segs.flatMap Prod.fst).length) (hle : (segs.flatMap Prod.fst).length ≤ 2) :
    ∃ q, segs = [(segs.flatMap Prod.fst, q)] ∧
      decode (segs.flatMap Prod.fst) = .ok (q, 2) ∧ (segs.flatMap Prod.fst).length = 2 := by
  have hlong (seg) (hseg : seg ∈ segs) : 2 ≤ seg.1.length :=
    ((Property.decode_bounds seg.1).of_ok (hsegs seg hseg)).1
  rcases segs with _ | ⟨seg, _ | ⟨seg', segs⟩⟩
  · simp at hpos
  · have hseg := hsegs seg (by simp)
    have hlen := hlong seg (by simp)
    simp only [List.flatMap_cons, List.flatMap_nil, List.append_nil] at hle ⊢
    have htwo : seg.1.length = 2 := by omega
    exact ⟨seg.2, rfl, htwo ▸ hseg, htwo⟩
  · have hlen := hlong seg (by simp)
    have hlen' := hlong seg' (by simp)
    simp only [List.flatMap_cons, List.length_append] at hle
    omega

/-- The identifiers that can be read, with the empty list after them, as properties: a payload format of
zero, a subscription identifier of zero, and a zero written in three bytes. -/
theorem decProps_past_id {hi lo : UInt8} {payload : List UInt8}
    {properties : Option PublishProperties}
    (h : decProps PublishProperties (hi :: lo :: 0 :: payload) 0 = .ok (properties, 3)) :
    [hi, lo] = [0x02, 0x01] ∨ [hi, lo] = [0x02, 0x0b] ∨ [hi, lo] = [0x80, 0x80] := by
  have hsize : 3 = 0 + Field.properties.size (hi :: lo :: 0 :: payload) := decProps_size h
  obtain ⟨k, segs, rest, hk, hlen, hdrop, hsegs, hallowed, -⟩ :=
    (exists_props_iff PublishProperties.readsExactly (Nat.zero_le _)).mp ⟨_, h⟩
  rw [List.drop_zero] at hk hlen hdrop
  simp only [Field.size, hk, Nat.zero_add] at hsize
  have hbytes : segs.flatMap Prod.fst =
      ((hi :: lo :: 0 :: payload).drop k).take (segs.flatMap Prod.fst).length := by
    rw [hdrop, List.take_left]
  by_cases hone : hi < 0x80
  · -- the first byte is the length
    obtain rfl : 1 = k := by simpa [Varint.width, hone] using hk
    have htwo : (segs.flatMap Prod.fst).length = 2 := by omega
    obtain ⟨q, hq, hread, -⟩ := segment_of_short hsegs (by omega) htwo.le
    rw [htwo] at hbytes
    rw [hbytes] at hread
    have hvalue : Varint.value [hi] = 2 := hlen.symm.trans htwo
    rw [Varint.value_singleton hone] at hvalue
    obtain rfl : hi = 2 := UInt8.toNat_inj.mp hvalue
    have hallow := hallowed q (by rw [hq]; simp)
    rcases property_with_zero hread hallow with rfl | rfl
    · exact .inl rfl
    · exact .inr (.inl rfl)
  by_cases htwo : lo < 0x80
  · -- the length is one, and the property of one byte is missing
    obtain rfl : 2 = k := by simpa [Varint.width, hone, htwo] using hk
    obtain ⟨_, -, -, hcount⟩ := segment_of_short hsegs (by omega) (by omega)
    omega
  · -- the length is zero, in three bytes
    obtain rfl : 3 = k := by simpa [Varint.width, hone, htwo] using hk
    have hzero : Varint.value [hi, lo, 0] = 0 := (Nat.add_left_cancel hsize).symm
    obtain ⟨rfl, htail⟩ := Varint.head_of_value_zero hone hzero
    obtain ⟨rfl, -⟩ := Varint.head_of_value_zero htwo htail
    exact .inr (.inr rfl)

/-- A packet without properties is read back at QoS 0 for three identifiers only. -/
theorem Forwarded.readBack_iff_of_bare {p : Publish} (hp : p.Forwarded) (hqos : p.qos = .atMostOnce)
    {b : List UInt8} {packetId : UInt16} (h : encode p = .ok b) (hid : p.packetId = some packetId)
    (hnone : p.properties = none) :
    p.ReadBack b ↔ packetId ∈ [0x0201, 0x020b, 0x8080] := by
  have hprop : encProps p.properties = .ok [0] := by
    rw [hnone]
    rfl
  rw [hp.readBack_iff_of_atMostOnce hqos h hid hprop]
  simp only [List.mem_cons, List.not_mem_nil, or_false, ← @beBytes16_inj packetId]
  constructor
  · rintro ⟨properties, hread, -⟩
    exact decProps_past_id hread
  · have htext {properties : Option PublishProperties}
        (hbinary : (properties.getD {}).isPayloadUtf8 = false) :
        Publish.validateText { p with properties := properties } = .ok () := by
      rw [validateText_eq_ok_iff]
      intro payload _ hutf8
      exact absurd hutf8 (by simp [hbinary])
    rintro (hbytes | hbytes | hbytes) <;> rw [hbytes]
    · exact ⟨some {}, rfl, htext rfl⟩
    · exact ⟨some { subscribtionIdentifier := [⟨0⟩] }, rfl, htext rfl⟩
    · exact ⟨none, rfl, htext rfl⟩

/-- The first byte of the identifier is read as the length of what follows it. -/
theorem Forwarded.length_of_readBack {p : Publish} (hp : p.Forwarded) (hqos : p.qos = .atMostOnce)
    {b propBytes : List UInt8} {packetId : UInt16} (h : encode p = .ok b)
    (hid : p.packetId = some packetId) (hprop : encProps p.properties = .ok propBytes)
    (hread : p.ReadBack b) (hlt : packetId < 0x8000) :
    packetId.toNat / 2 ^ 8 = 1 + propBytes.length := by
  obtain ⟨properties, hprops, -⟩ := (hp.readBack_iff_of_atMostOnce hqos h hid hprop).mp hread
  have hnat : packetId.toNat < 0x8000 := UInt16.lt_iff_toNat_lt.mp hlt
  have hhi : (packetId >>> 8).toUInt8.toNat = packetId.toNat / 2 ^ 8 := by
    rw [UInt16.toNat_toUInt8, UInt16.toNat_shiftRight]
    change (packetId.toNat >>> 8) % 2 ^ 8 = _
    rw [Nat.shiftRight_eq_div_pow]
    omega
  have hbyte : (packetId >>> 8).toUInt8 < 0x80 := by
    apply UInt8.lt_iff_toNat_lt.mpr
    rw [hhi]
    change packetId.toNat / 2 ^ 8 < 128
    omega
  have hwidth : Varint.width ((beBytes16 packetId ++ (propBytes ++ p.payload.getD [])).take 4) =
      some 1 := if_pos hbyte
  have hsize := decProps_size hprops
  rw [List.drop_zero] at hsize
  simp only [Field.size, hwidth] at hsize
  change 2 + propBytes.length = 0 + (1 + Varint.value [(packetId >>> 8).toUInt8]) at hsize
  rw [Varint.value_singleton hbyte, hhi] at hsize
  omega

/-- What the decoder accepts has no zero alias, no empty payload, and says that it is text only if it
is. -/
theorem of_decode {s : List UInt8} {q : Publish} {n : ℕ} (h : decode s = .ok (q, n)) :
    q.validateText = .ok () ∧ q.payload ≠ some [] ∧ ∀ props, q.properties = some props →
      props.topicAlias ≠ some 0 ∧ props.userProperties.length ≤ 1 := by
  obtain ⟨hdr, payload, hheader, rfl, hvalid, -, -, hne⟩ := fields_of_decode h
  obtain ⟨_, -, hvalid⟩ := bind_eq_ok.mp hvalid
  obtain ⟨_, -, htext⟩ := bind_eq_ok.mp hvalid
  obtain ⟨_, -, hheader⟩ := bind_eq_ok.mp hheader
  obtain ⟨_, -, hheader⟩ := bind_eq_ok.mp hheader
  obtain ⟨_, -, hheader⟩ := bind_eq_ok.mp hheader
  obtain ⟨_, -, hheader⟩ := bind_eq_ok.mp hheader
  obtain ⟨⟨properties, m⟩, hprops, hheader⟩ := bind_eq_ok.mp hheader
  obtain rfl := Outcome.ok.inj hheader
  refine ⟨htext, hne, fun props hsome => ?_⟩
  obtain rfl : properties = some props := hsome
  obtain ⟨halias, husers, -⟩ := PublishProperties.of_decProps hprops
  exact ⟨halias, husers⟩

/-- A subscription identifier is added to the properties, of which there may be none yet. -/
theorem Forwarded.addSubscriptionId {p : Publish} (hp : p.Forwarded) (id : Option UInt32) :
    (p.addSubscriptionId id).Forwarded := by
  have htext := (validateText_eq_ok_iff p).mp hp.text
  cases id with
  | none => exact hp
  | some id =>
    cases hprops : p.properties with
    | none =>
      simp only [Publish.addSubscriptionId, hprops]
      refine ⟨hp.packetId, hp.duplicate, hp.qos, ?_, hp.payload, ?_, ?_⟩
      · simp [validateText_eq_ok_iff, PublishProperties.isPayloadUtf8, PayloadFormat.isUtf8]
      · rintro _ ⟨⟩
        simp
      · rintro _ ⟨⟩
        simp
    | some props =>
      have halias := hp.topicAlias hprops
      have husers := hp.userProperties hprops
      rw [hprops] at htext
      simp only [Publish.addSubscriptionId, hprops]
      refine ⟨hp.packetId, hp.duplicate, hp.qos, (validateText_eq_ok_iff _).mpr htext, hp.payload,
        ?_, ?_⟩
      · rintro _ ⟨⟩
        exact halias
      · rintro _ ⟨⟩
        exact husers

theorem forwarded_of_decode {s : List UInt8} {publish : Publish} {n : ℕ}
    (h : decode s = .ok (publish, n)) (retain : Bool) {qos : QoS} (hqos : qos ≠ .exactlyOnce)
    (packetId : UInt16) (id : Option UInt32) :
    (((publish.setFixedHeader retain qos false).setPacketId packetId).addSubscriptionId
      id).Forwarded := by
  obtain ⟨htext, hne, hprops⟩ := of_decode h
  apply Forwarded.addSubscriptionId
  exact ⟨rfl, rfl, hqos, htext, hne, fun hsome => (hprops _ hsome).1, fun hsome => (hprops _ hsome).2⟩

theorem properties_addSubscriptionId (p q : Publish) (h : p.properties = q.properties)
    (id : Option UInt32) : (p.addSubscriptionId id).properties = (q.addSubscriptionId id).properties := by
  unfold Publish.addSubscriptionId
  rw [h]
  cases id with
  | none => exact h
  | some id =>
    cases q.properties with
    | none => rfl
    | some props => rfl

/-- How a packet fares that is made of an accepted one: by its QoS, its identifiers and its properties. -/
theorem readBack_of_decode {frame b : List UInt8} {publish p : Publish} {n : ℕ} {retain : Bool}
    {qos : QoS} {packetId : UInt16} {id : Option UInt32} (haccepted : decode frame = .ok (publish, n))
    (hqos : qos ≠ .exactlyOnce)
    (hp : p = ((publish.setFixedHeader retain qos false).setPacketId packetId).addSubscriptionId id)
    (hb : encode p = .ok b) :
    (qos = .atLeastOnce →
      (p.ReadBack b ↔ publish.subscriptionIds.length + id.toList.length ≤ 1)) ∧
    (qos = .atMostOnce → publish.properties = none → id = none →
      (p.ReadBack b ↔ packetId ∈ [0x0201, 0x020b, 0x8080])) ∧
    (qos = .atMostOnce → p.ReadBack b → packetId < 0x8000 →
      ∀ propBytes, encProps (publish.addSubscriptionId id).properties = .ok propBytes →
      packetId.toNat / 2 ^ 8 = 1 + propBytes.length) := by
  have hfwd : p.Forwarded := hp ▸ forwarded_of_decode haccepted retain hqos packetId id
  obtain ⟨hids, -, hnone, heq⟩ := addSubscriptionId_spec
    ((publish.setFixedHeader retain qos false).setPacketId packetId) id
  rw [← hp] at hids hnone heq
  have hlevel : p.qos = qos := by rw [heq]; rfl
  have hid : p.packetId = some packetId := by rw [heq]; rfl
  have hprops : p.properties = (publish.addSubscriptionId id).properties := by
    rw [hp]
    exact properties_addSubscriptionId
      ((publish.setFixedHeader retain qos false).setPacketId packetId) publish rfl id
  refine ⟨?_, ?_, ?_⟩
  · intro hone
    have hcount : p.subscriptionIds.length = publish.subscriptionIds.length + id.toList.length := by
      rw [hids, List.length_append]
      cases id <;> rfl
    rw [hfwd.readBack_iff_of_atLeastOnce (hlevel.trans hone) hb, hcount]
  · intro hzero hbare hsub
    exact hfwd.readBack_iff_of_bare (hlevel.trans hzero) hb hid (hnone.mpr ⟨hbare, hsub⟩)
  · intro hzero hread hlt propBytes hprop
    exact hfwd.length_of_readBack (hlevel.trans hzero) hb hid (hprops ▸ hprop) hread hlt

end Publish

theorem QoS.min_ne_exactlyOnce (a : QoS) {b : QoS} (hb : b ≠ .exactlyOnce) :
    a.min b ≠ .exactlyOnce := by
  cases a <;> cases b <;> first | decide | exact absurd rfl hb

namespace Session
variable {s s' : Session} {clientId : ClientID} {shardId : UInt32} {seqno : UInt64}
  {packetId : UInt16} {subscriptions : List Subscription} {publish : Publish} {msgs : List Message}

/-- At QoS 1 a forwarded packet is read back if there is at most one subscription identifier in all, of
the publisher and of the subscription. At QoS 0 it depends on the packet identifier, which is `i` places
ahead for the `i`th subscription: three are read back without properties, and in general an identifier
below `0x8000` only if its first byte happens to be the length of what comes after it. -/
theorem coutPublish_readBack_iff {frame b : List UInt8} {n i : ℕ} {serverQos : QoS}
    {subscr : Subscription} {c : ClientID} {sh : UInt32} {sn : UInt64} {id : UInt16}
    {subscrs : List Subscription} {p : Publish}
    (haccepted : decode frame = .ok (publish, n)) (hqos : publish.qos ≠ .exactlyOnce)
    (hserver : s.config.serverQos = .ok serverQos)
    (h : s.coutPublish
      (.packet clientId shardId seqno packetId subscriptions (.publish publish)) = .ok (msgs, s'))
    (hsubscr : subscriptions[i]? = some subscr)
    (hp : msgs[i]? = some (.packet c sh sn id subscrs (.publish p))) (hb : encode p = .ok b) :
    ((serverQos.min subscr.qos).min publish.qos = .atLeastOnce →
      (p.ReadBack b ↔ publish.subscriptionIds.length + subscr.subscriptionId.toList.length ≤ 1)) ∧
    ((serverQos.min subscr.qos).min publish.qos = .atMostOnce →
      publish.properties = none → subscr.subscriptionId = none →
      (p.ReadBack b ↔ (s.afterMessages i).cout.nextPacketId ∈ [0x0201, 0x020b, 0x8080])) ∧
    ((serverQos.min subscr.qos).min publish.qos = .atMostOnce → p.ReadBack b →
      (s.afterMessages i).cout.nextPacketId < 0x8000 → ∀ propBytes,
      encProps (publish.addSubscriptionId subscr.subscriptionId).properties = .ok propBytes →
      (s.afterMessages i).cout.nextPacketId.toNat / 2 ^ 8 = 1 + propBytes.length) := by
  rw [coutPublish_eq, hserver, ok_bind] at h
  obtain ⟨rfl, -⟩ := Prod.mk.inj (Outcome.ok.inj h)
  rw [List.getElem?_mapIdx, hsubscr] at hp
  obtain rfl := Packet.publish.inj (Message.packet.inj (Option.some.inj hp)).2.2.2.2.2
  exact Publish.readBack_of_decode haccepted (QoS.min_ne_exactlyOnce (serverQos.min subscr.qos) hqos)
    rfl hb

/-- A message as it comes from a client. -/
def incoming (qos : QoS) : Publish where
  retain := false
  qos := qos
  duplicate := false
  topicName := ⟨"a"⟩
  packetId := if qos = .atMostOnce then none else some 7
  properties := none
  payload := some [0x68]

/-- The message routed to another client, who has one subscription. -/
def routed (qos : QoS) (subscriptionId : Option UInt32) : Message :=
  .packet ⟨"bob"⟩ 0 1 0 [⟨⟨"a"⟩, ⟨"alice"⟩, 0, subscriptionId, .atLeastOnce, false, false,
    .onEverySubscribe⟩] (.publish (incoming qos))

/-- A session that has used the first 512 identifiers. -/
def farther : Session :=
  { started 1 with cout := { (started 1).cout with nextPacketId := 0x0201 } }

/-- One subscription identifier at QoS 1; at QoS 0 the identifier 0x0201, which with the empty list after
it is one property; and at QoS 0 the identifier 1, which cannot be read. -/
theorem coutPublish_readBack_iff_single_id :
    Publish.ReadBack { incoming .atLeastOnce with
        packetId := some 1, properties := some { subscribtionIdentifier := [⟨5⟩] } }
      [0x32, 0x09, 0x00, 0x01, 0x61, 0x00, 0x01, 0x02, 0x0b, 0x05, 0x68] ∧
    Publish.ReadBack { incoming .atMostOnce with packetId := some 0x0201 }
      [0x30, 0x07, 0x00, 0x01, 0x61, 0x02, 0x01, 0x00, 0x68] ∧
    ¬ Publish.ReadBack { incoming .atMostOnce with packetId := some 1 }
      [0x30, 0x07, 0x00, 0x01, 0x61, 0x00, 0x01, 0x00, 0x68] := by
  have hfirst : decode [0x32, 0x07, 0x00, 0x01, 0x61, 0x00, 0x07, 0x00, 0x68] =
      .ok (incoming .atLeastOnce, 9) := by decide
  have hzero : decode [0x30, 0x05, 0x00, 0x01, 0x61, 0x00, 0x68] = .ok (incoming .atMostOnce, 7) := by
    decide
  have hserver : (started 1).config.serverQos = .ok .atLeastOnce := rfl
  have hone : (started 1).coutPublish (routed .atLeastOnce (some 5)) = .ok (_, _) := rfl
  have hbare : (started 1).coutPublish (routed .atMostOnce none) = .ok (_, _) := rfl
  have hlater : farther.coutPublish (routed .atMostOnce none) = .ok (_, _) := rfl
  refine ⟨?_, ?_, ?_⟩
  · exact ((coutPublish_readBack_iff hfirst (by decide) hserver hone (i := 0) rfl rfl
      (by decide)).1 rfl).mpr (by decide)
  · exact ((coutPublish_readBack_iff hzero (by decide) (s := farther) rfl hlater (i := 0) rfl rfl
      (by decide)).2.1 rfl rfl rfl).mpr (by decide)
  · intro hread
    have hsize := (coutPublish_readBack_iff hzero (by decide) hserver hbare (i := 0) rfl rfl
      (by decide)).2.2 rfl hread (by decide) [0] rfl
    exact absurd hsize (by decide)

/-- The subscriber of a QoS 0 message takes the second byte of the packet identifier, and the length of
the properties, for the beginning of the payload. -/
theorem forwarded_id_read_as_payload :
    ¬ ∀ (s s' : Session) (frame : List UInt8) (n : ℕ) (clientId : ClientID) (shardId : UInt32)
      (seqno : UInt64) (packetId : UInt16) (subscriptions : List Subscription) (publish : Publish)
      (msgs : List Message) (c : ClientID) (sh : UInt32) (sn : UInt64) (id : UInt16)
      (subscrs : List Subscription) (p : Publish) (b : List UInt8),
      decode frame = .ok (publish, n) → publish.qos ≠ .exactlyOnce →
      s.coutPublish (.packet clientId shardId seqno packetId subscriptions (.publish publish)) =
        .ok (msgs, s') →
      Message.packet c sh sn id subscrs (.publish p) ∈ msgs → encode p = .ok b → p.ReadBack b := by
  intro hall
  have haccepted : decode [0x30, 0x05, 0x00, 0x01, 0x61, 0x00, 0x68] =
      .ok (incoming .atMostOnce, 7) := by decide
  have hout : (started 1).coutPublish (routed .atMostOnce none) = .ok (_, _) := rfl
  obtain ⟨q, hq, -, -, -, hpayload⟩ := hall _ _ _ _ _ _ _ _ _ _ _ _ _ _ _ _ _
    [0x30, 0x07, 0x00, 0x01, 0x61, 0x00, 0x01, 0x00, 0x68] haccepted (by decide) hout
    (List.mem_singleton_self _) (by decide)
  have hread : decode [0x30, 0x07, 0x00, 0x01, 0x61, 0x00, 0x01, 0x00, 0x68] =
      .ok (Packet.publish { incoming .atMostOnce with payload := some [0x01, 0x00, 0x68] }, 9) := by
    decide
  obtain rfl := Packet.publish.inj (Prod.mk.inj (Outcome.ok.inj (hq.symm.trans hread))).1
  exact absurd hpayload (by decide)

end Session
end Mqtr
