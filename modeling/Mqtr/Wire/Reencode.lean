import Mqtr.Wire.RoundTrip

/-! What the decoder accepts can be sent again: the packet it returns is in the domain of the encoder,
fits behind a header, and is read back as itself, although short forms, properties in any order and
over-long lengths are accepted and not written. -/
namespace Mqtr
open Outcome Codec

/-- The bytes are those that the fixed header announces, and no more. -/
def OneFrame (data : List UInt8) : Prop :=
  ∃ (fh : FixedHeader) (k : ℕ), decode data = .ok (fh, k) ∧
    data.length = k + fh.remainingLen.val.toNat

theorem FixedHeader.remainingLen_le {s : List UInt8} {fh : FixedHeader} {k : ℕ}
    (h : decode s = .ok (fh, k)) : fh.remainingLen.val.toNat ≤ 268435455 := by
  obtain ⟨⟨byte1, m⟩, -, h⟩ := bind_eq_ok.mp h
  obtain ⟨⟨len, n⟩, hlen, h⟩ := bind_eq_ok.mp h
  obtain ⟨_, -, h⟩ := bind_eq_ok.mp h
  obtain ⟨rfl, rfl⟩ := Prod.mk.inj (Outcome.ok.inj h)
  obtain ⟨-, j, hvar, -⟩ := decField_eq_ok.mp hlen
  obtain ⟨-, hj, hlt⟩ := VarU32.decode_lt hvar
  have hpow : 128 ^ j ≤ 128 ^ 4 := Nat.pow_le_pow_right (by decide) hj
  dsimp only
  omega

theorem decField_lt {α : Type} [Packetize α] [Packetize.Bounded α] {s : List UInt8} {n m : ℕ} {v : α}
    (h : decField α s n = .ok (v, m)) : n < m :=
  ((decField_sat α s n).of_ok h).1

/-- Absent properties are written in one byte, and survive. -/
theorem encProps_none {σ : Type} [Packetize σ] [Packetize.Encode σ] [PropertySet σ] :
    encProps (none : Option σ) = .ok [0] ∧ Survives (none : Option σ) :=
  ⟨rfl, nofun⟩

section Short
variable {s props : List UInt8} {k n : ℕ} {fh : FixedHeader}

theorem ConnackFlags.bits_of_decField {flags : ConnackFlags}
    (h : decField ConnackFlags s n = .ok (flags, k)) : flags.val &&& 0b11111110 = 0 := by
  obtain ⟨-, j, hflags, -⟩ := decField_eq_ok.mp h
  exact flags.unwrap_ok_iff.mp (decode_eq_ok.mp hflags).2.1

/-- Properties that were read can be written in no more bytes, and survive. -/
theorem CodeThenProps.writes {α : Type} [Packetize α] [Packetize.Bounded α] [Packetize.Encode α]
    [PropertySet α] [PropertySet.Encodes α] [PropertySet.Canonical α] {properties : Option α}
    (h : CodeThenProps α s k n properties) :
    ∃ props, encProps properties = .ok props ∧ Survives properties ∧ k + 1 + props.length ≤ n := by
  obtain ⟨val, m, hval, hprops⟩ := h
  obtain ⟨props, hprop, hle, hsurvives⟩ := encProps_of_decProps hprops
  have hm := decField_lt hval
  exact ⟨props, hprop, hsurvives, by omega⟩

theorem ConnAck.reencode {pkt : ConnAck} (hfh : decFixedHeader s = .ok (fh, k))
    (hn : n ≤ k + 268435455) (h : decode s = .ok (pkt, n)) :
    ∃ b, encode pkt = .ok b ∧ decode (b ++ []) = .ok (Packet.connAck pkt, b.length) := by
  obtain ⟨m, hflags, hcode⟩ := decode_eq_ok hfh h
  obtain ⟨props, hprop, hsurvives, hle⟩ := hcode.writes
  have hm := decField_lt hflags
  obtain ⟨b, hb⟩ : ∃ b, frame (FixedHeader.new .connAck)
      ([pkt.flags.val] ++ ([pkt.code.toU8] ++ props)) = .ok b := by
    refine exists_frame_new rfl ?_
    simp only [List.length_append, List.length_singleton]
    omega
  have henc : encode pkt = .ok b :=
    bind_eq_ok.mpr ⟨_, concat_three_eq_ok.mpr ⟨_, _, props, rfl, rfl, hprop, rfl⟩, hb⟩
  exact ⟨b, henc, ConnAck.decode_encode (ConnackFlags.bits_of_decField hflags) hsurvives henc []⟩

theorem Disconnect.resend {pkt : Disconnect} (hprop : encProps pkt.properties = .ok props)
    (hsurvives : Survives pkt.properties) (hlen : props.length < 268435455) :
    ∃ b, encode pkt = .ok b ∧ decode (b ++ []) = .ok (Packet.disconnect pkt, b.length) := by
  obtain ⟨b, hb⟩ : ∃ b, frame (FixedHeader.new .disconnect) ([pkt.code.toU8] ++ props) = .ok b :=
    exists_frame_new rfl (by simp only [List.length_append, List.length_singleton]; omega)
  have henc : encode pkt = .ok b :=
    bind_eq_ok.mpr ⟨_, concat_two_eq_ok.mpr ⟨_, props, rfl, hprop, rfl⟩, hb⟩
  exact ⟨b, henc, Disconnect.decode_encode hsurvives henc []⟩

theorem Disconnect.reencode {pkt : Disconnect} (hfh : decFixedHeader s = .ok (fh, k))
    (hn : n ≤ k + 268435455) (h : decode s = .ok (pkt, n)) :
    ∃ b, encode pkt = .ok b ∧ decode (b ++ []) = .ok (Packet.disconnect pkt, b.length) := by
  rcases decode_eq_ok hfh h with ⟨-, hnone, -⟩ | ⟨-, -, hnone, -⟩ | ⟨-, -, hcode⟩
  · exact resend (hnone ▸ encProps_none.1) (hnone ▸ encProps_none.2) (by decide)
  · exact resend (hnone ▸ encProps_none.1) (hnone ▸ encProps_none.2) (by decide)
  · obtain ⟨props, hprop, hsurvives, hle⟩ := hcode.writes
    exact resend hprop hsurvives (by omega)

theorem Auth.resend {pkt : Auth} (hprop : encProps pkt.properties = .ok props)
    (hsurvives : Survives pkt.properties) (hlen : props.length < 268435455) :
    ∃ b, encode pkt = .ok b ∧ decode (b ++ []) = .ok (Packet.auth pkt, b.length) := by
  obtain ⟨b, hb⟩ : ∃ b, frame (FixedHeader.new .auth) ([pkt.code.toU8] ++ props) = .ok b :=
    exists_frame_new rfl (by simp only [List.length_append, List.length_singleton]; omega)
  have henc : encode pkt = .ok b :=
    bind_eq_ok.mpr ⟨_, concat_two_eq_ok.mpr ⟨_, props, rfl, hprop, rfl⟩, hb⟩
  exact ⟨b, henc, Auth.decode_encode hsurvives henc []⟩

theorem Auth.reencode {pkt : Auth} (hfh : decFixedHeader s = .ok (fh, k))
    (hn : n ≤ k + 268435455) (h : decode s = .ok (pkt, n)) :
    ∃ b, encode pkt = .ok b ∧ decode (b ++ []) = .ok (Packet.auth pkt, b.length) := by
  rcases decode_eq_ok hfh h with ⟨-, hnone, -⟩ | ⟨-, hcode⟩
  · exact resend (hnone ▸ encProps_none.1) (hnone ▸ encProps_none.2) (by decide)
  · obtain ⟨props, hprop, hsurvives, hle⟩ := hcode.writes
    exact resend hprop hsurvives (by omega)

/-- A packet that passes validation is one of the four acknowledgements. -/
theorem Pub.isPub_of_validate {pkt : Pub} (h : pkt.validate = .ok ()) : IsPub pkt.packetType := by
  unfold validate at h
  cases ht : pkt.packetType with
  | pubAck | pubRec | pubRel | pubComp => simp [IsPub]
  | _ =>
    rw [ht] at h
    cases h

theorem Pub.resend {pkt : Pub} (hvalid : pkt.validate = .ok ())
    (hprop : encProps pkt.properties = .ok props) (hsurvives : Survives pkt.properties)
    (hlen : props.length < 268435453) :
    ∃ b, encode pkt = .ok b ∧ decode (b ++ []) = .ok (pkt, b.length) ∧
      (decode (b ++ []) : Result (Packet × ℕ)) = Packet.decodeType pkt.packetType (b ++ []) := by
  have ht := isPub_of_validate hvalid
  obtain ⟨b, hb⟩ : ∃ b, frame (newHeader pkt.packetType)
      (beBytes16 pkt.packetId ++ ([pkt.code.toU8] ++ props)) = .ok b := by
    have hfits : (beBytes16 pkt.packetId ++ ([pkt.code.toU8] ++ props)).length ≤ 268435455 := by
      simp only [beBytes16, List.length_append, List.length_cons, List.length_nil]
      omega
    rcases ht with ht | ht | ht | ht <;> rw [ht]
    · exact exists_frame_new rfl hfits
    · exact exists_frame_new rfl hfits
    · exact exists_frame rfl hfits
    · exact exists_frame_new rfl hfits
  have henc : encode pkt = .ok b :=
    bind_eq_ok.mpr ⟨_, concat_three_eq_ok.mpr ⟨_, _, props, rfl, rfl, hprop, rfl⟩, hb⟩
  exact ⟨b, henc, Pub.decode_encode ht hvalid hsurvives henc []⟩

/-- The packet id takes two bytes. -/
theorem packetId_end {id : UInt16} (h : decField UInt16 s k = .ok (id, n)) : k + 2 ≤ n := by
  obtain ⟨b, hb, hle⟩ := encode_decField h
  obtain rfl := Outcome.ok.inj hb
  exact hle

theorem Pub.reencode {pkt : Pub} {t : PacketType} {flags : Bool × QoS × Bool}
    (hfh : decFixedHeader s = .ok (fh, k)) (hu : fh.unwrap = .ok (t, flags))
    (hn : n ≤ k + 268435455) (h : decode s = .ok (pkt, n)) :
    pkt.packetType = t ∧ ∃ b, encode pkt = .ok b ∧ decode (b ++ []) = .ok (pkt, b.length) ∧
      (decode (b ++ []) : Result (Packet × ℕ)) = Packet.decodeType pkt.packetType (b ++ []) := by
  obtain ⟨hvalid, t', _, id, m, hu', hid, hfields⟩ := Pub.decode_eq_ok hfh h
  obtain ⟨rfl, -⟩ := Prod.mk.inj (Outcome.ok.inj (hu.symm.trans hu'))
  have hm := packetId_end hid
  obtain ⟨htype, hforms⟩ := decFields_eq_ok hfields
  refine ⟨htype, ?_⟩
  rcases hforms with ⟨-, hnone, -⟩ | ⟨-, -, hnone, -⟩ | ⟨-, -, hcode⟩
  · exact resend hvalid (hnone ▸ encProps_none.1) (hnone ▸ encProps_none.2) (by decide)
  · exact resend hvalid (hnone ▸ encProps_none.1) (hnone ▸ encProps_none.2) (by decide)
  · obtain ⟨props, hprop, hsurvives, hle⟩ := hcode.writes
    exact resend hvalid hprop hsurvives (by omega)

end Short

section Lists
variable {s : List UInt8} {k n : ℕ} {fh : FixedHeader}

/-- A payload that was cut out lies between the fields and the end of the packet. -/
theorem cutPayload_eq_ok {m : ℕ} {empty short : Result (List UInt8 × ℕ)} {payload : List UInt8}
    {f : ℕ} (hempty : empty ≠ .ok (payload, m)) (hshort : short ≠ .ok (payload, m))
    (h : cutPayload s f n empty id short = .ok (payload, m)) :
    m = n ∧ f + payload.length = n ∧ payload ≠ [] := by
  rcases cutPayload_cases h with ⟨-, h⟩ | ⟨payload', hne, hend, h⟩ | h
  · exact absurd h hempty
  · obtain ⟨rfl, rfl⟩ := Prod.mk.inj h
    exact ⟨rfl, hend, hne⟩
  · exact absurd h hshort

/-- The identifier, the properties and the payload of a packet that was read fit behind a header. -/
theorem idHeader_fits {α : Type} [Packetize α] [Packetize.Bounded α] [Packetize.Encode α]
    [PropertySet α] [PropertySet.Encodes α] [PropertySet.Canonical α]
    {hdr : VarHeader (UInt16 × Option α)} {empty short : Result (List UInt8 × ℕ)} {payload : List UInt8}
    (hfh : decFixedHeader s = .ok (fh, k)) (hheader : decIdHeader α s = .ok hdr)
    (hempty : empty ≠ .ok (payload, n)) (hshort : short ≠ .ok (payload, n))
    (hcut : cutPayload s hdr.fieldsEnd hdr.packetEnd empty id short = .ok (payload, n))
    (hn : n ≤ k + 268435455) :
    payload ≠ [] ∧ ∃ props, encProps hdr.fields.2 = .ok props ∧ Survives hdr.fields.2 ∧
      ∀ data : List UInt8, data.length ≤ payload.length →
        (beBytes16 hdr.fields.1 ++ (props ++ data)).length ≤ 268435455 := by
  obtain ⟨rfl, hend, hne⟩ := cutPayload_eq_ok hempty hshort hcut
  obtain ⟨_, hfh', hheader⟩ := bind_eq_ok.mp hheader
  obtain rfl := Outcome.ok.inj (hfh.symm.trans hfh')
  obtain ⟨⟨packetId, n₁⟩, hid, hheader⟩ := bind_eq_ok.mp hheader
  obtain ⟨⟨properties, n₂⟩, hprops, hheader⟩ := bind_eq_ok.mp hheader
  obtain rfl := Outcome.ok.inj hheader
  obtain ⟨props, hprop, hle, hsurvives⟩ := encProps_of_decProps hprops
  have hidEnd := packetId_end hid
  refine ⟨hne, props, hprop, hsurvives, fun data hdata => ?_⟩
  simp only [beBytes16, List.length_append, List.length_cons, List.length_nil]
  dsimp only at hend hn
  omega

theorem Subscribe.reencode {pkt : Subscribe} (hfh : decFixedHeader s = .ok (fh, k))
    (hn : n ≤ k + 268435455) (h : decode s = .ok (pkt, n)) :
    ∃ b, encode pkt = .ok b ∧ decode (b ++ []) = .ok (Packet.subscribe pkt, b.length) := by
  obtain ⟨hdr, hheader, h⟩ := bind_eq_ok.mp h
  obtain ⟨⟨payload, m⟩, hcut, h⟩ := bind_eq_ok.mp h
  obtain ⟨filters, hfilters, h⟩ := bind_eq_ok.mp h
  obtain ⟨_, hvalid, h⟩ := bind_eq_ok.mp h
  obtain ⟨rfl, rfl⟩ := Prod.mk.inj (Outcome.ok.inj h)
  obtain ⟨-, props, hprop, hsurvives, hfits⟩ := idHeader_fits hfh hheader (errCode_ne_ok _ _ _ _)
    (errCode_ne_ok _ _ _ _) hcut hn
  obtain ⟨data, hdata, hle⟩ := concat_of_decAll hfilters
  have hne : filters ≠ [] := by
    rintro rfl
    exact absurd hvalid nofun
  obtain ⟨b, hb⟩ : ∃ b, frame FixedHeader.newSubscribe (beBytes16 hdr.fields.1 ++ (props ++ data)) =
      .ok b := exists_frame rfl (hfits data hle)
  have henc : encode (Subscribe.mk hdr.fields.1 hdr.fields.2 filters) = .ok b :=
    bind_eq_ok.mpr ⟨(), hvalid,
      bind_eq_ok.mpr ⟨_, concat_three_eq_ok.mpr ⟨_, props, data, rfl, hprop, hdata, rfl⟩, hb⟩⟩
  exact ⟨b, henc, Subscribe.decode_encode hne hsurvives henc []⟩

theorem UnSubscribe.reencode {pkt : UnSubscribe} (hfh : decFixedHeader s = .ok (fh, k))
    (hn : n ≤ k + 268435455) (h : decode s = .ok (pkt, n)) :
    ∃ b, encode pkt = .ok b ∧ decode (b ++ []) = .ok (Packet.unSubscribe pkt, b.length) := by
  obtain ⟨hdr, hheader, h⟩ := bind_eq_ok.mp h
  obtain ⟨⟨payload, m⟩, hcut, h⟩ := bind_eq_ok.mp h
  obtain ⟨filters, hfilters, h⟩ := bind_eq_ok.mp h
  obtain ⟨_, hvalid, h⟩ := bind_eq_ok.mp h
  obtain ⟨rfl, rfl⟩ := Prod.mk.inj (Outcome.ok.inj h)
  obtain ⟨-, props, hprop, hsurvives, hfits⟩ := idHeader_fits hfh hheader (errCode_ne_ok _ _ _ _)
    (errCode_ne_ok _ _ _ _) hcut hn
  obtain ⟨data, hdata, hle⟩ := concat_of_decAll hfilters
  have hne : filters ≠ [] := by
    rintro rfl
    exact absurd hvalid nofun
  obtain ⟨b, hb⟩ : ∃ b, frame FixedHeader.newUnsubscribe (beBytes16 hdr.fields.1 ++ (props ++ data)) =
      .ok b := exists_frame rfl (hfits data hle)
  have henc : encode (UnSubscribe.mk hdr.fields.1 hdr.fields.2 filters) = .ok b :=
    bind_eq_ok.mpr ⟨_, concat_three_eq_ok.mpr ⟨_, props, data, rfl, hprop, hdata, rfl⟩, hb⟩
  exact ⟨b, henc, UnSubscribe.decode_encode hne hsurvives henc []⟩

theorem SubAck.reencode {pkt : SubAck} (hfh : decFixedHeader s = .ok (fh, k))
    (hn : n ≤ k + 268435455) (h : decode s = .ok (pkt, n)) :
    ∃ b, encode pkt = .ok b ∧ decode (b ++ []) = .ok (Packet.subAck pkt, b.length) := by
  obtain ⟨hdr, hheader, h⟩ := bind_eq_ok.mp h
  obtain ⟨⟨payload, m⟩, hcut, h⟩ := bind_eq_ok.mp h
  obtain ⟨codes, hcodes, h⟩ := bind_eq_ok.mp h
  obtain ⟨rfl, rfl⟩ := Prod.mk.inj (Outcome.ok.inj h)
  obtain ⟨hne, props, hprop, hsurvives, hfits⟩ := idHeader_fits hfh hheader (errCode_ne_ok _ _ _ _)
    (errCode_ne_ok _ _ _ _) hcut hn
  -- the codes are the bytes of the payload
  obtain rfl := SubAckReasonCode.table.toU8_of_mapM hcodes
  obtain ⟨b, hb⟩ : ∃ b, frame (FixedHeader.new .subAck)
      (beBytes16 hdr.fields.1 ++ (props ++ codes.map SubAckReasonCode.toU8)) = .ok b :=
    exists_frame_new rfl (hfits _ le_rfl)
  have henc : encode (SubAck.mk hdr.fields.1 hdr.fields.2 codes) = .ok b :=
    bind_eq_ok.mpr ⟨_, concat_three_eq_ok.mpr ⟨_, props, _, rfl, hprop, rfl, rfl⟩, hb⟩
  exact ⟨b, henc, SubAck.decode_encode (by simpa using hne) hsurvives henc []⟩

end Lists

namespace Packet

/-- The packets that are read back when they are sent again. -/
def Resendable (p : Packet) : Prop :=
  p.toPacketType ∈ [PacketType.connAck, .pubAck, .pubRec, .pubRel, .pubComp, .subscribe, .subAck,
    .unSubscribe, .disconnect, .auth]

theorem reencode_pub {t : PacketType} {wrap : Pub → Packet} {s : List UInt8} {fh : FixedHeader}
    {k n : ℕ} {pkt : Pub} {flags : Bool × QoS × Bool}
    (htype : ∀ s, decodeType t s = decAs Pub wrap s) (hfh : decFixedHeader s = .ok (fh, k))
    (hu : fh.unwrap = .ok (t, flags)) (hn : n ≤ k + 268435455) (h : decode s = .ok (pkt, n)) :
    ∃ b, encode pkt = .ok b ∧ decode (b ++ []) = .ok (wrap pkt, b.length) := by
  obtain ⟨rfl, b, henc, hpub, hdec⟩ := Pub.reencode hfh hu hn h
  refine ⟨b, henc, ?_⟩
  rw [hdec, htype]
  exact decAs_of_decode hpub

theorem reencode_stable {data : List UInt8} {p : Packet} (hframe : OneFrame data) (hp : p.Resendable)
    (h : decode data = .ok (p, data.length)) :
    ∃ b, encode p = .ok b ∧ decode b = .ok (p, b.length) := by
  obtain ⟨fh, k, hfh, hlen⟩ := hframe
  have hmax := FixedHeader.remainingLen_le hfh
  have hn : data.length ≤ k + 268435455 := by omega
  have hheader : decFixedHeader data = .ok (fh, k) := (decFixedHeader_eq data).trans hfh
  obtain ⟨t, flags, hu⟩ :=
    FixedHeader.unwrap_of_unwraps ((FixedHeader.decode_valid data).of_ok hfh).2.1
  rw [decode_eq hfh hu] at h
  have htype := toPacketType_of_decodeType h
  suffices hresend : ∃ b, encode p = .ok b ∧ decode (b ++ []) = .ok (p, b.length) by
    simpa only [List.append_nil] using hresend
  cases t with
  | connAck =>
    obtain ⟨pkt, hpkt, rfl⟩ := decAs_eq_ok h
    exact ConnAck.reencode hheader hn hpkt
  | pubAck =>
    obtain ⟨pkt, hpkt, rfl⟩ := decAs_eq_ok h
    exact reencode_pub (fun _ => rfl) hheader hu hn hpkt
  | pubRec =>
    obtain ⟨pkt, hpkt, rfl⟩ := decAs_eq_ok h
    exact reencode_pub (fun _ => rfl) hheader hu hn hpkt
  | pubRel =>
    obtain ⟨pkt, hpkt, rfl⟩ := decAs_eq_ok h
    exact reencode_pub (fun _ => rfl) hheader hu hn hpkt
  | pubComp =>
    obtain ⟨pkt, hpkt, rfl⟩ := decAs_eq_ok h
    exact reencode_pub (fun _ => rfl) hheader hu hn hpkt
  | subscribe =>
    obtain ⟨pkt, hpkt, rfl⟩ := decAs_eq_ok h
    exact Subscribe.reencode hheader hn hpkt
  | subAck =>
    obtain ⟨pkt, hpkt, rfl⟩ := decAs_eq_ok h
    exact SubAck.reencode hheader hn hpkt
  | unSubscribe =>
    obtain ⟨pkt, hpkt, rfl⟩ := decAs_eq_ok h
    exact UnSubscribe.reencode hheader hn hpkt
  | disconnect =>
    obtain ⟨pkt, hpkt, rfl⟩ := decAs_eq_ok h
    exact Disconnect.reencode hheader hn hpkt
  | auth =>
    obtain ⟨pkt, hpkt, rfl⟩ := decAs_eq_ok h
    exact Auth.reencode hheader hn hpkt
  | connect | publish | unsubAck | pingReq | pingResp =>
    exact absurd hp (by simp [Resendable, htype])

/-- A PUBACK in its short form, with a length of one byte written in two. -/
theorem reencode_stable_short :
    ∃ b, encode (Packet.pubAck ⟨.pubAck, 7, .success, none⟩) = .ok b ∧
      decode b = .ok (Packet.pubAck ⟨.pubAck, 7, .success, none⟩, b.length) :=
  reencode_stable (show OneFrame [0x40, 0x82, 0x00, 0x00, 0x07] from
    ⟨⟨0x40, ⟨2⟩⟩, 3, by decide, by decide⟩) (by simp [Resendable, toPacketType]) (by decide)

end Packet
end Mqtr
