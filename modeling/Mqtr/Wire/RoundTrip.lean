import Mqtr.Wire.EncodePacket

/-! Packets survive the wire: what an encoder has written, the decoder reads as the same packet, up to
where the packet ends and whatever bytes follow it. The UNSUBACK and the two pings do not: they are sent
under the header of another packet. -/
namespace Mqtr
open Outcome Codec

/-- What the decoders find of a packet that was sent. -/
theorem Framed.read {t : PacketType} {retain dup : Bool} {qos : QoS} {data b : List UInt8}
    (h : Framed t retain qos dup data b) (rest : List UInt8) :
    ∃ fh k, decFixedHeader (b ++ rest) = .ok (fh, k) ∧ fh.unwrap = .ok (t, retain, qos, dup) ∧
      fh.remainingLen.val.toNat = data.length ∧ At (b ++ rest) k (data ++ rest) ∧
      b.length = k + data.length ∧
      (decode (b ++ rest) : Result (Packet × ℕ)) = Packet.decodeType t (b ++ rest) := by
  obtain ⟨fh, head, hhead, rfl, hlen, hu⟩ := h
  have hat : At (head ++ data ++ rest) 0 (head ++ (data ++ rest)) := by
    rw [← List.append_assoc]
    exact .start _
  have hfh : decode (head ++ data ++ rest) = .ok (fh, head.length) := by
    rw [List.append_assoc]
    exact decode_encode hhead _
  refine ⟨fh, head.length, (decFixedHeader_eq _).trans hfh, hu, hlen, ?_, List.length_append,
    Packet.decode_eq hfh hu⟩
  have hnext := hat.next
  rwa [Nat.zero_add] at hnext

section Fields
variable {α : Type} [Packetize α] [Packetize.Encode α] {s b rest : List UInt8} {n : ℕ}

theorem decFieldIf_at [Packetize.ReadsBack α] {v : Option α} (h : encOpt v = .ok b) {pred : Bool}
    (hpred : pred = v.isSome) (hat : At s n (b ++ rest)) :
    decFieldIf α s n pred = .ok (v, n + b.length) := by
  cases v with
  | none =>
    obtain rfl := Outcome.ok.inj h
    rw [hpred]
    rfl
  | some v =>
    rw [hpred]
    show (decField α s n >>= _) = _
    rw [decField_at h hat, ok_bind]

theorem encProps_pos {properties : Option α} [PropertySet α] [PropertySet.Encodes α]
    (h : encProps properties = .ok b) : 0 < b.length := by
  cases properties with
  | none => exact encode_pos (α := VarU32) h
  | some x =>
    rw [encProps, PropertySet.Encodes.encode_eq] at h
    obtain ⟨len, lenBytes, data, hbytes, -, -, rfl⟩ := encRecord_eq_ok h
    have hpos := encode_pos hbytes
    rw [List.length_append]
    omega

omit [Packetize α] [Packetize.Encode α] in
theorem foldlM_push (vals init : List α) :
    vals.foldlM (fun vals val => (.ok (vals ++ [val]) : Result (List α))) init =
      .ok (init ++ vals) := by
  induction vals generalizing init with
  | nil => simp
  | cons v vals ih =>
    rw [List.foldlM_cons, ok_bind, ih, List.append_assoc]
    rfl

/-- A list that was written is read in full. -/
theorem decAll_concat [Packetize.ReadsBack α] [Packetize.Bounded α] {vals : List α}
    {payload : List UInt8} (h : concat (vals.map encode) = .ok payload) :
    decAll α payload = .ok vals := by
  have hread {v : α} {b tail : List UInt8} {n : ℕ} (hb : encode v = .ok b)
      (hat : At payload n (b ++ tail)) : decField α payload n = .ok (v, n + b.length) :=
    decField_at hb hat
  have hat : At payload 0 (payload ++ []) := by
    rw [List.append_nil]
    exact .start _
  have hloop := readLoop_concat (fun vals val => (.ok (vals ++ [val]) : Result (List α))) hread
    encode_pos h hat (Nat.lt_succ_self _) []
  rw [Nat.zero_add, foldlM_push, ok_bind] at hloop
  rw [decAll, hloop, ok_bind]
  rfl

/-- A list that was read can be written in as many bytes. -/
theorem concat_of_decAll [Packetize.WritesBack α] [Packetize.Bounded α] {vals : List α}
    {payload : List UInt8} (h : decAll α payload = .ok vals) :
    ∃ data, concat (vals.map encode) = .ok data ∧ data.length ≤ payload.length := by
  obtain ⟨⟨vals', m⟩, hloop, h⟩ := bind_eq_ok.mp h
  obtain rfl : vals' = vals := Outcome.ok.inj h
  have htake (vals : List α) (val : α) :
      (Outcome.ok (vals ++ [val]) : Result (List α)).Sat fun _ => True := trivial
  have hm := ((readLoop_sat (decField_sat α payload) htake (Nat.zero_le _)
    (Nat.lt_succ_self _) []).of_ok hloop).2
  obtain ⟨items, data, hfold, hdata, hle, -⟩ :=
    items_of_readLoop _ (fun hread => encode_decField hread) hloop
  rw [foldlM_push] at hfold
  obtain rfl : items = vals' := Outcome.ok.inj hfold
  exact ⟨data, hdata, by dsimp only at hm; omega⟩

end Fields

section Payload
variable {β : Type} {s payload rest : List UInt8} {n : ℕ} {empty short : Result (β × ℕ)}
  {wrap : List UInt8 → β}

/-- What was cut out of a packet: nothing, or the bytes between the fields and its end. -/
theorem cutPayload_cases {m : ℕ} {r : β × ℕ} (h : cutPayload s n m empty wrap short = .ok r) :
    (m = n ∧ empty = .ok r) ∨
      (∃ payload, payload ≠ [] ∧ n + payload.length = m ∧ r = (wrap payload, m)) ∨
      short = .ok r := by
  unfold cutPayload at h
  split_ifs at h with heq hlen
  · exact .inl ⟨heq, h⟩
  · obtain ⟨payload, hslice, h⟩ := bind_eq_ok.mp h
    by_cases hle : n ≤ m
    · rw [slice_of_le hle hlen] at hslice
      have hcount : payload.length = m - n := by
        rw [← Outcome.ok.inj hslice, List.length_take, List.length_drop]
        omega
      refine .inr (.inl ⟨payload, ?_, by omega, (Outcome.ok.inj h).symm⟩)
      rintro rfl
      rw [List.length_nil] at hcount
      omega
    · rw [slice_eq_panic.mpr fun hand => hle hand.1] at hslice
      cases hslice
  · exact .inr (.inr h)

/-- The payload that follows the cursor is cut out. -/
theorem cutPayload_at (hat : At s n (payload ++ rest)) (hne : payload ≠ []) :
    cutPayload s n (n + payload.length) empty wrap short =
      .ok (wrap payload, n + payload.length) := by
  have hpos := List.length_pos_of_ne_nil hne
  have hlen := hat.next.1
  rw [cutPayload, if_neg (by omega), if_pos hlen, slice_of_le (by omega) hlen, ok_bind]
  rw [hat.2, Nat.add_sub_cancel_left, List.take_left]

/-- The four packets that begin with a packet identifier and properties. -/
theorem decIdHeader_at {α : Type} [Packetize α] [Packetize.Encode α] [PropertySet α]
    [PropertySet.Encodes α] {fh : FixedHeader} {k : ℕ} {packetId : UInt16} {properties : Option α}
    {idBytes propBytes : List UInt8} (hfh : decFixedHeader s = .ok (fh, k))
    (hid : encode packetId = .ok idBytes) (hprops : encProps properties = .ok propBytes)
    (hok : Survives properties) (hat : At s k (idBytes ++ (propBytes ++ rest))) :
    decIdHeader α s = .ok ⟨(packetId, properties), k + idBytes.length + propBytes.length,
      k + fh.remainingLen.val.toNat⟩ := by
  rw [decIdHeader, hfh, ok_bind]
  dsimp only
  rw [decField_at hid hat, ok_bind]
  dsimp only
  rw [decProps_encProps hprops hok hat.next, ok_bind]

end Payload

theorem Packet.decAs_of_decode {α : Type} [Packetize α] {wrap : α → Packet} {s : List UInt8} {v : α}
    {n : ℕ} (h : decode s = .ok (v, n)) : decAs α wrap s = .ok (wrap v, n) := by
  rw [decAs, h, ok_bind]

theorem ConnackFlags.unwrap_ok_iff (flags : ConnackFlags) :
    (∃ present, flags.unwrap = .ok present) ↔ flags.val &&& 0b11111110 = 0 := by
  unfold unwrap errIf
  by_cases h : flags.val &&& 0b11111110 = 0
  · simp [h]
  · have hpos : flags.val &&& 0b11111110 > 0 := UInt8.pos_iff_ne_zero.mpr h
    simp [hpos, h, errCode]

theorem ConnackFlags.decode_cons {flags : ConnackFlags} (h : flags.val &&& 0b11111110 = 0)
    (rest : List UInt8) : decode ([flags.val] ++ rest) = .ok (flags, [flags.val].length) :=
  decode_eq_ok.mpr ⟨⟨rest, rfl⟩, flags.unwrap_ok_iff.mpr h, rfl⟩

section Acknowledgements
variable {b : List UInt8}

theorem ConnAck.decode_encode {pkt : ConnAck} (hflags : pkt.flags.val &&& 0b11111110 = 0)
    (hprops : Survives pkt.properties) (h : encode pkt = .ok b) (rest : List UInt8) :
    decode (b ++ rest) = .ok (Packet.connAck pkt, b.length) := by
  obtain ⟨data, hdata, h⟩ := bind_eq_ok.mp h
  obtain ⟨flags, code, props, hflagByte, hcode, hprop, rfl⟩ := concat_three_eq_ok.mp hdata
  obtain rfl := Outcome.ok.inj hflagByte
  obtain ⟨fh, k, hfh, -, -, hat, hb, hdec⟩ := (framed_of_new h).read rest
  simp only [List.append_assoc] at hat
  rw [hdec]
  apply Packet.decAs_of_decode
  show (decFixedHeader _ >>= _) = _
  rw [hfh, ok_bind]
  dsimp only
  rw [decField_of_decode (ConnackFlags.decode_cons hflags _) hat, ok_bind]
  dsimp only
  rw [decField_at hcode hat.next, ok_bind]
  dsimp only
  rw [ConnackReasonCode.table.tryFrom_toU8, ok_bind, decProps_encProps hprop hprops hat.next.next,
    ok_bind, hb]
  simp only [List.length_append]
  congr 2
  omega

theorem Disconnect.decode_encode {pkt : Disconnect} (hprops : Survives pkt.properties)
    (h : encode pkt = .ok b) (rest : List UInt8) :
    decode (b ++ rest) = .ok (Packet.disconnect pkt, b.length) := by
  obtain ⟨data, hdata, h⟩ := bind_eq_ok.mp h
  obtain ⟨code, props, hcode, hprop, rfl⟩ := concat_two_eq_ok.mp hdata
  obtain ⟨fh, k, hfh, -, hlen, hat, hb, hdec⟩ := (framed_of_new h).read rest
  simp only [List.append_assoc, List.length_append] at hat hb hlen
  have hcodePos := encode_pos hcode
  have hpropPos := encProps_pos hprop
  have hzero : fh.remainingLen.val ≠ 0 := by
    rw [Ne, ← UInt32.toNat_inj, hlen, UInt32.toNat_zero]
    omega
  have htwo : ¬ fh.remainingLen.val < 2 := by
    rw [UInt32.lt_iff_toNat_lt, hlen]
    show ¬ _ < 2
    omega
  rw [hdec]
  apply Packet.decAs_of_decode
  show (decFixedHeader _ >>= _) = _
  rw [hfh, ok_bind]
  dsimp only
  rw [if_neg hzero, if_neg htwo, decField_at hcode hat, ok_bind]
  dsimp only
  rw [DisconnReasonCode.table.tryFrom_toU8, ok_bind, decProps_encProps hprop hprops hat.next,
    ok_bind, hb, Nat.add_assoc]

theorem Auth.decode_encode {pkt : Auth} (hprops : Survives pkt.properties)
    (h : encode pkt = .ok b) (rest : List UInt8) :
    decode (b ++ rest) = .ok (Packet.auth pkt, b.length) := by
  obtain ⟨data, hdata, h⟩ := bind_eq_ok.mp h
  obtain ⟨code, props, hcode, hprop, rfl⟩ := concat_two_eq_ok.mp hdata
  obtain ⟨fh, k, hfh, -, hlen, hat, hb, hdec⟩ := (framed_of_new h).read rest
  simp only [List.append_assoc, List.length_append] at hat hb hlen
  have hcodePos := encode_pos hcode
  have hzero : fh.remainingLen.val ≠ 0 := by
    rw [Ne, ← UInt32.toNat_inj, hlen, UInt32.toNat_zero]
    omega
  rw [hdec]
  apply Packet.decAs_of_decode
  show (decFixedHeader _ >>= _) = _
  rw [hfh, ok_bind]
  dsimp only
  rw [if_neg hzero, decField_at hcode hat, ok_bind]
  dsimp only
  rw [AuthReasonCode.table.tryFrom_toU8, ok_bind, decProps_encProps hprop hprops hat.next,
    ok_bind, hb, Nat.add_assoc]

/-- The four acknowledgements of a PUBLISH differ in their headers only. -/
theorem Pub.framed {t : PacketType} (ht : IsPub t) {data : List UInt8}
    (h : frame (newHeader t) data = .ok b) : ∃ qos, Framed t false qos false data b := by
  rcases ht with rfl | rfl | rfl | rfl
  · exact ⟨_, framed_of_new h⟩
  · exact ⟨_, framed_of_new h⟩
  · exact ⟨_, framed_of_withByte h⟩
  · exact ⟨_, framed_of_new h⟩

theorem Pub.decode_encode {pkt : Pub} (ht : IsPub pkt.packetType) (hvalid : pkt.validate = .ok ())
    (hprops : Survives pkt.properties) (h : encode pkt = .ok b) (rest : List UInt8) :
    decode (b ++ rest) = .ok (pkt, b.length) ∧
      (decode (b ++ rest) : Result (Packet × ℕ)) = Packet.decodeType pkt.packetType (b ++ rest) := by
  obtain ⟨data, hdata, h⟩ := bind_eq_ok.mp h
  obtain ⟨id, code, props, hid, hcode, hprop, rfl⟩ := concat_three_eq_ok.mp hdata
  obtain ⟨qos, hframed⟩ := framed ht h
  obtain ⟨fh, k, hfh, hu, hlen, hat, hb, hdec⟩ := hframed.read rest
  refine ⟨?_, hdec⟩
  simp only [List.append_assoc, List.length_append] at hat hb hlen
  have hidLen : id.length = 2 := by
    obtain rfl := Outcome.ok.inj hid
    rfl
  have hcodeLen : code.length = 1 := by
    obtain rfl := Outcome.ok.inj hcode
    rfl
  have hpropPos := encProps_pos hprop
  have htwo : fh.remainingLen.val ≠ 2 := by
    rw [Ne, ← UInt32.toNat_inj, hlen]
    show _ ≠ 2
    omega
  have hthree : fh.remainingLen.val ≠ 3 := by
    rw [Ne, ← UInt32.toNat_inj, hlen]
    show _ ≠ 3
    omega
  show (decFixedHeader _ >>= _) = _
  rw [hfh, ok_bind]
  dsimp only
  rw [hu, ok_bind]
  dsimp only
  rw [decField_at hid hat, ok_bind]
  dsimp only
  rw [decFields, if_neg htwo, if_neg hthree, decField_at hcode hat.next, ok_bind]
  dsimp only
  rw [ReasonCode.table.tryFrom_toU8, ok_bind, decProps_encProps hprop hprops hat.next.next,
    ok_bind, ok_bind]
  dsimp only
  rw [hvalid, ok_bind, hb]
  congr 2
  omega

end Acknowledgements

section Lists
variable {b : List UInt8}

/-- A list of at least one value does not end where it begins. -/
theorem concat_encode_ne_nil {α : Type} [Packetize α] [Packetize.Encode α] [Packetize.ReadsBack α]
    [Packetize.Bounded α] {vals : List α} {payload : List UInt8} (hne : vals ≠ [])
    (h : concat (vals.map encode) = .ok payload) : payload ≠ [] := by
  cases vals with
  | nil => exact absurd rfl hne
  | cons v vals =>
    obtain ⟨c, cs, hc, -, rfl⟩ := concat_cons_eq_ok.mp h
    have hpos := encode_pos hc
    intro hnil
    rw [(List.append_eq_nil_iff.mp hnil).1] at hpos
    exact absurd hpos (by simp)

/-- Up to its payload a packet with an identifier and properties is read as it was written. -/
theorem Framed.read_list {α : Type} [Packetize α] [Packetize.Encode α] [PropertySet α]
    [PropertySet.Encodes α] {t : PacketType} {retain dup : Bool} {qos : QoS} {packetId : UInt16}
    {properties : Option α} {idBytes propBytes payload : List UInt8}
    (h : Framed t retain qos dup (idBytes ++ (propBytes ++ payload)) b)
    (hid : encode packetId = .ok idBytes) (hprops : encProps properties = .ok propBytes)
    (hok : Survives properties) (hne : payload ≠ []) (rest : List UInt8) :
    ∃ n m, decIdHeader α (b ++ rest) = .ok ⟨(packetId, properties), n, m⟩ ∧
      (∀ {β : Type} (empty short : Result (β × ℕ)) (wrap : List UInt8 → β),
        cutPayload (b ++ rest) n m empty wrap short = .ok (wrap payload, b.length)) ∧
      (decode (b ++ rest) : Result (Packet × ℕ)) = Packet.decodeType t (b ++ rest) := by
  obtain ⟨fh, k, hfh, -, hlen, hat, hb, hdec⟩ := h.read rest
  simp only [List.append_assoc, List.length_append] at hat hb hlen
  refine ⟨_, _, decIdHeader_at hfh hid hprops hok hat, fun empty short wrap => ?_, hdec⟩
  have hm : k + fh.remainingLen.val.toNat =
      k + idBytes.length + propBytes.length + payload.length := by omega
  rw [hm, cutPayload_at hat.next.next hne, hb]
  simp only [Nat.add_assoc]

theorem Subscribe.decode_encode {pkt : Subscribe} (hfilters : pkt.filters ≠ [])
    (hprops : Survives pkt.properties) (h : encode pkt = .ok b) (rest : List UInt8) :
    decode (b ++ rest) = .ok (Packet.subscribe pkt, b.length) := by
  obtain ⟨_, hvalid, h⟩ := bind_eq_ok.mp h
  obtain ⟨data, hdata, h⟩ := bind_eq_ok.mp h
  obtain ⟨id, props, filters, hid, hprop, hfilter, rfl⟩ := concat_three_eq_ok.mp hdata
  obtain ⟨n, m, hheader, hcut, hdec⟩ := (framed_of_withByte h).read_list hid hprop hprops
    (concat_encode_ne_nil hfilters hfilter) rest
  rw [hdec]
  apply Packet.decAs_of_decode
  show (decIdHeader _ _ >>= _) = _
  rw [hheader, ok_bind]
  dsimp only
  rw [hcut, ok_bind]
  dsimp only [id_eq]
  rw [decAll_concat hfilter, ok_bind, hvalid, ok_bind]

theorem UnSubscribe.decode_encode {pkt : UnSubscribe} (hfilters : pkt.filters ≠ [])
    (hprops : Survives pkt.properties) (h : encode pkt = .ok b) (rest : List UInt8) :
    decode (b ++ rest) = .ok (Packet.unSubscribe pkt, b.length) := by
  obtain ⟨data, hdata, h⟩ := bind_eq_ok.mp h
  obtain ⟨id, props, filters, hid, hprop, hfilter, rfl⟩ := concat_three_eq_ok.mp hdata
  obtain ⟨n, m, hheader, hcut, hdec⟩ := (framed_of_withByte h).read_list hid hprop hprops
    (concat_encode_ne_nil hfilters hfilter) rest
  have hvalid : pkt.validate = .ok () := by
    have hpos := List.length_pos_of_ne_nil hfilters
    rw [validate, errIf, if_neg (by simp; omega)]
  rw [hdec]
  apply Packet.decAs_of_decode
  show (decIdHeader _ _ >>= _) = _
  rw [hheader, ok_bind]
  dsimp only
  rw [hcut, ok_bind]
  dsimp only [id_eq]
  rw [decAll_concat hfilter, ok_bind, hvalid, ok_bind]

theorem SubAck.decode_encode {pkt : SubAck} (hcodes : pkt.returnCodes ≠ [])
    (hprops : Survives pkt.properties) (h : encode pkt = .ok b) (rest : List UInt8) :
    decode (b ++ rest) = .ok (Packet.subAck pkt, b.length) := by
  obtain ⟨data, hdata, h⟩ := bind_eq_ok.mp h
  obtain ⟨id, props, codes, hid, hprop, hcode, rfl⟩ := concat_three_eq_ok.mp hdata
  obtain rfl := Outcome.ok.inj hcode
  have hne : pkt.returnCodes.map SubAckReasonCode.toU8 ≠ [] := by simpa using hcodes
  obtain ⟨n, m, hheader, hcut, hdec⟩ :=
    (framed_of_new h).read_list hid hprop hprops hne rest
  rw [hdec]
  apply Packet.decAs_of_decode
  show (decIdHeader _ _ >>= _) = _
  rw [hheader, ok_bind]
  dsimp only
  rw [hcut, ok_bind]
  dsimp only [id_eq]
  rw [SubAckReasonCode.table.mapM_toU8, ok_bind]

end Lists

namespace Packet

/-- The packets without a payload that can be sent: the flags of a CONNACK have only the session-present
bit, an acknowledgement is of its own type and has a code for it, a maximum is not zero and properties
are not empty. The properties of an AUTH are never empty. -/
def WellFormedAck : Packet → Prop
  | .connAck pkt => pkt.flags.val &&& 0b11111110 = 0 ∧ ∀ props, pkt.properties = some props →
      props ≠ {} ∧ props.receiveMaximum ≠ some 0 ∧ props.maxPacketSize ≠ some 0
  | .pubAck pkt =>
    pkt.packetType = .pubAck ∧ pkt.validate = .ok () ∧ pkt.properties ≠ some {}
  | .pubRec pkt =>
    pkt.packetType = .pubRec ∧ pkt.validate = .ok () ∧ pkt.properties ≠ some {}
  | .pubRel pkt =>
    pkt.packetType = .pubRel ∧ pkt.validate = .ok () ∧ pkt.properties ≠ some {}
  | .pubComp pkt =>
    pkt.packetType = .pubComp ∧ pkt.validate = .ok () ∧ pkt.properties ≠ some {}
  | .disconnect pkt => pkt.properties ≠ some {}
  | .auth _ => True
  | _ => False

/-- The packets with a list for payload that can be sent. -/
def WellFormedList : Packet → Prop
  | .subscribe pkt => pkt.filters ≠ [] ∧ ∀ props, pkt.properties = some props →
      props ≠ {} ∧ props.subscriptionId ≠ some ⟨0⟩
  | .unSubscribe pkt => pkt.filters ≠ [] ∧ pkt.properties ≠ some {}
  | .subAck pkt => pkt.returnCodes ≠ [] ∧ pkt.properties ≠ some {}
  | _ => False

theorem survives_of_ne {σ : Type} [Packetize σ] [PropertySet σ] {init : σ} {properties : Option σ}
    (hacc : ∀ x, properties = some x → PropertySet.Accepted x)
    (hnil : ∀ x : σ, PropertySet.written x = [] → x = init) (hne : properties ≠ some init) :
    Survives properties := by
  intro x hx
  refine ⟨hacc x hx, fun h => hne ?_⟩
  rw [hx, hnil x h]

theorem pub_survives {properties : Option PubProperties} (hne : properties ≠ some {}) :
    Survives properties :=
  survives_of_ne (fun x _ => ReasonProperties.accepted _ _ x)
    (fun _ => ReasonProperties.written_eq_nil_iff.mp) hne

/-- One arm of the dispatcher for the acknowledgements of a PUBLISH. -/
theorem decode_encode_pub {pkt : Pub} {t : PacketType} {wrap : Pub → Packet} {b : List UInt8}
    (htype : ∀ s, decodeType t s = decAs Pub wrap s) (ht : Pub.IsPub t) (hpkt : pkt.packetType = t)
    (hvalid : pkt.validate = .ok ()) (hprops : pkt.properties ≠ some {}) (h : encode pkt = .ok b)
    (rest : List UInt8) : decode (b ++ rest) = .ok (wrap pkt, b.length) := by
  subst hpkt
  obtain ⟨hpub, hdec⟩ := Pub.decode_encode ht hvalid (pub_survives hprops) h rest
  rw [hdec, htype]
  exact decAs_of_decode hpub

theorem ack_round_trip {p : Packet} (hp : p.WellFormedAck) {b : List UInt8} (h : encode p = .ok b)
    (rest : List UInt8) : decode (b ++ rest) = .ok (p, b.length) := by
  cases p with
  | connAck pkt =>
    obtain ⟨hflags, hprops⟩ := hp
    refine ConnAck.decode_encode hflags (fun x hx => ?_) h rest
    obtain ⟨hne, hreceive, hsize⟩ := hprops x hx
    exact ⟨ConnAckProperties.accepted hreceive hsize, fun hnil =>
      hne (ConnAckProperties.layout_lawful.written_eq_nil_iff.mp hnil)⟩
  | pubAck pkt =>
    exact decode_encode_pub (t := .pubAck) (fun _ => rfl) (.inl rfl) hp.1 hp.2.1 hp.2.2 h rest
  | pubRec pkt =>
    exact decode_encode_pub (t := .pubRec) (fun _ => rfl) (.inr (.inl rfl)) hp.1 hp.2.1 hp.2.2 h rest
  | pubRel pkt =>
    exact decode_encode_pub (t := .pubRel) (fun _ => rfl) (.inr (.inr (.inl rfl))) hp.1 hp.2.1 hp.2.2
      h rest
  | pubComp pkt =>
    exact decode_encode_pub (t := .pubComp) (fun _ => rfl) (.inr (.inr (.inr rfl))) hp.1 hp.2.1
      hp.2.2 h rest
  | disconnect pkt =>
    have hsurvives : Survives pkt.properties :=
      survives_of_ne (fun x _ => DisconnProperties.accepted x)
        (fun _ => DisconnProperties.layout_lawful.written_eq_nil_iff.mp) hp
    exact Disconnect.decode_encode hsurvives h rest
  | auth pkt =>
    have hsurvives : Survives pkt.properties :=
      fun x _ => ⟨AuthProperties.accepted x, AuthProperties.written_ne_nil x⟩
    exact Auth.decode_encode hsurvives h rest
  | _ => exact False.elim hp

/-- A DISCONNECT with two user properties of one name, and the bytes of another packet behind it. -/
theorem ack_round_trip_disconnect :
    decode ([0xe0, 0x10, 0x04, 0x0e, 0x26, 0x00, 0x01, 0x61, 0x00, 0x01, 0x62, 0x26, 0x00, 0x01, 0x61,
        0x00, 0x01, 0x63] ++ [0xc0, 0x00]) =
      .ok (Packet.disconnect ⟨.diconnectWillMessage,
        some { userProperties := [("a", "b"), ("a", "c")] }⟩, 18) :=
  ack_round_trip (p := .disconnect ⟨.diconnectWillMessage,
    some { userProperties := [("a", "b"), ("a", "c")] }⟩) nofun (by decide) _

theorem list_round_trip {p : Packet} (hp : p.WellFormedList) {b : List UInt8} (h : encode p = .ok b)
    (rest : List UInt8) : decode (b ++ rest) = .ok (p, b.length) := by
  cases p with
  | subscribe pkt =>
    obtain ⟨hfilters, hprops⟩ := hp
    refine Subscribe.decode_encode hfilters (fun x hx => ?_) h rest
    obtain ⟨hne, hid⟩ := hprops x hx
    exact ⟨SubscribeProperties.accepted hid, fun hnil =>
      hne (SubscribeProperties.layout_lawful.written_eq_nil_iff.mp hnil)⟩
  | unSubscribe pkt =>
    have hsurvives : Survives pkt.properties :=
      survives_of_ne (fun x _ => UnSubscribeProperties.accepted x)
        (fun _ => UnSubscribeProperties.layout_lawful.written_eq_nil_iff.mp) hp.2
    exact UnSubscribe.decode_encode hp.1 hsurvives h rest
  | subAck pkt =>
    have hsurvives : Survives pkt.properties :=
      survives_of_ne (fun x _ => ReasonProperties.accepted _ _ x)
        (fun _ => ReasonProperties.written_eq_nil_iff.mp) hp.2
    exact SubAck.decode_encode hp.1 hsurvives h rest
  | _ => exact False.elim hp

/-- A SUBSCRIBE with two filters and a subscription identifier. -/
theorem list_round_trip_subscribe :
    decode ([0x82, 0x0e, 0x00, 0x07, 0x02, 0x0b, 0x05, 0x00, 0x01, 0x61, 0x01, 0x00, 0x02, 0x62, 0x2f,
        0x02] ++ [0xff]) =
      .ok (Packet.subscribe ⟨7, some { subscriptionId := some ⟨5⟩ },
        [⟨⟨"a"⟩, ⟨1⟩⟩, ⟨⟨"b/"⟩, ⟨2⟩⟩]⟩, 16) :=
  list_round_trip (p := .subscribe ⟨7, some { subscriptionId := some ⟨5⟩ },
    [⟨⟨"a"⟩, ⟨1⟩⟩, ⟨⟨"b/"⟩, ⟨2⟩⟩]⟩) ⟨by decide, by rintro _ ⟨⟩; decide⟩ (by decide) _

/-- A packet that is sent under the header of another is not read back. -/
theorem decode_ne_of_framed {p : Packet} {t : PacketType} {data b : List UInt8}
    (h : Framed t false .atMostOnce false data b) (ht : p.toPacketType ≠ t) (rest : List UInt8)
    (n : ℕ) : decode (b ++ rest) ≠ .ok (p, n) := by
  intro hok
  obtain ⟨fh, k, -, -, -, -, -, hdec⟩ := h.read rest
  rw [hdec] at hok
  exact ht (toPacketType_of_decodeType hok)

/-- The UNSUBACKs that could be sent, and the two pings. -/
def WellFormedReply : Packet → Prop
  | .unsubAck pkt => pkt.returnCodes ≠ [] ∧ pkt.properties ≠ some {}
  | .pingReq | .pingResp => True
  | _ => False

theorem reply_never_read_back {p : Packet} (hp : p.WellFormedReply) {b : List UInt8}
    (h : encode p = .ok b) (rest : List UInt8) (n : ℕ) : decode (b ++ rest) ≠ .ok (p, n) := by
  cases p with
  | unsubAck pkt =>
    obtain ⟨data, -, h⟩ := bind_eq_ok.mp h
    exact decode_ne_of_framed (framed_of_new h) (by simp [toPacketType]) rest n
  | pingReq =>
    have hframed : frame (FixedHeader.new .pingResp) [] = .ok b := by rw [← h]; rfl
    exact decode_ne_of_framed (framed_of_new hframed) (by simp [toPacketType]) rest n
  | pingResp =>
    have hframed : frame (FixedHeader.new .pingReq) [] = .ok b := by rw [← h]; rfl
    exact decode_ne_of_framed (framed_of_new hframed) (by simp [toPacketType]) rest n
  | _ => exact False.elim hp

/-- An UNSUBACK is read as a SUBACK, or its codes are not those of one. -/
theorem reply_never_read_back_unsubAck :
    decode ([0x90, 0x04, 0x00, 0x07, 0x00, 0x11] ++ []) ≠
      .ok (Packet.unsubAck ⟨7, none, [.noSubscriptionExisted]⟩, 6) :=
  reply_never_read_back (p := .unsubAck ⟨7, none, [.noSubscriptionExisted]⟩) ⟨by decide, nofun⟩
    (by decide) [] 6

/-- A ping request comes back as a ping response. -/
theorem pingReq_read_as_pingResp :
    ¬ ∀ (p : Packet) (b : List UInt8), p.WellFormedReply → encode p = .ok b →
      ∀ rest, decode (b ++ rest) = .ok (p, b.length) := by
  intro hall
  have hping := hall .pingReq [0xd0, 0x00] trivial (by decide) []
  exact absurd hping (by decide)

end Packet
end Mqtr
