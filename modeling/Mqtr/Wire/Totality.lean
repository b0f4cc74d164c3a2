import Mqtr.Wire.Acceptance
import Mqtr.Wire.Confinement

/-! When a packet can be decoded without an abort. The five packets with a payload cut it out between the
end of their fields and the end of the packet. The fields end where the lengths in them say, the packet
where the fixed header says, and the decoder aborts exactly on those packets whose fields are all legible
and go beyond the end of the packet. What is legible is said here of the bytes. -/
namespace Mqtr
open Outcome Codec

/-- A length in at most four bytes and so many bytes, which can be cut in properties that may stand
together. -/
def PropertyBlock (Good : List Property → Prop) (bytes : List UInt8) : Prop :=
  ∃ k segs rest, Varint.width (bytes.take 4) = some k ∧
    (segs.flatMap Prod.fst).length = Varint.value (bytes.take k) ∧
    bytes.drop k = segs.flatMap Prod.fst ++ rest ∧ Segments segs ∧ Good (segs.map Prod.snd)

/-- The bytes after the length are those of a topic name. -/
def TopicText (bytes : List UInt8) : Prop :=
  Field.text.size bytes ≤ bytes.length ∧
    ∃ topic : TopicName, asBytes topic.val = (bytes.take (Field.text.size bytes)).drop 2 ∧
      topic.val.toList.all isValidUtf8CodePoint = true ∧ topic.validate = .ok ()

/-- A field that can be read; the only text in front of a payload is a topic name. -/
def Field.Legible (Good : List Property → Prop) (field : Field) (bytes : List UInt8) : Prop :=
  match field with
  | .byte | .word | .long => field.size bytes ≤ bytes.length
  | .text => TopicText bytes
  | .properties => PropertyBlock Good bytes

/-- Consecutive fields that can be read. -/
def Legible (Good : List Property → Prop) : List Field → List UInt8 → Prop
  | [], _ => True
  | field :: fields, bytes =>
    field.Legible Good bytes ∧ Legible Good fields (bytes.drop (field.size bytes))

/-- The fields between the fixed header and the payload, for the first bytes that a packet with a payload
can have. In a PUBLISH the two bits of the QoS must not both be set; the flags of SUBSCRIBE and
UNSUBSCRIBE may be 2, as they should, or 0. -/
def payloadFields (byte1 : UInt8) : Option (List Field) :=
  if byte1 ∈ [0x80, 0x82, 0x90, 0xa0, 0xa2, 0xb0] then some [.word, .properties]
  else if byte1 >>> 4 = 3 then
    match (byte1 >>> 1) &&& 3 with
    | 0 => some [.text, .properties]
    | 1 | 2 => some [.text, .word, .properties]
    | _ => none
  else none

/-- The lists of properties that the packet may have. -/
def payloadProperties (byte1 : UInt8) (ps : List Property) : Prop :=
  match byte1 >>> 4 with
  | 3 => (∀ q ∈ ps, PublishProperties.Allowed q) ∧ Sparse PublishProperties.repeatable ps
  | 8 => Acceptable SubscribeProperties.layout [] ps
  | 10 => Acceptable UnSubscribeProperties.layout [] ps
  | _ => Acceptable ReasonProperties.layout [] ps

section Fields
variable {s : List UInt8} {n : ℕ}

theorem exists_word_iff (hn : n ≤ s.length) :
    (∃ r, decField UInt16 s n = .ok r) ↔ Field.word.size (s.drop n) ≤ (s.drop n).length := by
  rw [decField, advance_of_le hn, ok_bind]
  rcases s.drop n with _ | ⟨a, _ | ⟨b, rest⟩⟩
  · refine iff_of_false ?_ (by simp [Field.size])
    rintro ⟨r, h⟩
    cases h
  · refine iff_of_false ?_ (by simp [Field.size])
    rintro ⟨r, h⟩
    cases h
  · exact iff_of_true ⟨_, rfl⟩ (by simp [Field.size])

/-- A text is read if it is there in full, is UTF-8 and has no code point that is not allowed. -/
theorem string_decode_iff {bytes : List UInt8} {v : String} {k : ℕ} :
    decode bytes = .ok (v, k) ↔
      k = Field.text.size bytes ∧ Field.text.size bytes ≤ bytes.length ∧
        asBytes v = (bytes.take (Field.text.size bytes)).drop 2 ∧
        v.toList.all isValidUtf8CodePoint = true := by
  rcases bytes with _ | ⟨hi, _ | ⟨lo, rest⟩⟩
  · exact iff_of_false (errCode_ne_ok _ _ _ _) (by simp [Field.size])
  · exact iff_of_false (errCode_ne_ok _ _ _ _) (by simp [Field.size])
  · have hlen : (decode (hi :: lo :: rest) : Result (UInt16 × ℕ)) =
        .ok ((hi.toUInt16 <<< 8) ||| lo.toUInt16, 2) := rfl
    generalize hi.toUInt16 <<< 8 ||| lo.toUInt16 = len at hlen
    generalize hi :: lo :: rest = bytes at hlen ⊢
    have hsize := text_size hlen
    have hdef : (decode bytes : Result (String × ℕ)) =
        (decode bytes : Result (UInt16 × ℕ)) >>= _ := rfl
    rw [hdef, hlen, ok_bind, hsize]
    dsimp only
    by_cases hfits : 2 + len.toNat ≤ bytes.length
    · rw [if_neg (by omega), slice_of_le (by omega) hfits, ok_bind, ← List.drop_take]
      constructor
      · intro h
        split at h
        next v' hv =>
          split_ifs at h with hvalid
          · obtain ⟨rfl, rfl⟩ := Prod.mk.inj (Outcome.ok.inj h)
            exact ⟨rfl, hfits, asBytes_of_fromUTF8? hv, hvalid⟩
          · exact absurd h (errCode_ne_ok _ _ _ _)
        next => exact absurd h (errCode_ne_ok _ _ _ _)
      · rintro ⟨rfl, -, hbytes, hvalid⟩
        rw [← hbytes, fromUTF8?_asBytes]
        exact if_pos hvalid
    · rw [if_pos (by omega)]
      exact iff_of_false (errCode_ne_ok _ _ _ _) fun h => hfits h.2.1

theorem exists_topic_iff (hn : n ≤ s.length) :
    (∃ r, decField TopicName s n = .ok r) ↔ TopicText (s.drop n) := by
  constructor
  · rintro ⟨⟨topic, m⟩, h⟩
    obtain ⟨-, k, hk, -⟩ := decField_eq_ok.mp h
    obtain ⟨htext, hvalid⟩ := TopicName.decode_eq_ok.mp hk
    obtain ⟨-, hfits, hbytes, hchars⟩ := string_decode_iff.mp htext
    exact ⟨hfits, topic, hbytes, hchars, hvalid⟩
  · rintro ⟨hfits, topic, hbytes, hchars, hvalid⟩
    have htext : decode (s.drop n) = .ok (topic.val, Field.text.size (s.drop n)) :=
      string_decode_iff.mpr ⟨rfl, hfits, hbytes, hchars⟩
    exact ⟨_, decField_eq_ok.mpr ⟨hn, _, TopicName.decode_eq_ok.mpr ⟨htext, hvalid⟩, rfl⟩⟩

/-- The lists that the decoder of a set of properties accepts. -/
structure ReadsExactly (σ : Type) [Packetize σ] (Good : List Property → Prop) : Prop where
  accepts (s : List UInt8) (n : ℕ) : (∃ r : σ, decode s = .ok (r, n)) ↔
    ∃ len m ps, Listed s len m ps n ∧ Good ps
  nil : Good []

theorem decode_property_block {σ : Type} [Packetize σ] {Good : List Property → Prop}
    (hσ : ReadsExactly σ Good) {bytes : List UInt8} {len : VarU32} {k : ℕ}
    (hlen : decode bytes = .ok (len, k)) :
    (∃ r : σ, decode bytes = .ok (r, k + len.val.toNat)) ↔
      ∃ segs rest, (segs.flatMap Prod.fst).length = len.val.toNat ∧
        bytes.drop k = segs.flatMap Prod.fst ++ rest ∧ Segments segs ∧ Good (segs.map Prod.snd) := by
  rw [hσ.accepts]
  constructor
  · rintro ⟨len', m, ps, ⟨hhead, hreads⟩, hgood⟩
    obtain ⟨rfl, rfl⟩ := Prod.mk.inj (Outcome.ok.inj (hlen.symm.trans hhead))
    obtain ⟨segs, rfl, hsegs, hdrop, hend⟩ := segments_of_readsUntil hreads
    exact ⟨segs, _, (Nat.add_left_cancel hend).symm, hdrop, hsegs, hgood⟩
  · rintro ⟨segs, rest, hcount, hdrop, hsegs, hgood⟩
    have hat : At bytes k (segs.flatMap Prod.fst ++ rest) :=
      ⟨((decode_sat bytes).of_ok hlen).2, hdrop⟩
    have hreads := readsUntil_segments hsegs hat
    rw [hcount] at hreads
    exact ⟨len.val, k, _, ⟨hlen, hreads⟩, hgood⟩

theorem exists_props_iff {σ : Type} [Packetize σ] {Good : List Property → Prop}
    (hσ : ReadsExactly σ Good) (hn : n ≤ s.length) :
    (∃ r, decProps σ s n = .ok r) ↔ PropertyBlock Good (s.drop n) := by
  rw [decProps, advance_of_le hn, ok_bind]
  generalize s.drop n = bytes
  constructor
  · rintro ⟨r, h⟩
    obtain ⟨⟨len, k⟩, hlen, h⟩ := bind_eq_ok.mp h
    obtain ⟨hk, hvalue⟩ := varU32_decode_iff.mp hlen
    dsimp only at h
    split_ifs at h with hzero
    · refine ⟨k, [], bytes.drop k, hk, ?_, rfl, by simp [Segments], hσ.nil⟩
      rw [← hvalue, hzero]
      rfl
    · rw [ok_bind] at h
      obtain ⟨⟨x, j⟩, hx, h⟩ := bind_eq_ok.mp h
      dsimp only at h
      split_ifs at h with hj
      · subst hj
        obtain ⟨segs, rest, hcount, hblock⟩ := (decode_property_block hσ hlen).mp ⟨x, hx⟩
        exact ⟨k, segs, rest, hk, hcount.trans hvalue, hblock⟩
      · exact absurd h (errCode_ne_ok _ _ _ _)
  · rintro ⟨k, segs, rest, hk, hcount, hblock⟩
    have hvalue : (UInt32.ofNat (Varint.value (bytes.take k))).toNat = Varint.value (bytes.take k) := by
      rw [UInt32.toNat_ofNat', Nat.mod_eq_of_lt (varint_value_lt hk)]
    have hlen : decode bytes = .ok (VarU32.mk (.ofNat (Varint.value (bytes.take k))), k) :=
      varU32_decode_iff.mpr ⟨hk, hvalue⟩
    rw [hlen, ok_bind]
    dsimp only
    split_ifs with hzero
    · exact ⟨_, rfl⟩
    · obtain ⟨x, hx⟩ :=
        (decode_property_block hσ hlen).mpr ⟨segs, rest, hcount.trans hvalue.symm, hblock⟩
      rw [ok_bind, hx, ok_bind]
      exact ⟨_, if_pos rfl⟩

end Fields

theorem PublishProperties.readsExactly : ReadsExactly PublishProperties fun ps =>
    (∀ q ∈ ps, Allowed q) ∧ Sparse repeatable ps where
  accepts s n := by
    constructor
    · rintro ⟨r, h⟩
      obtain ⟨⟨len⟩, m, ps, dups, hhead, hreads, hfold⟩ := list.decode_eq_ok.mp h
      exact ⟨len, m, ps, ⟨hhead, hreads⟩, (fold_iff ps).mp ⟨r, dups, hfold⟩⟩
    · rintro ⟨len, m, ps, hlist, hgood⟩
      obtain ⟨r, dups, hfold⟩ := (fold_iff ps).mpr hgood
      exact ⟨r, list.decode_eq_ok.mpr ⟨⟨len⟩, m, ps, dups, hlist.head, hlist.reads, hfold⟩⟩
  nil := ⟨by simp, fun pt _ => by simp⟩

theorem Reader.readsExactly {σ : Type} [Packetize σ] {π : Type} {L : Layout π} {list : PropertyList π}
    {init : π} {view : σ → π} (hR : Reader σ L list init view []) :
    ReadsExactly σ (Acceptable L []) where
  accepts := hR.accepts
  nil := ⟨by simp, fun pt _ => by simp, by simp⟩

theorem legible_append {Good : List Property → Prop} {fields fields' : List Field}
    {bytes : List UInt8} :
    Legible Good (fields ++ fields') bytes ↔
      Legible Good fields bytes ∧ Legible Good fields' (bytes.drop (extent fields bytes)) := by
  induction fields generalizing bytes with
  | nil => simp [Legible, extent]
  | cons field fields ih =>
    rw [List.cons_append, Legible, Legible, extent, ih, List.drop_drop, and_assoc]

/-- From every position of the stream, the fields are read exactly if they are legible there. -/
structure ReadsFields {α : Type} (Good : List Property → Prop) (fields : List Field) (s : List UInt8)
    (read : ℕ → Result (α × ℕ)) : Prop where
  exists_iff {n : ℕ} : n ≤ s.length →
    ((∃ r, read n = .ok r) ↔ Legible Good fields (s.drop n))
  ends {n m : ℕ} {v : α} : n ≤ s.length → read n = .ok (v, m) → Ends fields s n m ∧ m ≤ s.length

namespace ReadsFields
variable {α β : Type} {Good : List Property → Prop} {s : List UInt8}

theorem packetId : ReadsFields Good [.word] s (decField UInt16 s) where
  exists_iff hn := by
    rw [exists_word_iff hn]
    exact (and_iff_left trivial).symm
  ends _ h := ⟨decField_ends h, ((decField_sat UInt16 s _).of_ok h).2⟩

theorem topicName : ReadsFields Good [.text] s (decField TopicName s) where
  exists_iff hn := by
    rw [exists_topic_iff hn]
    exact (and_iff_left trivial).symm
  ends _ h := ⟨decField_ends h, ((decField_sat TopicName s _).of_ok h).2⟩

theorem props {σ : Type} [Packetize σ] [Packetize.Bounded σ] (hσ : ReadsExactly σ Good) :
    ReadsFields Good [.properties] s (decProps σ s) where
  exists_iff hn := by
    rw [exists_props_iff hσ hn]
    exact (and_iff_left trivial).symm
  ends _ h := ⟨decProps_ends h, ((decProps_sat σ s _).of_ok h).2⟩

theorem nothing (v : α) : ReadsFields Good [] s fun n => .ok (v, n) where
  exists_iff _ := iff_of_true ⟨_, rfl⟩ trivial
  ends hn h := by
    obtain ⟨-, rfl⟩ := Prod.mk.inj (Outcome.ok.inj h)
    exact ⟨.nil s _, hn⟩

/-- One reader after the other. -/
theorem bind {fields fields' : List Field} {read : ℕ → Result (α × ℕ)}
    {next : α → ℕ → Result (β × ℕ)} (h : ReadsFields Good fields s read)
    (h' : ∀ v, ReadsFields Good fields' s (next v)) :
    ReadsFields Good (fields ++ fields') s fun n => read n >>= fun r => next r.1 r.2 where
  exists_iff {n} hn := by
    rw [legible_append, List.drop_drop]
    constructor
    · rintro ⟨r', hr'⟩
      obtain ⟨⟨v, m⟩, hr, hr'⟩ := bind_eq_ok.mp hr'
      obtain ⟨hends, hm⟩ := h.ends hn hr
      rw [← hends]
      exact ⟨(h.exists_iff hn).mp ⟨_, hr⟩, ((h' v).exists_iff hm).mp ⟨r', hr'⟩⟩
    · rintro ⟨hfirst, hsecond⟩
      obtain ⟨⟨v, m⟩, hr⟩ := (h.exists_iff hn).mpr hfirst
      obtain ⟨hends, hm⟩ := h.ends hn hr
      rw [← hends] at hsecond
      obtain ⟨r', hr'⟩ := ((h' v).exists_iff hm).mpr hsecond
      exact ⟨r', bind_eq_ok.mpr ⟨(v, m), hr, hr'⟩⟩
  ends hn hr' := by
    obtain ⟨⟨v, m⟩, hr, hr'⟩ := bind_eq_ok.mp hr'
    obtain ⟨hends, hm⟩ := h.ends hn hr
    obtain ⟨hends', hm'⟩ := (h' v).ends hm hr'
    exact ⟨hends.append hends', hm'⟩

theorem map {fields : List Field} {read : ℕ → Result (α × ℕ)} (h : ReadsFields Good fields s read)
    (f : α → β) : ReadsFields Good fields s fun n => read n >>= fun r => .ok (f r.1, r.2) := by
  have hbind := h.bind fun v => nothing (f v)
  rwa [List.append_nil] at hbind

theorem packetIdIf (pred : Bool) :
    ReadsFields Good (if pred then [.word] else []) s fun n => decFieldIf UInt16 s n pred := by
  cases pred with
  | false => exact nothing none
  | true => exact packetId.map some

end ReadsFields

section Headers
variable {α β : Type} {Good : List Property → Prop} {fields : List Field} {s : List UInt8}
  {fh : FixedHeader} {k len : ℕ}

/-- A header whose fields are read from position `k` on overruns a packet that ends at `k + len` exactly if
its fields are legible and longer than the packet. -/
theorem overrun_iff_extent {read : ℕ → Result (α × ℕ)} (h : ReadsFields Good fields s read)
    (hk : k ≤ s.length) (wrap : α → β) :
    Overrun (read k >>= fun r => .ok (VarHeader.mk (wrap r.1) r.2 (k + len))) ↔
      Legible Good fields (s.drop k) ∧ len < extent fields (s.drop k) := by
  constructor
  · rintro ⟨hdr, hhdr, hlt⟩
    obtain ⟨⟨v, m⟩, hr, hhdr⟩ := bind_eq_ok.mp hhdr
    obtain rfl := Outcome.ok.inj hhdr
    obtain ⟨rfl, -⟩ := h.ends hk hr
    exact ⟨(h.exists_iff hk).mp ⟨_, hr⟩, Nat.lt_of_add_lt_add_left hlt⟩
  · rintro ⟨hlegible, hlt⟩
    obtain ⟨⟨v, m⟩, hr⟩ := (h.exists_iff hk).mpr hlegible
    obtain ⟨rfl, -⟩ := h.ends hk hr
    exact ⟨_, bind_eq_ok.mpr ⟨_, hr, rfl⟩, Nat.add_lt_add_left hlt k⟩

theorem decIdHeader_overrun_iff {σ : Type} [Packetize σ] [Packetize.Bounded σ]
    (hσ : ReadsExactly σ Good) (hfh : decFixedHeader s = .ok (fh, k)) (hk : k ≤ s.length) :
    Overrun (decIdHeader σ s) ↔ Legible Good [.word, .properties] (s.drop k) ∧
      fh.remainingLen.val.toNat < extent [.word, .properties] (s.drop k) := by
  have hread : ReadsFields Good [.word, .properties] s fun n =>
      decField UInt16 s n >>= fun r => decProps σ s r.2 >>= fun q => .ok ((r.1, q.1), q.2) :=
    ReadsFields.packetId.bind fun id => (ReadsFields.props hσ).map fun properties => (id, properties)
  have hdef : decIdHeader σ s = ((decField UInt16 s k >>= fun r => decProps σ s r.2 >>= fun q =>
      .ok ((r.1, q.1), q.2)) >>= fun r =>
        .ok (VarHeader.mk (id r.1) r.2 (k + fh.remainingLen.val.toNat))) := by
    rw [decIdHeader, hfh, ok_bind, bind_assoc]
    simp only [bind_assoc, ok_bind, id]
  rw [hdef]
  exact overrun_iff_extent hread hk id

theorem decHeader_overrun_iff {t : PacketType} {retain dup : Bool} {qos : QoS}
    (hfh : decFixedHeader s = .ok (fh, k)) (hu : fh.unwrap = .ok (t, retain, qos, dup))
    (hGood : ReadsExactly PublishProperties Good) (hk : k ≤ s.length)
    (hfields : fields = .text ::
      ((if qos = .atLeastOnce ∨ qos = .exactlyOnce then [.word] else []) ++ [.properties])) :
    Overrun (Publish.decHeader s) ↔ Legible Good fields (s.drop k) ∧
      fh.remainingLen.val.toNat < extent fields (s.drop k) := by
  have hread : ReadsFields Good fields s fun n =>
      decField TopicName s n >>= fun a =>
        decFieldIf UInt16 s a.2 (qos = QoS.atLeastOnce ∨ qos = QoS.exactlyOnce) >>= fun b =>
          decProps PublishProperties s b.2 >>= fun c =>
            .ok (Publish.mk retain qos dup a.1 b.1 c.1 none, c.2) := by
    have hid : ReadsFields Good (if qos = .atLeastOnce ∨ qos = .exactlyOnce then [.word] else []) s
        fun n => decFieldIf UInt16 s n (qos = QoS.atLeastOnce ∨ qos = QoS.exactlyOnce) := by
      simpa only [decide_eq_true_eq] using ReadsFields.packetIdIf
        (decide (qos = QoS.atLeastOnce ∨ qos = QoS.exactlyOnce))
    rw [hfields]
    exact ReadsFields.topicName.bind fun topicName => hid.bind fun packetId =>
      (ReadsFields.props hGood).map fun properties =>
        Publish.mk retain qos dup topicName packetId properties none
  have hdef : Publish.decHeader s = ((decField TopicName s k >>= fun a =>
      decFieldIf UInt16 s a.2 (qos = QoS.atLeastOnce ∨ qos = QoS.exactlyOnce) >>= fun b =>
        decProps PublishProperties s b.2 >>= fun c =>
          .ok (Publish.mk retain qos dup a.1 b.1 c.1 none, c.2)) >>= fun r =>
        .ok (VarHeader.mk (id r.1) r.2 (k + fh.remainingLen.val.toNat))) := by
    rw [Publish.decHeader, hfh, ok_bind]
    dsimp only
    rw [hu, ok_bind]
    simp only [bind_assoc, ok_bind, id]
  rw [hdef]
  exact overrun_iff_extent hread hk id

end Headers

/-- The same fields by the type and the QoS that the first byte stands for. -/
def PacketType.payloadFields (t : PacketType) (qos : QoS) : Option (List Field) :=
  match t with
  | .publish => some (.text ::
      ((if qos = .atLeastOnce ∨ qos = .exactlyOnce then [.word] else []) ++ [.properties]))
  | .subscribe | .subAck | .unSubscribe | .unsubAck => some [.word, .properties]
  | _ => none

namespace FixedHeader

theorem payloadFields_of_unwrap {fh : FixedHeader} {t : PacketType} {retain dup : Bool} {qos : QoS}
    (hvalid : fh.validate = .ok ()) (hu : fh.unwrap = .ok (t, retain, qos, dup)) :
    Mqtr.payloadFields fh.byte1 = t.payloadFields qos ∧ fh.byte1 >>> 4 = t.toU8 := by
  have hall : ∀ b : UInt8, ((FixedHeader.mk b ⟨0⟩).unwrap.toOption.all fun r =>
      !(FixedHeader.mk b ⟨0⟩).validate.isOk ||
        decide (Mqtr.payloadFields b = r.1.payloadFields r.2.2.1 ∧ b >>> 4 = r.1.toU8)) = true :=
    Varint.forall_byte (by decide +kernel)
  obtain ⟨b, len⟩ := fh
  -- the remaining length plays no part
  change (FixedHeader.mk b ⟨0⟩).validate = .ok () at hvalid
  change (FixedHeader.mk b ⟨0⟩).unwrap = _ at hu
  have hb := hall b
  rw [hu, hvalid] at hb
  exact of_decide_eq_true hb

theorem validate_of_payloadFields {b : UInt8} {fields : List Field}
    (h : Mqtr.payloadFields b = some fields) (len : VarU32) :
    (FixedHeader.mk b len).validate = .ok () := by
  have hall : ∀ b : UInt8, (Mqtr.payloadFields b).isSome = true →
      (FixedHeader.mk b ⟨0⟩).validate = .ok () := Varint.forall_byte (by decide +kernel)
  exact hall b (by rw [h]; rfl)

theorem decode_iff {s : List UInt8} {fh : FixedHeader} {k : ℕ} :
    decode s = .ok (fh, k) ↔ ∃ rest w, s = fh.byte1 :: rest ∧ decode rest = .ok (fh.remainingLen, w) ∧
      fh.validate = .ok () ∧ k = 1 + w := by
  constructor
  · intro h
    obtain ⟨⟨b, n⟩, hb, h⟩ := bind_eq_ok.mp h
    obtain ⟨⟨len, m⟩, hlen, h⟩ := bind_eq_ok.mp h
    obtain ⟨_, hvalid, h⟩ := bind_eq_ok.mp h
    obtain ⟨rfl, rfl⟩ := Prod.mk.inj (Outcome.ok.inj h)
    cases s with
    | nil => cases hb
    | cons b' rest =>
      obtain ⟨rfl, rfl⟩ := Prod.mk.inj (Outcome.ok.inj hb)
      obtain ⟨-, w, hw, rfl⟩ := decField_eq_ok.mp hlen
      exact ⟨rest, w, rfl, hw, hvalid, rfl⟩
  · rintro ⟨rest, w, rfl, hw, hvalid, rfl⟩
    have hlen : decField VarU32 (fh.byte1 :: rest) 1 = .ok (fh.remainingLen, 1 + w) :=
      decField_eq_ok.mpr ⟨by simp, w, hw, rfl⟩
    exact bind_eq_ok.mpr ⟨(fh.byte1, 1), rfl, bind_eq_ok.mpr ⟨_, hlen, bind_eq_ok.mpr ⟨(), hvalid, rfl⟩⟩⟩

end FixedHeader

namespace Packet

theorem decodeType_panic_iff_extent {s : List UInt8} {fh : FixedHeader} {k : ℕ} {t : PacketType}
    {retain dup : Bool} {qos : QoS} (hfh : decode s = .ok (fh, k))
    (hu : fh.unwrap = .ok (t, retain, qos, dup)) :
    decodeType t s = .panic ↔ ∃ fields, payloadFields fh.byte1 = some fields ∧
      Legible (payloadProperties fh.byte1) fields (s.drop k) ∧
      fh.remainingLen.val.toNat < extent fields (s.drop k) := by
  obtain ⟨hvalid, -, -, hk⟩ := (FixedHeader.decode_valid s).of_ok hfh
  have hheader : decFixedHeader s = .ok (fh, k) := (decFixedHeader_eq s).trans hfh
  obtain ⟨hfields, hshift⟩ := FixedHeader.payloadFields_of_unwrap hvalid hu
  rw [decodeType_panic_iff hfh hu, hfields]
  have hid {σ : Type} [Packetize σ] [Packetize.Bounded σ]
      (hσ : ReadsExactly σ (payloadProperties fh.byte1)) :
      (∃ n m, VarHeader.ends (decIdHeader σ s) = some (n, m) ∧ m < n) ↔
        ∃ fields, some [.word, .properties] = some fields ∧
          Legible (payloadProperties fh.byte1) fields (s.drop k) ∧
          fh.remainingLen.val.toNat < extent fields (s.drop k) := by
    rw [← overrun_iff, decIdHeader_overrun_iff hσ hheader hk]
    simp only [Option.some.injEq, exists_eq_left']
  have hprops : payloadProperties fh.byte1 = payloadProperties (t.toU8 <<< 4) := by
    funext ps
    simp only [payloadProperties, hshift]
    cases t <;> rfl
  cases t with
  | publish =>
    have hσ : ReadsExactly PublishProperties (payloadProperties fh.byte1) :=
      hprops ▸ PublishProperties.readsExactly
    rw [typeEnds, ← overrun_iff, decHeader_overrun_iff hheader hu hσ hk rfl]
    simp only [PacketType.payloadFields, Option.some.injEq, exists_eq_left']
  | subscribe => exact hid (hprops ▸ SubscribeProperties.reader.readsExactly)
  | subAck => exact hid (hprops ▸ SubAckProperties.reader.readsExactly)
  | unSubscribe => exact hid (hprops ▸ UnSubscribeProperties.reader.readsExactly)
  | unsubAck => exact hid (hprops ▸ UnsubAckProperties.reader.readsExactly)
  | _ => simp [typeEnds, PacketType.payloadFields]

theorem decode_panic_iff (s : List UInt8) :
    (decode s : Result (Packet × ℕ)) = .panic ↔
      ∃ byte1 rest w fields, s = byte1 :: rest ∧ Varint.width (rest.take 4) = some w ∧
        payloadFields byte1 = some fields ∧
        Legible (payloadProperties byte1) fields (rest.drop w) ∧
        Varint.value (rest.take w) < extent fields (rest.drop w) := by
  have hvalid := FixedHeader.decode_valid s
  cases hfh : (decode s : Result (FixedHeader × ℕ)) with
  | ok r =>
    obtain ⟨fh, k⟩ := r
    obtain ⟨t, ⟨retain, qos, dup⟩, hu⟩ := FixedHeader.unwrap_of_unwraps (hvalid.of_ok hfh).2.1
    obtain ⟨rest, w, rfl, hlen, -, rfl⟩ := FixedHeader.decode_iff.mp hfh
    obtain ⟨hw, hvalue⟩ := varU32_decode_iff.mp hlen
    have hdrop : (fh.byte1 :: rest).drop (1 + w) = rest.drop w := by
      rw [Nat.add_comm, List.drop_succ_cons]
    rw [decode_eq hfh hu, decodeType_panic_iff_extent hfh hu, hdrop, hvalue]
    constructor
    · rintro ⟨fields, h⟩
      exact ⟨fh.byte1, rest, w, fields, rfl, hw, h⟩
    · rintro ⟨byte1, rest', w', fields, hs, hw', h⟩
      obtain ⟨rfl, rfl⟩ := List.cons.inj hs
      obtain rfl := Option.some.inj (hw.symm.trans hw')
      exact ⟨fields, h⟩
  | err e =>
    have herr : (decode s : Result (Packet × ℕ)) = .err e := by
      change ((decode s : Result (FixedHeader × ℕ)) >>= _) = _
      rw [hfh, err_bind]
    rw [herr]
    refine iff_of_false nofun ?_
    rintro ⟨byte1, rest, w, fields, rfl, hw, hfields, -⟩
    have hlen := (VarU32.decode_eq rest).trans (by rw [hw])
    have hok := FixedHeader.decode_iff.mpr
      ⟨rest, w, rfl, hlen, FixedHeader.validate_of_payloadFields hfields _, rfl⟩
    rw [hfh] at hok
    cases hok
  | panic => exact absurd hfh hvalid.ne_panic

/-- The decoder returns exactly if no packet with legible fields is shorter than they are. -/
theorem decode_total_iff (s : List UInt8) :
    (decode s : Result (Packet × ℕ)) ≠ .panic ↔
      ∀ byte1 rest w fields, s = byte1 :: rest → Varint.width (rest.take 4) = some w →
        payloadFields byte1 = some fields →
        Legible (payloadProperties byte1) fields (rest.drop w) →
        extent fields (rest.drop w) ≤ Varint.value (rest.take w) := by
  rw [Ne, decode_panic_iff]
  push Not
  rfl

/-- A PUBLISH whose remaining length ends before its topic name does. -/
theorem publish_overrun_aborts :
    ¬ ∀ s : List UInt8, (decode s : Result (Packet × ℕ)) ≠ .panic := by
  intro hall
  exact hall [0x30, 0x02, 0x00, 0x01, 0x61, 0x00] (by decide)

end Packet
end Mqtr
