import Mqtr.Wire.Encode
import Mqtr.Wire.Packet

/-! Where a decoded packet ends. The five packets with a payload end where the fixed header says. The
others end where their fields do, by the lengths that stand in the fields themselves, and nothing
compares that with the fixed header. -/
namespace Mqtr
open Outcome

/-- The fields of a packet, by how their length is found. -/
inductive Field where
  | byte
  | word
  | long
  | text
  | properties
  deriving DecidableEq, Repr

/-- The number of bytes that a field takes up, judged by its own first bytes. -/
def Field.size (field : Field) (bytes : List UInt8) : ℕ :=
  match field, bytes with
  | .byte, _ => 1
  | .word, _ => 2
  | .long, _ => 4
  | .text, hi :: lo :: _ => 2 + (hi.toNat * 2 ^ 8 + lo.toNat)
  | .text, _ => 2
  | .properties, bytes =>
    match Varint.width (bytes.take 4) with
    | some k => k + Varint.value (bytes.take k)
    | none => 0

/-- The number of bytes that consecutive fields take up. -/
def extent : List Field → List UInt8 → ℕ
  | [], _ => 0
  | field :: fields, bytes =>
    field.size bytes + extent fields (bytes.drop (field.size bytes))

/-- The flags of a CONNECT: the second byte after the protocol name. -/
def connectFlags (bytes : List UInt8) : ConnectFlags :=
  ⟨(bytes.drop (Field.text.size bytes + 1)).headD 0⟩

/-- The fields after the fixed header of a packet without a payload. -/
def fieldsOf (pktType : PacketType) (remainingLen : UInt32) (bytes : List UInt8) : List Field :=
  match pktType with
  | .connect =>
    let flags := connectFlags bytes
    [.text, .byte, .byte, .word, .properties, .text] ++
      (if flags.isWillFlag then [.properties, .text, .text] else []) ++
      (if flags.isUsername then [.text] else []) ++
      (if flags.isPassword then [.text] else [])
  | .connAck => [.byte, .byte, .properties]
  | .pubAck | .pubRec | .pubRel | .pubComp =>
    if remainingLen = 2 then [.word]
    else if remainingLen = 3 then [.word, .byte]
    else [.word, .byte, .properties]
  | .disconnect =>
    if remainingLen = 0 then []
    else if remainingLen < 2 then [.byte]
    else [.byte, .properties]
  | .auth => if remainingLen = 0 then [] else [.byte, .properties]
  | _ => []

def PacketType.hasPayload : PacketType → Bool
  | .publish | .subscribe | .subAck | .unSubscribe | .unsubAck => true
  | _ => false

/-- The fields from position `n` on end at position `m`. -/
def Ends (fields : List Field) (s : List UInt8) (n m : ℕ) : Prop :=
  m = n + extent fields (s.drop n)

theorem Ends.nil (s : List UInt8) (n : ℕ) : Ends [] s n n := rfl

theorem Ends.cons {field : Field} {fields : List Field} {s : List UInt8} {n k m : ℕ}
    (hk : k = n + field.size (s.drop n)) (h : Ends fields s k m) : Ends (field :: fields) s n m := by
  rw [Ends, extent, List.drop_drop, ← hk, ← Nat.add_assoc, ← hk]
  exact h

theorem Ends.append {fields fields' : List Field} {s : List UInt8} {n k m : ℕ}
    (h : Ends fields s n k) (h' : Ends fields' s k m) : Ends (fields ++ fields') s n m := by
  induction fields generalizing n with
  | nil =>
    obtain rfl : k = n := h
    exact h'
  | cons field fields ih =>
    apply Ends.cons rfl
    apply ih
    rw [Ends, extent, List.drop_drop, ← Nat.add_assoc] at h
    exact h

/-- A type whose decoder uses as many bytes as the field takes up. -/
class Packetize.Sized (α : Type) [Packetize α] where
  field : Field
  decode_size {s : List UInt8} {v : α} {n : ℕ} : decode s = .ok (v, n) → n = field.size s

theorem decField_size {α : Type} [Packetize α] [Packetize.Sized α] {s : List UInt8} {v : α} {n m : ℕ}
    (h : decField α s n = .ok (v, m)) : m = n + (Packetize.Sized.field α).size (s.drop n) := by
  obtain ⟨-, k, hv, rfl⟩ := decField_eq_ok.mp h
  rw [Packetize.Sized.decode_size hv]

instance : Packetize.Sized UInt8 where
  field := .byte
  decode_size {s v n} h := by
    cases s with
    | nil => exact absurd h (errCode_ne_ok _ _ _ _)
    | cons b s => exact (Prod.mk.inj (Outcome.ok.inj h)).2.symm

instance : Packetize.Sized UInt16 where
  field := .word
  decode_size {s v n} h := by
    match s with
    | [] | [_] => exact absurd h (errCode_ne_ok _ _ _ _)
    | a :: b :: s => exact (Prod.mk.inj (Outcome.ok.inj h)).2.symm

theorem text_size {s : List UInt8} {len : UInt16} {k : ℕ} (h : decode s = .ok (len, k)) :
    Field.text.size s = 2 + len.toNat := by
  match s with
  | [] | [_] => exact absurd h (errCode_ne_ok _ _ _ _)
  | hi :: lo :: s =>
    obtain ⟨rfl, -⟩ := Prod.mk.inj (Outcome.ok.inj h)
    rw [toNat_be16]
    rfl

instance : Packetize.Sized String where
  field := .text
  decode_size {s v n} h := by
    obtain ⟨⟨len, k⟩, hlen, h⟩ := bind_eq_ok.mp h
    rw [text_size hlen]
    dsimp only at h
    split_ifs at h
    · exact absurd h (errCode_ne_ok _ _ _ _)
    · obtain ⟨bytes, -, h⟩ := bind_eq_ok.mp h
      split at h
      next =>
        split_ifs at h
        · exact (Prod.mk.inj (Outcome.ok.inj h)).2.symm
        · exact absurd h (errCode_ne_ok _ _ _ _)
      next => exact absurd h (errCode_ne_ok _ _ _ _)

instance : Packetize.Sized (List UInt8) where
  field := .text
  decode_size {s v n} h := by
    obtain ⟨⟨len, k⟩, hlen, h⟩ := bind_eq_ok.mp h
    rw [text_size hlen]
    dsimp only at h
    split_ifs at h
    · exact absurd h (errCode_ne_ok _ _ _ _)
    · obtain ⟨bytes, -, h⟩ := bind_eq_ok.mp h
      exact (Prod.mk.inj (Outcome.ok.inj h)).2.symm

instance : Packetize.Sized TopicName where
  field := .text
  decode_size h := Packetize.Sized.decode_size (TopicName.decode_eq_ok.mp h).1

instance : Packetize.Sized ConnackFlags where
  field := .byte
  decode_size h := (ConnackFlags.decode_eq_ok.mp h).2.2

instance : Packetize.Sized ConnectFlags where
  field := .byte
  decode_size h := (ConnectFlags.decode_eq_ok.mp h).2.2

/-- A number of at most four bytes. -/
theorem varint_value_lt {s : List UInt8} {k : ℕ} (h : Varint.width (s.take 4) = some k) :
    Varint.value (s.take k) < 2 ^ 32 := by
  have hk : k ≤ 4 := (Varint.width_bounds h).2.trans (List.length_take_le _ _)
  calc Varint.value (s.take k) < 128 ^ (s.take k).length := Varint.value_lt _
    _ ≤ 128 ^ 4 := Nat.pow_le_pow_right (by decide) ((List.length_take_le _ _).trans hk)
    _ < 2 ^ 32 := by decide

theorem varU32_decode_iff {s : List UInt8} {len : VarU32} {k : ℕ} :
    decode s = .ok (len, k) ↔
      Varint.width (s.take 4) = some k ∧ len.val.toNat = Varint.value (s.take k) := by
  rw [VarU32.decode_eq]
  cases hw : Varint.width (s.take 4) with
  | none => exact iff_of_false (errCode_ne_ok _ _ _ _) (by simp)
  | some j =>
    constructor
    · intro h
      obtain ⟨rfl, rfl⟩ := Prod.mk.inj (Outcome.ok.inj h)
      exact ⟨rfl, by rw [UInt32.toNat_ofNat', Nat.mod_eq_of_lt (varint_value_lt hw)]⟩
    · rintro ⟨hk, hlen⟩
      obtain rfl := Option.some.inj hk
      dsimp only
      rw [← hlen, UInt32.ofNat_toNat]

theorem properties_size {s : List UInt8} {len : VarU32} {k : ℕ} (h : decode s = .ok (len, k)) :
    Field.properties.size s = k + len.val.toNat := by
  obtain ⟨hk, hlen⟩ := varU32_decode_iff.mp h
  simp only [Field.size, hk, hlen]

theorem decProps_size {α : Type} [Packetize α] {s : List UInt8} {x : Option α} {n m : ℕ}
    (h : decProps α s n = .ok (x, m)) : m = n + Field.properties.size (s.drop n) := by
  obtain ⟨rest, hrest, h⟩ := bind_eq_ok.mp h
  obtain ⟨-, rfl⟩ := (advance_sat s n).of_ok hrest
  obtain ⟨⟨len, k⟩, hlen, h⟩ := bind_eq_ok.mp h
  rw [properties_size hlen]
  dsimp only at h
  split_ifs at h with hzero
  · obtain ⟨-, rfl⟩ := Prod.mk.inj (Outcome.ok.inj h)
    rw [hzero]
    rfl
  · obtain ⟨_, -, h⟩ := bind_eq_ok.mp h
    obtain ⟨⟨y, r⟩, -, h⟩ := bind_eq_ok.mp h
    dsimp only at h
    split_ifs at h with hr
    · obtain ⟨-, rfl⟩ := Prod.mk.inj (Outcome.ok.inj h)
      rw [hr]
    · exact absurd h (errCode_ne_ok _ _ _ _)

section Ends
variable {α : Type} [Packetize α] {s : List UInt8} {n m : ℕ}

theorem decField_ends [Packetize.Sized α] {v : α} (h : decField α s n = .ok (v, m)) :
    Ends [Packetize.Sized.field α] s n m :=
  .cons (decField_size h) (.nil s m)

theorem decProps_ends {x : Option α} (h : decProps α s n = .ok (x, m)) :
    Ends [.properties] s n m :=
  .cons (decProps_size h) (.nil s m)

theorem decFieldIf_ends [Packetize.Sized α] {v : Option α} {pred : Bool}
    (h : decFieldIf α s n pred = .ok (v, m)) :
    Ends (if pred then [Packetize.Sized.field α] else []) s n m := by
  unfold decFieldIf at h
  split_ifs at h ⊢
  · obtain ⟨⟨val, k⟩, hval, h⟩ := bind_eq_ok.mp h
    obtain ⟨-, rfl⟩ := Prod.mk.inj (Outcome.ok.inj h)
    exact decField_ends hval
  · obtain ⟨-, rfl⟩ := Prod.mk.inj (Outcome.ok.inj h)
    exact .nil s n

end Ends

section Packets
variable {s : List UInt8} {fh : FixedHeader} {k n : ℕ}

theorem flags_eq {flags : ConnectFlags} {m : ℕ} (h : decField ConnectFlags s n = .ok (flags, m)) :
    flags = ⟨(s.drop n).headD 0⟩ := by
  obtain ⟨-, k, hflags, -⟩ := decField_eq_ok.mp h
  obtain ⟨⟨rest, hs⟩, -, -⟩ := ConnectFlags.decode_eq_ok.mp hflags
  rw [hs]
  rfl

theorem Connect.ends {pkt : Connect} (hfh : decFixedHeader s = .ok (fh, k))
    (h : decode s = .ok (pkt, n)) :
    Ends (fieldsOf .connect fh.remainingLen.val (s.drop k)) s k n := by
  obtain ⟨_, hfh', h⟩ := bind_eq_ok.mp h
  obtain rfl := Outcome.ok.inj (hfh.symm.trans hfh')
  obtain ⟨⟨name, n₁⟩, hname, h⟩ := bind_eq_ok.mp h
  obtain ⟨⟨val, n₂⟩, hval, h⟩ := bind_eq_ok.mp h
  obtain ⟨version, -, h⟩ := bind_eq_ok.mp h
  obtain ⟨⟨flags, n₃⟩, hflags, h⟩ := bind_eq_ok.mp h
  obtain ⟨⟨alive, n₄⟩, halive, h⟩ := bind_eq_ok.mp h
  obtain ⟨⟨properties, n₅⟩, hprops, h⟩ := bind_eq_ok.mp h
  obtain ⟨⟨client, n₆⟩, hclient, h⟩ := bind_eq_ok.mp h
  obtain ⟨⟨wprops, n₇⟩, hwprops, h⟩ := bind_eq_ok.mp h
  obtain ⟨⟨topic, n₈⟩, htopic, h⟩ := bind_eq_ok.mp h
  obtain ⟨⟨will, n₉⟩, hwill, h⟩ := bind_eq_ok.mp h
  obtain ⟨⟨user, n₁₀⟩, huser, h⟩ := bind_eq_ok.mp h
  obtain ⟨⟨pass, n₁₁⟩, hpass, h⟩ := bind_eq_ok.mp h
  obtain ⟨_, -, h⟩ := bind_eq_ok.mp h
  obtain ⟨-, rfl⟩ := Prod.mk.inj (Outcome.ok.inj h)
  have hconnect : connectFlags (s.drop k) = flags := by
    have hn₁ := decField_size hname
    have hn₂ : n₂ = n₁ + 1 := decField_size hval
    have hdrop : k + (Field.text.size (s.drop k) + 1) = n₂ := by
      rw [hn₂, hn₁, Nat.add_assoc]
      rfl
    rw [connectFlags, List.drop_drop, hdrop, ← flags_eq hflags]
  have hhead : Ends [.text, .byte, .byte, .word, .properties, .text] s k n₆ :=
    (decField_ends hname).append ((decField_ends hval).append ((decField_ends hflags).append
      ((decField_ends halive).append ((decProps_ends hprops).append (decField_ends hclient)))))
  have hwillEnds : Ends (if flags.isWillFlag then [.properties, .text, .text] else []) s n₆ n₉ := by
    cases hflag : flags.isWillFlag with
    | true =>
      rw [hflag] at hwprops htopic hwill
      exact (decProps_ends hwprops).append
        ((decFieldIf_ends htopic).append (decFieldIf_ends hwill))
    | false =>
      rw [hflag] at hwprops htopic hwill
      obtain ⟨-, rfl⟩ := Prod.mk.inj (Outcome.ok.inj hwprops)
      obtain ⟨-, rfl⟩ := Prod.mk.inj (Outcome.ok.inj htopic)
      obtain ⟨-, rfl⟩ := Prod.mk.inj (Outcome.ok.inj hwill)
      exact .nil s _
  rw [fieldsOf, hconnect]
  exact ((hhead.append hwillEnds).append (decFieldIf_ends huser)).append (decFieldIf_ends hpass)

theorem CodeThenProps.ends {α : Type} [Packetize α] {properties : Option α}
    (h : CodeThenProps α s k n properties) : Ends [.byte, .properties] s k n := by
  obtain ⟨val, m, hval, hprops⟩ := h
  exact (decField_ends hval).append (decProps_ends hprops)

theorem ConnAck.ends {pkt : ConnAck} (hfh : decFixedHeader s = .ok (fh, k))
    (h : decode s = .ok (pkt, n)) : Ends [.byte, .byte, .properties] s k n := by
  obtain ⟨m, hflags, hcode⟩ := decode_eq_ok hfh h
  exact (decField_ends hflags).append hcode.ends

theorem Disconnect.ends {pkt : Disconnect} (hfh : decFixedHeader s = .ok (fh, k))
    (h : decode s = .ok (pkt, n)) :
    Ends (fieldsOf .disconnect fh.remainingLen.val (s.drop k)) s k n := by
  unfold fieldsOf
  dsimp only
  rcases decode_eq_ok hfh h with ⟨hzero, -, rfl⟩ | ⟨hzero, hone, -, val, hval⟩ | ⟨hzero, hone, hcode⟩
  · rw [if_pos hzero]
    exact .nil s n
  · rw [if_neg hzero, if_pos hone]
    exact decField_ends hval
  · rw [if_neg hzero, if_neg hone]
    exact hcode.ends

theorem Auth.ends {pkt : Auth} (hfh : decFixedHeader s = .ok (fh, k))
    (h : decode s = .ok (pkt, n)) :
    Ends (fieldsOf .auth fh.remainingLen.val (s.drop k)) s k n := by
  unfold fieldsOf
  dsimp only
  rcases decode_eq_ok hfh h with ⟨hzero, -, rfl⟩ | ⟨hzero, hcode⟩
  · rw [if_pos hzero]
    exact .nil s n
  · rw [if_neg hzero]
    exact hcode.ends

theorem Pub.ends {pkt : Pub} {t : PacketType} (ht : IsPub t) (hfh : decFixedHeader s = .ok (fh, k))
    (h : decode s = .ok (pkt, n)) : Ends (fieldsOf t fh.remainingLen.val (s.drop k)) s k n := by
  obtain ⟨-, _, _, id, m, -, hid, hfields⟩ := decode_eq_ok hfh h
  have hshape : fieldsOf t fh.remainingLen.val (s.drop k) =
      fieldsOf .pubAck fh.remainingLen.val (s.drop k) := by
    rcases ht with rfl | rfl | rfl | rfl <;> rfl
  rw [hshape, fieldsOf]
  obtain ⟨-, ⟨htwo, -, rfl⟩ | ⟨htwo, hthree, -, val, hval⟩ | ⟨htwo, hthree, hcode⟩⟩ :=
    decFields_eq_ok hfields
  · rw [if_pos htwo]
    exact decField_ends hid
  · rw [if_neg htwo, if_pos hthree]
    exact (decField_ends hid).append (decField_ends hval)
  · rw [if_neg htwo, if_neg hthree]
    exact (decField_ends hid).append hcode.ends

/-- A packet with a payload ends where the fixed header says. -/
theorem payload_end {α β γ : Type} {header : Result (VarHeader α)}
    {empty short : VarHeader α → Result (β × ℕ)} {wrap : List UInt8 → β}
    {tail : VarHeader α → β × ℕ → Result (γ × ℕ)} {r : γ × ℕ}
    (hheader : header.Sat (VarHeader.Within s)) (hfh : decode s = .ok (fh, k))
    (hempty : ∀ hdr r, empty hdr = .ok r → r.2 = hdr.fieldsEnd) (hshort : ∀ hdr r, short hdr ≠ .ok r)
    (htail : ∀ hdr x r, tail hdr x = .ok r → r.2 = x.2)
    (h : (header >>= fun hdr =>
      cutPayload s hdr.fieldsEnd hdr.packetEnd (empty hdr) wrap (short hdr) >>= tail hdr) = .ok r) :
    r.2 = k + fh.remainingLen.val.toNat := by
  obtain ⟨hdr, hhdr, h⟩ := bind_eq_ok.mp h
  obtain ⟨x, hcut, h⟩ := bind_eq_ok.mp h
  obtain ⟨-, fh', k', hfh', hend⟩ := hheader.of_ok hhdr
  obtain ⟨rfl, rfl⟩ := Prod.mk.inj (Outcome.ok.inj (hfh.symm.trans hfh'))
  rw [htail hdr x r h, ← hend]
  unfold cutPayload at hcut
  split_ifs at hcut with heq
  · rw [hempty hdr x hcut, heq]
  · obtain ⟨payload, -, hcut⟩ := bind_eq_ok.mp hcut
    rw [← Outcome.ok.inj hcut]
  · exact absurd hcut (hshort hdr x)

theorem Publish.ends {r : Publish × ℕ} (hfh : decode s = .ok (fh, k)) (h : decode s = .ok r) :
    r.2 = k + fh.remainingLen.val.toNat := by
  refine payload_end (decHeader_sat s) hfh ?_ (fun _ _ => errCode_ne_ok _ _ _ _) ?_ h
  · rintro hdr _ ⟨⟩
    rfl
  · intro hdr x r h
    obtain ⟨_, -, h⟩ := bind_eq_ok.mp h
    rw [← Outcome.ok.inj h]

theorem Subscribe.ends {r : Subscribe × ℕ} (hfh : decode s = .ok (fh, k)) (h : decode s = .ok r) :
    r.2 = k + fh.remainingLen.val.toNat := by
  refine payload_end (decIdHeader_sat _ s) hfh (fun _ _ h => absurd h (errCode_ne_ok _ _ _ _))
    (fun _ _ => errCode_ne_ok _ _ _ _) ?_ h
  intro hdr x r h
  obtain ⟨_, -, h⟩ := bind_eq_ok.mp h
  obtain ⟨_, -, h⟩ := bind_eq_ok.mp h
  rw [← Outcome.ok.inj h]

theorem SubAck.ends {r : SubAck × ℕ} (hfh : decode s = .ok (fh, k)) (h : decode s = .ok r) :
    r.2 = k + fh.remainingLen.val.toNat := by
  refine payload_end (decIdHeader_sat _ s) hfh (fun _ _ h => absurd h (errCode_ne_ok _ _ _ _))
    (fun _ _ => errCode_ne_ok _ _ _ _) ?_ h
  intro hdr x r h
  obtain ⟨_, -, h⟩ := bind_eq_ok.mp h
  rw [← Outcome.ok.inj h]

theorem UnSubscribe.ends {r : UnSubscribe × ℕ} (hfh : decode s = .ok (fh, k))
    (h : decode s = .ok r) : r.2 = k + fh.remainingLen.val.toNat := by
  refine payload_end (decIdHeader_sat _ s) hfh (fun _ _ h => absurd h (errCode_ne_ok _ _ _ _))
    (fun _ _ => errCode_ne_ok _ _ _ _) ?_ h
  intro hdr x r h
  obtain ⟨_, -, h⟩ := bind_eq_ok.mp h
  obtain ⟨_, -, h⟩ := bind_eq_ok.mp h
  rw [← Outcome.ok.inj h]

theorem UnsubAck.ends {r : UnsubAck × ℕ} (hfh : decode s = .ok (fh, k)) (h : decode s = .ok r) :
    r.2 = k + fh.remainingLen.val.toNat := by
  refine payload_end (decIdHeader_sat _ s) hfh (fun _ _ h => absurd h (errCode_ne_ok _ _ _ _))
    (fun _ _ => errCode_ne_ok _ _ _ _) ?_ h
  intro hdr x r h
  obtain ⟨_, -, h⟩ := bind_eq_ok.mp h
  rw [← Outcome.ok.inj h]

end Packets

namespace Packet

/-- A packet without a payload ends where its fields do. -/
theorem decodeType_ends {s : List UInt8} {fh : FixedHeader} {k n : ℕ} {t : PacketType} {p : Packet}
    (ht : t.hasPayload = false) (hfh : decode s = .ok (fh, k)) (h : decodeType t s = .ok (p, n)) :
    n = k + extent (fieldsOf t fh.remainingLen.val (s.drop k)) (s.drop k) := by
  have hheader : decFixedHeader s = .ok (fh, k) := (decFixedHeader_eq s).trans hfh
  cases t with
  | connect =>
    obtain ⟨pkt, hpkt, -⟩ := decAs_eq_ok h
    exact Connect.ends hheader hpkt
  | connAck =>
    obtain ⟨pkt, hpkt, -⟩ := decAs_eq_ok h
    exact ConnAck.ends hheader hpkt
  | pubAck | pubRec | pubRel | pubComp =>
    obtain ⟨pkt, hpkt, -⟩ := decAs_eq_ok h
    exact Pub.ends (by simp [Pub.IsPub]) hheader hpkt
  | pingReq | pingResp =>
    obtain ⟨⟨pkt, m⟩, hpkt, h⟩ := bind_eq_ok.mp h
    obtain ⟨-, rfl⟩ := Prod.mk.inj (Outcome.ok.inj h)
    obtain ⟨_, hfh', hpkt⟩ := bind_eq_ok.mp hpkt
    obtain rfl := Outcome.ok.inj (hheader.symm.trans hfh')
    exact (Prod.mk.inj (Outcome.ok.inj hpkt)).2.symm
  | disconnect =>
    obtain ⟨pkt, hpkt, -⟩ := decAs_eq_ok h
    exact Disconnect.ends hheader hpkt
  | auth =>
    obtain ⟨pkt, hpkt, -⟩ := decAs_eq_ok h
    exact Auth.ends hheader hpkt
  | publish | subscribe | subAck | unSubscribe | unsubAck => exact absurd ht (by decide)

theorem decodeType_end_of_payload {s : List UInt8} {fh : FixedHeader} {k n : ℕ} {t : PacketType}
    {p : Packet} (ht : t.hasPayload = true) (hfh : decode s = .ok (fh, k))
    (h : decodeType t s = .ok (p, n)) : n = k + fh.remainingLen.val.toNat := by
  cases t with
  | publish =>
    obtain ⟨pkt, hpkt, -⟩ := decAs_eq_ok h
    exact Publish.ends hfh hpkt
  | subscribe =>
    obtain ⟨pkt, hpkt, -⟩ := decAs_eq_ok h
    exact Subscribe.ends hfh hpkt
  | subAck =>
    obtain ⟨pkt, hpkt, -⟩ := decAs_eq_ok h
    exact SubAck.ends hfh hpkt
  | unSubscribe =>
    obtain ⟨pkt, hpkt, -⟩ := decAs_eq_ok h
    exact UnSubscribe.ends hfh hpkt
  | unsubAck =>
    obtain ⟨pkt, hpkt, -⟩ := decAs_eq_ok h
    exact UnsubAck.ends hfh hpkt
  | _ => exact absurd ht (by decide)

theorem confined_iff {s : List UInt8} {p : Packet} {n k : ℕ} {fh : FixedHeader} {t : PacketType}
    {flags : Bool × QoS × Bool} (h : decode s = .ok (p, n)) (hfh : decode s = .ok (fh, k))
    (hu : fh.unwrap = .ok (t, flags)) :
    n = k + fh.remainingLen.val.toNat ↔
      t.hasPayload = true ∨
        extent (fieldsOf t fh.remainingLen.val (s.drop k)) (s.drop k) =
          fh.remainingLen.val.toNat := by
  rw [decode_eq hfh hu] at h
  cases ht : t.hasPayload with
  | true => simp [decodeType_end_of_payload ht hfh h]
  | false =>
    have hend := decodeType_ends ht hfh h
    constructor
    · intro hn
      right
      omega
    · rintro (hpayload | hextent)
      · exact absurd hpayload (by decide)
      · omega

/-- A CONNACK whose properties fill the packet. -/
theorem confined_connAck :
    decode [0x20, 0x06, 0x00, 0x00, 0x03, 0x21, 0x00, 0x0a] =
        .ok (Packet.connAck ⟨⟨0⟩, .success, some { receiveMaximum := some 10 }⟩, 8) ∧
      8 = 2 + (FixedHeader.mk 0x20 ⟨6⟩).remainingLen.val.toNat := by
  have h : decode [0x20, 0x06, 0x00, 0x00, 0x03, 0x21, 0x00, 0x0a] =
      .ok (Packet.connAck ⟨⟨0⟩, .success, some { receiveMaximum := some 10 }⟩, 8) := by decide
  exact ⟨h, (confined_iff h (by decide) (show (FixedHeader.mk 0x20 ⟨6⟩).unwrap =
    .ok (.connAck, false, .atMostOnce, false) by decide)).mpr (.inr (by decide))⟩

/-- A PINGREQ that announces one more byte is left after two. -/
theorem pingReq_stops_short :
    ¬ ∀ (s : List UInt8) (p : Packet) (n : ℕ) (fh : FixedHeader) (k : ℕ), decode s = .ok (p, n) →
      decode s = .ok (fh, k) → n = k + fh.remainingLen.val.toNat := by
  intro hall
  have hping := hall [0xc0, 0x01, 0x00] .pingReq 2 ⟨0xc0, ⟨1⟩⟩ 2 (by decide) (by decide)
  exact absurd hping (by decide)

end Packet
end Mqtr
