import Mqtr.Wire.EncodePacket

/-! The fixed header of an encoded packet announces the bytes that follow it. How long a header is, is
worked out in two places, by the encoder and by `len`; they part at the largest remaining length. -/
namespace Mqtr
open Outcome Codec

namespace FixedHeader

def len (self : FixedHeader) : Result ℕ := do
  let n := self.remainingLen.val
  let width ←
    if n < 128 then .ok 1
    else if n < 16384 then .ok 2
    else if n < 2097152 then .ok 3
    -- the encoder has this bound included
    else if n < VarU32.max then .ok 4
    else
      errCode .malformedPacket .malformedPacket ("FixedHeader, remaining-len " ++ toString n)
  .ok (1 + width)

/-- Below the largest remaining length the two cascades of bounds agree. -/
theorem len_of_encode {self : FixedHeader} {b : List UInt8} (h : encode self.remainingLen = .ok b)
    (hmax : self.remainingLen.val ≠ VarU32.max) : self.len = .ok (1 + b.length) := by
  simp only [encode] at h
  unfold len
  dsimp only
  split_ifs at h with h₁ h₂ h₃ h₄
  · cases h
    simp [h₁]
  · cases h
    simp [h₁, h₂]
  · cases h
    simp [h₁, h₂, h₃]
  · cases h
    have hlt : self.remainingLen.val < VarU32.max := UInt32.lt_of_le_of_ne h₄ hmax
    simp [h₁, h₂, h₃, hlt]
  · cases h

theorem len_eq_err {self : FixedHeader} (h : VarU32.max ≤ self.remainingLen.val) :
    ∃ e, self.len = .err e := by
  have h₁ : ¬ self.remainingLen.val < 128 := UInt32.not_lt.mpr (UInt32.le_trans (by decide) h)
  have h₂ : ¬ self.remainingLen.val < 16384 := UInt32.not_lt.mpr (UInt32.le_trans (by decide) h)
  have h₃ : ¬ self.remainingLen.val < 2097152 := UInt32.not_lt.mpr (UInt32.le_trans (by decide) h)
  rw [len, if_neg h₁, if_neg h₂, if_neg h₃, if_neg (UInt32.not_lt.mpr h)]
  exact ⟨_, rfl⟩

/-- The computed length is that of the header as it is written; it is an error for a header that cannot
be written because of its remaining length. -/
def LenAgrees (self : FixedHeader) : Prop :=
  (∀ b, encode self = .ok b → self.len = .ok b.length) ∧
    ∀ e, encode self = .err e → encode self.remainingLen = .err e → ∃ e', self.len = .err e'

theorem encode_eq_ok {self : FixedHeader} {b : List UInt8} :
    encode self = .ok b ↔
      self.validate = .ok () ∧ ∃ bytes, encode self.remainingLen = .ok bytes ∧
        b = self.byte1 :: bytes := by
  constructor
  · intro h
    obtain ⟨_, hvalid, h⟩ := bind_eq_ok.mp h
    obtain ⟨bytes, hbytes, h⟩ := bind_eq_ok.mp h
    exact ⟨hvalid, bytes, hbytes, (Outcome.ok.inj h).symm⟩
  · rintro ⟨hvalid, bytes, hbytes, rfl⟩
    show (self.validate >>= _) = _
    rw [hvalid, ok_bind, hbytes]
    rfl

/-- The two agree on every header but those with the largest remaining length. -/
theorem lenAgrees_iff (self : FixedHeader) :
    self.LenAgrees ↔ ¬ (self.validate = .ok () ∧ self.remainingLen.val = VarU32.max) := by
  constructor
  · rintro ⟨hwritten, -⟩ ⟨hvalid, hmax⟩
    obtain ⟨bytes, hbytes⟩ := VarU32.encode_of_le (UInt32.le_of_eq hmax)
    have hlen := hwritten _ (encode_eq_ok.mpr ⟨hvalid, bytes, hbytes, rfl⟩)
    obtain ⟨e, he⟩ := len_eq_err (UInt32.le_of_eq hmax.symm)
    rw [he] at hlen
    cases hlen
  · intro hne
    constructor
    · intro b hb
      obtain ⟨hvalid, bytes, hbytes, rfl⟩ := encode_eq_ok.mp hb
      rw [len_of_encode hbytes fun hmax => hne ⟨hvalid, hmax⟩, List.length_cons, Nat.add_comm]
    · intro e _ hlen
      -- a number that is not written is above the largest one
      have hlarge : ¬ self.remainingLen.val ≤ VarU32.max := fun hle => by
        obtain ⟨bytes, hbytes⟩ := VarU32.encode_of_le hle
        rw [hbytes] at hlen
        cases hlen
      exact len_eq_err (UInt32.le_of_lt (UInt32.not_le.mp hlarge))

theorem largest_header_has_no_len : ¬ ∀ self : FixedHeader, self.LenAgrees := by
  intro h
  have hlen : FixedHeader.len ⟨0x30, ⟨268435455⟩⟩ = .ok 5 :=
    (h ⟨0x30, ⟨268435455⟩⟩).1 [0x30, 0xFF, 0xFF, 0xFF, 0x7F] rfl
  cases hlen

end FixedHeader

/-- A header as it is written, and as many bytes behind it as it announces. -/
def IsFramed (b : List UInt8) : Prop :=
  ∃ (fh : FixedHeader) (head data : List UInt8), encode fh = .ok head ∧ b = head ++ data ∧
    fh.remainingLen.val.toNat = data.length

/-- A constructor of headers that takes the remaining length as it is. -/
def KeepsLen (newHeader : VarU32 → Result FixedHeader) : Prop :=
  ∀ remainingLen fh, newHeader remainingLen = .ok fh → fh.remainingLen = remainingLen

section
variable {newHeader : VarU32 → Result FixedHeader} {data b : List UInt8}

theorem keepsLen_withByte (byte1 : UInt8) : KeepsLen (FixedHeader.withByte byte1) := by
  intro remainingLen fh h
  unfold FixedHeader.withByte at h
  split_ifs at h
  · cases h
  · cases h
    rfl

theorem keepsLen_newHeader (t : PacketType) : KeepsLen (Pub.newHeader t) := by
  cases t with
  | pubAck | pubRec | pubRel | pubComp => exact keepsLen_withByte _
  | _ => exact fun _ _ h => absurd h nofun

theorem isFramed_of_frame (hkeeps : KeepsLen newHeader) (h : frame newHeader data = .ok b) :
    IsFramed b := by
  obtain ⟨remlen, hlen, h⟩ := bind_eq_ok.mp h
  obtain ⟨fh, hfh, h⟩ := bind_eq_ok.mp h
  rw [insertFixedHeader_eq] at h
  obtain ⟨head, hhead, h⟩ := bind_eq_ok.mp h
  refine ⟨fh, head, data, hhead, (Outcome.ok.inj h).symm, ?_⟩
  rw [hkeeps _ _ hfh]
  exact u32TryFrom_eq_ok hlen

/-- A packet that is a header only. -/
theorem isFramed_of_header (hkeeps : KeepsLen newHeader)
    (h : (newHeader ⟨0⟩ >>= fun fh => encode fh) = .ok b) : IsFramed b := by
  obtain ⟨fh, hfh, h⟩ := bind_eq_ok.mp h
  refine ⟨fh, b, [], h, (List.append_nil b).symm, ?_⟩
  rw [hkeeps _ _ hfh]
  rfl

theorem IsFramed.ne_nil (h : IsFramed b) : b ≠ [] := by
  obtain ⟨fh, head, data, hhead, rfl, -⟩ := h
  have hpos : 0 < head.length := encode_pos hhead
  exact List.append_ne_nil_of_left_ne_nil (List.length_pos_iff.mp hpos) data

theorem IsFramed.decode (h : IsFramed b) :
    ∃ fh k, Mqtr.decode b = .ok (fh, k) ∧ FixedHeader.validate fh = .ok () ∧
      k + fh.remainingLen.val.toNat = b.length := by
  obtain ⟨fh, head, data, hhead, rfl, hlen⟩ := h
  obtain ⟨hvalid, -⟩ := FixedHeader.encode_eq_ok.mp hhead
  refine ⟨fh, head.length, decode_encode hhead data, hvalid, ?_⟩
  rw [hlen, List.length_append]

end

namespace Packet

/-- Every encoder ends by putting a header in front of what it has written. -/
theorem isFramed {p : Packet} {b : List UInt8} (h : encode p = .ok b) : IsFramed b := by
  cases p with
  | connect pkt =>
    obtain ⟨_, -, h⟩ := bind_eq_ok.mp h
    obtain ⟨data, -, h⟩ := bind_eq_ok.mp h
    exact isFramed_of_frame (keepsLen_withByte _) h
  | subscribe pkt =>
    obtain ⟨_, -, h⟩ := bind_eq_ok.mp h
    obtain ⟨data, -, h⟩ := bind_eq_ok.mp h
    exact isFramed_of_frame (keepsLen_withByte _) h
  | pubAck pkt | pubRec pkt | pubRel pkt | pubComp pkt =>
    obtain ⟨data, -, h⟩ := bind_eq_ok.mp h
    exact isFramed_of_frame (keepsLen_newHeader _) h
  | pingReq | pingResp => exact isFramed_of_header (keepsLen_withByte _) h
  | connAck pkt | publish pkt | subAck pkt | unSubscribe pkt | unsubAck pkt | disconnect pkt
  | auth pkt =>
    obtain ⟨data, -, h⟩ := bind_eq_ok.mp h
    exact isFramed_of_frame (keepsLen_withByte _) h

/-- An encoded packet starts with a valid header, which announces exactly the bytes behind it. -/
theorem decode_header_of_encode {p : Packet} {b : List UInt8} (h : encode p = .ok b) :
    ∃ fh k, decode b = .ok (fh, k) ∧ FixedHeader.validate fh = .ok () ∧
      k + fh.remainingLen.val.toNat = b.length :=
  (isFramed h).decode

theorem decode_header_of_encode_pubAck :
    encode (Packet.pubAck ⟨.pubAck, 7, .success, none⟩) = .ok [0x40, 4, 0, 7, 0, 0] ∧
      ∃ fh k, decode [0x40, 4, 0, 7, 0, 0] = .ok (fh, k) ∧ FixedHeader.validate fh = .ok () ∧
        k + fh.remainingLen.val.toNat = 6 :=
  ⟨rfl, decode_header_of_encode (p := .pubAck ⟨.pubAck, 7, .success, none⟩) rfl⟩

end Packet
end Mqtr
