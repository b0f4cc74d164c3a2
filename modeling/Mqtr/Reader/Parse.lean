import Mqtr.Reader.Read
import Mqtr.Wire.Packet

/-! Parsing a complete packet. The reader has a dispatcher of its own, which unwraps the fixed header
before anything has validated it. -/
namespace Mqtr
open Outcome

namespace MQTTRead

/-- One arm of the dispatcher, with the number of bytes used and the number of bytes there are. -/
def parseAs (α : Type) [Packetize α] (wrap : α → Packet) (data : List UInt8) :
    Result (Packet × ℕ × ℕ) := do
  let (pkt, n) ← (decode data : Result (α × ℕ))
  .ok (wrap pkt, n, data.length)

def parseType (pktType : PacketType) (data : List UInt8) : Result (Packet × ℕ × ℕ) :=
  match pktType with
  | .connect => parseAs Connect .connect data
  | .connAck => parseAs ConnAck .connAck data
  | .publish => parseAs Publish .publish data
  | .pubAck => parseAs Pub .pubAck data
  | .pubRec => parseAs Pub .pubRec data
  | .pubRel => parseAs Pub .pubRel data
  | .pubComp => parseAs Pub .pubComp data
  | .subscribe => parseAs Subscribe .subscribe data
  | .subAck => parseAs SubAck .subAck data
  | .unSubscribe => parseAs UnSubscribe .unSubscribe data
  | .unsubAck => parseAs UnsubAck .unsubAck data
  | .pingReq => parseAs PingReq (fun _ => .pingReq) data
  | .pingResp => parseAs PingResp (fun _ => .pingResp) data
  | .disconnect => parseAs Disconnect .disconnect data
  | .auth => parseAs Auth .auth data

def parse : MQTTRead → Result Packet
  | .fin data fh _ => do
    let (pktType, _, _, _) ← fh.unwrap
    let (pkt, n, m) ← parseType pktType data
    if n ≠ m then errCode .malformedPacket .malformedPacket s!"MQTTRead::Fin {n}!={m}"
    else .ok pkt
  | _ => .panic

theorem parseAs_eq (α : Type) [Packetize α] (wrap : α → Packet) (data : List UInt8) :
    parseAs α wrap data =
      (Packet.decAs α wrap data >>= fun r => .ok (r.1, r.2, data.length)) := by
  rw [parseAs, Packet.decAs, bind_assoc]
  rfl

/-- The two dispatchers have the same arms. -/
theorem parseType_eq (t : PacketType) (data : List UInt8) :
    parseType t data =
      (Packet.decodeType t data >>= fun r => .ok (r.1, r.2, data.length)) := by
  cases t <;> simp only [parseType, Packet.decodeType, parseAs_eq]

/-- What becomes of a packet whose fixed header can be unwrapped. -/
theorem parse_of_unwrap {data : List UInt8} {fh : FixedHeader} {t : PacketType}
    {flags : Bool × QoS × Bool} (hu : fh.unwrap = .ok (t, flags)) (maxSize : ℕ) :
    parse (.fin data fh maxSize) = (Packet.decodeType t data >>= fun r =>
      if r.2 ≠ data.length then
        errCode .malformedPacket .malformedPacket
          ("MQTTRead::Fin " ++ toString r.2 ++ "!=" ++ toString data.length)
      else .ok r.1) := by
  rw [parse, hu, ok_bind]
  dsimp only
  rw [parseType_eq, bind_assoc]
  rfl

end MQTTRead

/-- The bytes are one frame, with this fixed header and nothing after it. -/
def IsFrame (data : List UInt8) (fh : FixedHeader) : Prop :=
  ∃ rest m, data = fh.byte1 :: rest ∧ decode rest = .ok (fh.remainingLen, m) ∧
    data.length = 1 + m + fh.remainingLen.val.toNat

/-- Decoding the fixed header of a frame comes down to validating it. -/
theorem IsFrame.decode_header {data : List UInt8} {fh : FixedHeader} (h : IsFrame data fh) :
    ∃ k, (decode data : Result (FixedHeader × ℕ)) = (fh.validate >>= fun _ => .ok (fh, k)) ∧
      data.length = k + fh.remainingLen.val.toNat := by
  obtain ⟨rest, m, rfl, hrest, hlen⟩ := h
  refine ⟨1 + m, ?_, hlen⟩
  have hfirst : decField UInt8 (fh.byte1 :: rest) 0 = .ok (fh.byte1, 1) := rfl
  have hsecond : decField VarU32 (fh.byte1 :: rest) 1 = .ok (fh.remainingLen, 1 + m) := by
    rw [decField, advance_of_le (by simp), ok_bind]
    simp [hrest]
  change (decField UInt8 (fh.byte1 :: rest) 0 >>= _) = _
  rw [hfirst, ok_bind]
  dsimp only
  rw [hsecond, ok_bind]

namespace MQTTRead

/-- `parse` gives the packet that the decoder finds if it uses all the bytes, and an error
otherwise. -/
def Agrees (data : List UInt8) (fh : FixedHeader) (maxSize : ℕ) : Prop :=
  (∃ p, parse (.fin data fh maxSize) = .ok p ∧ decode data = .ok (p, data.length)) ∨
    (∃ e, parse (.fin data fh maxSize) = .err e) ∧
      ∀ p : Packet, decode data ≠ .ok (p, data.length)

/-- With an invalid header both fail. -/
theorem agrees_of_invalid {data : List UInt8} {fh : FixedHeader} {t : PacketType}
    {flags : Bool × QoS × Bool} {e : Error} (hu : fh.unwrap = .ok (t, flags))
    (hd : (decode data : Result (FixedHeader × ℕ)) = .err e) (maxSize : ℕ) :
    Agrees data fh maxSize := by
  right
  constructor
  · refine ⟨e, ?_⟩
    rw [parse_of_unwrap hu, Packet.decodeType_err hd, err_bind]
  · intro p hp
    have herr : (decode data : Result (Packet × ℕ)) = .err e := by
      change ((decode data : Result (FixedHeader × ℕ)) >>= _) = _
      rw [hd, err_bind]
    rw [herr] at hp
    simp at hp

/-- With a valid header they run the same decoder, which returns: the packet ends where the bytes
end, so no payload overruns. -/
theorem agrees_of_valid {data : List UInt8} {fh : FixedHeader} {k : ℕ} {t : PacketType}
    {flags : Bool × QoS × Bool} (hu : fh.unwrap = .ok (t, flags))
    (hd : decode data = .ok (fh, k)) (hlen : data.length = k + fh.remainingLen.val.toNat)
    (maxSize : ℕ) : Agrees data fh maxSize := by
  have hreturns : Packet.decodeType t data ≠ .panic := by
    intro hpanic
    obtain ⟨n, m, hends, hlt⟩ := (Packet.decodeType_panic_iff hd hu).mp hpanic
    obtain ⟨hn, fh', k', hd', rfl⟩ := Packet.typeEnds_within hends
    obtain ⟨rfl, rfl⟩ := Prod.mk.inj (Outcome.ok.inj (hd.symm.trans hd'))
    omega
  unfold Agrees
  rw [parse_of_unwrap hu, Packet.decode_eq hd hu]
  cases hdec : Packet.decodeType t data with
  | ok r =>
    obtain ⟨p, n⟩ := r
    by_cases hn : n = data.length
    · exact .inl ⟨p, by simp [hn], by rw [hn]⟩
    · refine .inr ⟨⟨_, if_pos hn⟩, fun q hq => hn ?_⟩
      exact (Prod.mk.inj (Outcome.ok.inj hq)).2
  | err e => exact .inr ⟨⟨e, rfl⟩, fun _ => nofun⟩
  | panic => exact absurd hdec hreturns

/-- On a frame the two dispatchers agree exactly if the type is not the reserved one and the QoS bits
are not both set. -/
theorem parse_agrees_iff {data : List UInt8} {fh : FixedHeader} (h : IsFrame data fh)
    (maxSize : ℕ) :
    Agrees data fh maxSize ↔
      fh.byte1 >>> 4 ≠ 0 ∧ (fh.byte1 &&& FixedHeader.hdrQos) >>> 1 ≠ 3 := by
  rw [← FixedHeader.unwraps_iff]
  constructor
  · intro hagree hpanic
    have hp : parse (.fin data fh maxSize) = .panic := by
      rw [parse, hpanic, panic_bind]
    rcases hagree with ⟨p, hok, -⟩ | ⟨⟨e, herr⟩, -⟩
    · rw [hp] at hok
      simp at hok
    · rw [hp] at herr
      simp at herr
  · intro hun
    obtain ⟨t, flags, hu⟩ := FixedHeader.unwrap_of_unwraps hun
    obtain ⟨k, hd, hlen⟩ := h.decode_header
    have hv := fh.validate_sat
    cases hvalid : fh.validate with
    | ok u => exact agrees_of_valid hu (by rw [hd, hvalid, ok_bind]) hlen maxSize
    | err e => exact agrees_of_invalid hu (by rw [hd, hvalid, err_bind]) maxSize
    | panic => exact absurd hvalid hv.ne_panic

/-- A PUBACK. -/
theorem parse_agrees_iff_pubAck : Agrees [0x40, 0x02, 0x00, 0x07] ⟨0x40, ⟨2⟩⟩ 16 :=
  (parse_agrees_iff ⟨[0x02, 0x00, 0x07], 1, rfl, rfl, rfl⟩ 16).mpr (by decide)

/-- The reserved packet type: the decoder reports it, `parse` aborts on it. -/
theorem parse_reserved_aborts :
    ¬ ∀ (data : List UInt8) (fh : FixedHeader) (maxSize : ℕ), IsFrame data fh →
      Agrees data fh maxSize := by
  intro hall
  have hframe : IsFrame [0x00, 0x00] ⟨0x00, ⟨0⟩⟩ := ⟨[0x00], 1, rfl, rfl, rfl⟩
  have hpanic : parse (.fin [0x00, 0x00] ⟨0x00, ⟨0⟩⟩ 16) = .panic := rfl
  rcases hall _ _ 16 hframe with ⟨p, hok, -⟩ | ⟨⟨e, herr⟩, -⟩
  · rw [hpanic] at hok
    simp at hok
  · rw [hpanic] at herr
    simp at herr

end MQTTRead
end Mqtr
