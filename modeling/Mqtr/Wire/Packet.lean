import Mqtr.Wire.Publication

/-! All packets, and the decoder that goes by the packet type. It aborts exactly on the packets whose
payload would end before it begins. -/
namespace Mqtr
open Outcome

inductive Packet where
  | connect (pkt : Connect)
  | connAck (pkt : ConnAck)
  | publish (pkt : Publish)
  | pubAck (pkt : Pub)
  | pubRec (pkt : Pub)
  | pubRel (pkt : Pub)
  | pubComp (pkt : Pub)
  | subscribe (pkt : Subscribe)
  | subAck (pkt : SubAck)
  | unSubscribe (pkt : UnSubscribe)
  | unsubAck (pkt : UnsubAck)
  | pingReq
  | pingResp
  | disconnect (pkt : Disconnect)
  | auth (pkt : Auth)
  deriving DecidableEq, Repr

namespace Packet

/-- One arm of the dispatcher: decode a packet of one kind. -/
def decAs (α : Type) [Packetize α] (wrap : α → Packet) (stream : List UInt8) :
    Result (Packet × ℕ) := do
  let (pkt, n) ← (decode stream : Result (α × ℕ))
  .ok (wrap pkt, n)

def decodeType (pktType : PacketType) (stream : List UInt8) : Result (Packet × ℕ) :=
  match pktType with
  | .connect => decAs Connect .connect stream
  | .connAck => decAs ConnAck .connAck stream
  | .publish => decAs Publish .publish stream
  | .pubAck => decAs Pub .pubAck stream
  | .pubRec => decAs Pub .pubRec stream
  | .pubRel => decAs Pub .pubRel stream
  | .pubComp => decAs Pub .pubComp stream
  | .subscribe => decAs Subscribe .subscribe stream
  | .subAck => decAs SubAck .subAck stream
  | .unSubscribe => decAs UnSubscribe .unSubscribe stream
  | .unsubAck => decAs UnsubAck .unsubAck stream
  | .pingReq => decAs PingReq (fun _ => .pingReq) stream
  | .pingResp => decAs PingResp (fun _ => .pingResp) stream
  | .disconnect => decAs Disconnect .disconnect stream
  | .auth => decAs Auth .auth stream

def toPacketType : Packet → PacketType
  | .connect _ => .connect
  | .connAck _ => .connAck
  | .publish _ => .publish
  | .pubAck _ => .pubAck
  | .pubRec _ => .pubRec
  | .pubRel _ => .pubRel
  | .pubComp _ => .pubComp
  | .subscribe _ => .subscribe
  | .subAck _ => .subAck
  | .unSubscribe _ => .unSubscribe
  | .unsubAck _ => .unsubAck
  | .pingReq => .pingReq
  | .pingResp => .pingResp
  | .disconnect _ => .disconnect
  | .auth _ => .auth

end Packet

instance : Packetize Packet where
  decode stream := do
    let (fh, _) ← (decode stream : Result (FixedHeader × ℕ))
    let (pktType, _, _, _) ← fh.unwrap
    Packet.decodeType pktType stream

/-- Where the fields end and where the packet ends, if the fields can be decoded. -/
def VarHeader.ends {α : Type} (header : Result (VarHeader α)) : Option (ℕ × ℕ) :=
  match header with
  | .ok hdr => some (hdr.fieldsEnd, hdr.packetEnd)
  | _ => none

namespace Packet

/-- Where the payload begins and ends, for the packet types whose payload reaches to the end. -/
def typeEnds (pktType : PacketType) (stream : List UInt8) : Option (ℕ × ℕ) :=
  match pktType with
  | .publish => VarHeader.ends (Publish.decHeader stream)
  | .subscribe => VarHeader.ends (decIdHeader SubscribeProperties stream)
  | .subAck => VarHeader.ends (decIdHeader SubAckProperties stream)
  | .unSubscribe => VarHeader.ends (decIdHeader UnSubscribeProperties stream)
  | .unsubAck => VarHeader.ends (decIdHeader UnsubAckProperties stream)
  | _ => none

theorem decAs_eq_ok {α : Type} [Packetize α] {wrap : α → Packet} {s : List UInt8} {p : Packet} {n : ℕ}
    (h : decAs α wrap s = .ok (p, n)) : ∃ pkt, decode s = .ok (pkt, n) ∧ p = wrap pkt := by
  obtain ⟨⟨pkt, m⟩, hpkt, h⟩ := bind_eq_ok.mp h
  obtain ⟨rfl, rfl⟩ := Prod.mk.inj (Outcome.ok.inj h)
  exact ⟨pkt, hpkt, rfl⟩

theorem decAs_panic_iff (α : Type) [Packetize α] (wrap : α → Packet) (s : List UInt8) :
    decAs α wrap s = .panic ↔ (decode s : Result (α × ℕ)) = .panic := by
  rw [decAs, bind_eq_panic]
  simp

theorem decAs_ne_panic (α : Type) [Packetize α] [Packetize.Bounded α] (wrap : α → Packet)
    (s : List UInt8) : decAs α wrap s ≠ .panic := by
  intro h
  exact (decode_sat s).ne_panic ((decAs_panic_iff α wrap s).mp h)

theorem overrun_iff {α : Type} (header : Result (VarHeader α)) :
    Overrun header ↔ ∃ n m, VarHeader.ends header = some (n, m) ∧ m < n := by
  cases header with
  | ok hdr => simp [Overrun, VarHeader.ends]
  | err e => simp [Overrun, VarHeader.ends]
  | panic => simp [Overrun, VarHeader.ends]

theorem ends_within {α : Type} {s : List UInt8} {header : Result (VarHeader α)} {n m : ℕ}
    (hsat : header.Sat (VarHeader.Within s)) (h : VarHeader.ends header = some (n, m)) :
    n ≤ s.length ∧ ∃ (fh : FixedHeader) (fhLen : ℕ), decode s = .ok (fh, fhLen) ∧
      m = fhLen + fh.remainingLen.val.toNat := by
  cases header with
  | ok hdr =>
    obtain ⟨rfl, rfl⟩ := Prod.mk.inj (Option.some.inj h)
    exact hsat
  | err e => simp [VarHeader.ends] at h
  | panic => simp [VarHeader.ends] at h

theorem typeEnds_within {s : List UInt8} {t : PacketType} {n m : ℕ}
    (h : typeEnds t s = some (n, m)) :
    n ≤ s.length ∧ ∃ (fh : FixedHeader) (fhLen : ℕ), decode s = .ok (fh, fhLen) ∧
      m = fhLen + fh.remainingLen.val.toNat := by
  cases t with
  | publish => exact ends_within (Publish.decHeader_sat s) h
  | subscribe | subAck | unSubscribe | unsubAck => exact ends_within (decIdHeader_sat _ s) h
  | _ => simp [typeEnds] at h

/-- One case per packet type: five can overrun, four are `Pub`, six always return. -/
theorem decodeType_panic_iff {s : List UInt8} {fh : FixedHeader} {k : ℕ} {t : PacketType}
    {flags : Bool × QoS × Bool} (hfh : decode s = .ok (fh, k)) (hu : fh.unwrap = .ok (t, flags)) :
    decodeType t s = .panic ↔ ∃ n m, typeEnds t s = some (n, m) ∧ m < n := by
  have hpub (ht : Pub.IsPub t) : (decode s : Result (Pub × ℕ)) ≠ .panic :=
    (Pub.decode_sat hfh hu ht).ne_panic
  cases t with
  | publish =>
    rw [decodeType, decAs_panic_iff, Publish.decode_panic_iff, overrun_iff, typeEnds]
  | subscribe =>
    rw [decodeType, decAs_panic_iff, Subscribe.decode_panic_iff, overrun_iff, typeEnds]
  | subAck =>
    rw [decodeType, decAs_panic_iff, SubAck.decode_panic_iff, overrun_iff, typeEnds]
  | unSubscribe =>
    rw [decodeType, decAs_panic_iff, UnSubscribe.decode_panic_iff, overrun_iff, typeEnds]
  | unsubAck =>
    rw [decodeType, decAs_panic_iff, UnsubAck.decode_panic_iff, overrun_iff, typeEnds]
  | pubAck | pubRec | pubRel | pubComp =>
    have hne := hpub (by simp [Pub.IsPub])
    simp [decodeType, decAs_panic_iff, typeEnds, hne]
  | connect | connAck | pingReq | pingResp | disconnect | auth =>
    simp [decodeType, decAs_ne_panic, typeEnds]

/-- After a valid fixed header the decoder goes on by the packet type. -/
theorem decode_eq {s : List UInt8} {fh : FixedHeader} {k : ℕ} {t : PacketType}
    {flags : Bool × QoS × Bool} (hfh : decode s = .ok (fh, k)) (hu : fh.unwrap = .ok (t, flags)) :
    (decode s : Result (Packet × ℕ)) = decodeType t s := by
  change ((decode s : Result (FixedHeader × ℕ)) >>= _) = _
  rw [hfh, ok_bind]
  dsimp only
  rw [hu, ok_bind]

/-- The decoder returns a packet of the type that the header has. -/
theorem toPacketType_of_decodeType {t : PacketType} {s : List UInt8} {p : Packet} {n : ℕ}
    (h : decodeType t s = .ok (p, n)) : p.toPacketType = t := by
  cases t <;>
  · obtain ⟨⟨pkt, m⟩, -, h⟩ := bind_eq_ok.mp h
    obtain ⟨rfl, rfl⟩ := Prod.mk.inj (Outcome.ok.inj h)
    rfl

/-- Every packet decoder begins with the fixed header, and fails as it does. -/
theorem decodeType_err {s : List UInt8} {e : Error}
    (h : (decode s : Result (FixedHeader × ℕ)) = .err e) (t : PacketType) :
    decodeType t s = .err e := by
  have hheader : decFixedHeader s = .err e := (decFixedHeader_eq s).trans h
  cases t <;> simp only [decodeType, decAs, decode, Publish.decHeader, decIdHeader, hheader, err_bind]

end Packet
end Mqtr
