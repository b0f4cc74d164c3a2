import Mqtr.Wire.Types

/-! The fixed header: one byte with the packet type and four flag bits, then the remaining length.
`unwrap` reads the flags without a check and relies on `validate` having been called. -/
namespace Mqtr
open Outcome

inductive PacketType where
  | connect
  | connAck
  | publish
  | pubAck
  | pubRec
  | pubRel
  | pubComp
  | subscribe
  | subAck
  | unSubscribe
  | unsubAck
  | pingReq
  | pingResp
  | disconnect
  | auth
  deriving DecidableEq, Repr

def PacketType.tryFrom (val : UInt8) : Result PacketType :=
  match val with
  | 1 => .ok .connect
  | 2 => .ok .connAck
  | 3 => .ok .publish
  | 4 => .ok .pubAck
  | 5 => .ok .pubRec
  | 6 => .ok .pubRel
  | 7 => .ok .pubComp
  | 8 => .ok .subscribe
  | 9 => .ok .subAck
  | 10 => .ok .unSubscribe
  | 11 => .ok .unsubAck
  | 12 => .ok .pingReq
  | 13 => .ok .pingResp
  | 14 => .ok .disconnect
  | 15 => .ok .auth
  | _ => errCode .malformedPacket .malformedPacket "forbidden packet-type"

inductive QoS where
  | atMostOnce
  | atLeastOnce
  | exactlyOnce
  deriving DecidableEq, Repr

def QoS.tryFrom (val : UInt8) : Result QoS :=
  match val with
  | 0 => .ok .atMostOnce
  | 1 => .ok .atLeastOnce
  | 2 => .ok .exactlyOnce
  | _ => errCode .malformedPacket .malformedPacket "reserved QoS"

structure FixedHeader where
  byte1 : UInt8
  remainingLen : VarU32
  deriving DecidableEq, Repr

namespace FixedHeader

def hdrRetain : UInt8 := 0b00000001
def hdrQos : UInt8 := 0b00000110
def hdrDup : UInt8 := 0b00001000
def hdrPktType : UInt8 := 0b11110000

/-- `(packet-type, retain, qos, dup)`. -/
def unwrap (self : FixedHeader) : Result (PacketType × Bool × QoS × Bool) := do
  let pktType ← (PacketType.tryFrom (self.byte1 >>> 4)).unwrap
  let retain := self.byte1 &&& hdrRetain > 0
  let qos ← (QoS.tryFrom ((self.byte1 &&& hdrQos) >>> 1)).unwrap
  let dup := self.byte1 &&& hdrDup > 0
  .ok (pktType, retain, qos, dup)

/-- Lower-case hexadecimal digits, as `{:x}` prints them. -/
def hexDigits (b : UInt8) : String := String.ofList (Nat.toDigits 16 b.toNat)

/-- The arms of `validate` that name a packet type. The two ping packets have none and fall to the
last two arms. -/
def flagsListed (pktType : PacketType) (retain : Bool) (qos : QoS) (dup : Bool) : Bool :=
  match pktType with
  | .publish => true
  | .pubRel | .subscribe | .unSubscribe => qos = .atLeastOnce ∧ !retain ∧ !dup
  | .pingReq | .pingResp => false
  | _ => qos = .atMostOnce ∧ !retain ∧ !dup

def validate (self : FixedHeader) : Result Unit := do
  let _ ← QoS.tryFrom ((self.byte1 &&& hdrQos) >>> 1)
  let _ ← PacketType.tryFrom ((self.byte1 &&& hdrPktType) >>> 4)
  let (pktType, retain, qos, dup) ← self.unwrap
  if flagsListed pktType retain qos dup then .ok ()
  else if retain || dup || qos ≠ QoS.atMostOnce then
    errCode .malformedPacket .malformedPacket
      ("FixedHeader invalid flags byte1:0x" ++ hexDigits self.byte1)
  else .ok ()

end FixedHeader

instance : Packetize FixedHeader where
  decode stream := do
    let (byte1, n) ← decField UInt8 stream 0
    let (remainingLen, n) ← decField VarU32 stream n
    let fh : FixedHeader := ⟨byte1, remainingLen⟩
    fh.validate
    .ok (fh, n)

theorem PacketType.tryFrom_sat (v : UInt8) : (PacketType.tryFrom v).Sat fun _ => True := by
  unfold PacketType.tryFrom
  split <;> trivial

theorem QoS.tryFrom_sat (v : UInt8) : (QoS.tryFrom v).Sat fun _ => True := by
  unfold QoS.tryFrom
  split <;> trivial

namespace FixedHeader

/-- The two ways of cutting the type out of the first byte agree. -/
theorem pktType_shift (b : UInt8) : (b &&& hdrPktType) >>> 4 = b >>> 4 := by
  revert b
  exact Varint.forall_byte (by decide +kernel)

/-- The header can be unwrapped. -/
def Unwraps (self : FixedHeader) : Prop :=
  self.unwrap ≠ .panic

instance (self : FixedHeader) : Decidable self.Unwraps :=
  inferInstanceAs (Decidable (_ ≠ _))

theorem unwrap_of_unwraps {self : FixedHeader} (h : self.Unwraps) :
    ∃ pktType flags, self.unwrap = .ok (pktType, flags) := by
  unfold Unwraps unwrap at h
  unfold unwrap
  cases htype : PacketType.tryFrom (self.byte1 >>> 4) with
  | ok t =>
    cases hqos : QoS.tryFrom ((self.byte1 &&& hdrQos) >>> 1) with
    | ok q => exact ⟨t, _, rfl⟩
    | err e => simp [htype, hqos] at h
    | panic => simp [htype, hqos, Outcome.unwrap] at h
  | err e => simp [htype] at h
  | panic => simp [htype, Outcome.unwrap] at h

/-- Only the reserved type 0 and the reserved QoS bits 3 abort. -/
theorem unwraps_iff (self : FixedHeader) :
    self.Unwraps ↔ self.byte1 >>> 4 ≠ 0 ∧ (self.byte1 &&& hdrQos) >>> 1 ≠ 3 := by
  obtain ⟨b, r⟩ := self
  -- the remaining length plays no part
  change (FixedHeader.mk b ⟨0⟩).Unwraps ↔ b >>> 4 ≠ 0 ∧ (b &&& hdrQos) >>> 1 ≠ 3
  revert b
  exact Varint.forall_byte (by decide +kernel)

/-- `validate` always returns, and what it accepts can be unwrapped. -/
theorem validate_sat (self : FixedHeader) : self.validate.Sat fun _ => self.Unwraps := by
  unfold validate
  apply (QoS.tryFrom_sat _).bind
  intro q hq _
  rw [pktType_shift]
  apply (PacketType.tryFrom_sat _).bind
  intro t ht _
  have hu : self.unwrap = .ok (t, self.byte1 &&& hdrRetain > 0, q, self.byte1 &&& hdrDup > 0) := by
    rw [unwrap, ht, hq]
    rfl
  have hok : self.Unwraps := by
    rw [Unwraps, hu]
    exact nofun
  rw [hu, ok_bind]
  dsimp only
  split_ifs
  · exact hok
  · exact errCode_sat _ _ _ _
  · exact hok

end FixedHeader

/-- A decoded header has been validated. -/
theorem FixedHeader.decode_valid (s : List UInt8) :
    (decode s : Result (FixedHeader × ℕ)).Sat fun r =>
      r.1.validate = .ok () ∧ r.1.Unwraps ∧ 0 < r.2 ∧ r.2 ≤ s.length := by
  apply (decField_sat UInt8 s 0).bind
  intro a _ ha
  apply (decField_sat VarU32 s a.2).bind
  intro b _ hb
  apply (FixedHeader.validate_sat ⟨a.1, b.1⟩).bind
  intro _ hv hu
  exact ⟨hv, hu, by omega, hb.2⟩

instance : Packetize.Bounded FixedHeader where
  decode_sat s := (FixedHeader.decode_valid s).mono fun _ h => h.2.2

end Mqtr
