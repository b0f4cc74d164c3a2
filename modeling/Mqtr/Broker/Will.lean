import Mqtr.Wire.MessageRoundTrip
import Mqtr.Broker.Subscriptions

/-! The will of a client: what the flags of its CONNECT announce, and what its session keeps. -/
namespace Mqtr
open Outcome

namespace ConnectFlags

/-- The quality of service of the will that bits 3 and 4 encode. -/
def willQos (self : ConnectFlags) : ℕ := self.val.toNat / 8 % 4

theorem bits (val : UInt8) :
    decide (val &&& willFlag > 0) = val.toNat.testBit 2 ∧
      decide (val &&& willRetain > 0) = val.toNat.testBit 5 ∧
      (decide (val &&& 0b00000001 > 0) = false →
        val &&& (willQosMask >>> 3) = if val.toNat.testBit 1 then 2 else 0) := by
  revert val
  exact Varint.forall_byte (by decide +kernel)

/-- Of flags without the reserved bit, what is read as the quality of service is the bit for a clean
start. -/
theorem unwrap_of_validate {self : ConnectFlags} (h : self.validate = .ok ()) :
    ∃ (clean : Bool) (qos : QoS),
      self.unwrap = .ok (clean, self.val.toNat.testBit 2, qos, self.val.toNat.testBit 5) ∧
        qos.rank = if self.val.toNat.testBit 1 then 2 else 0 := by
  obtain ⟨hwill, hretain, hqos⟩ := bits self.val
  have hmask := hqos ((errIf_sat _ _ _ _).of_ok h)
  unfold unwrap
  rw [hmask, hwill, hretain]
  split_ifs
  · exact ⟨_, .exactlyOnce, rfl, rfl⟩
  · exact ⟨_, .atMostOnce, rfl, rfl⟩

end ConnectFlags

namespace Connect

theorem will_of_validateWill {c : Connect} (h : c.validateWill = .ok ()) :
    ∃ topic properties payload, c.payload.willTopic = some topic ∧
      c.payload.willProperties = some properties ∧ c.payload.willPayload = some payload := by
  unfold validateWill at h
  split_ifs at h with htopic hproperties hpayload
  all_goals try cases h
  rw [Option.isNone_iff_eq_none] at htopic hproperties hpayload
  obtain ⟨topic, ht⟩ := Option.ne_none_iff_exists'.mp htopic
  obtain ⟨properties, hp⟩ := Option.ne_none_iff_exists'.mp hproperties
  obtain ⟨payload, hl⟩ := Option.ne_none_iff_exists'.mp hpayload
  exact ⟨topic, properties, payload, ht, hp, hl⟩

/-- A CONNECT that was read has no reserved flag, and the will that it announces. -/
theorem of_decode {stream : List UInt8} {c : Connect} {n : ℕ} (h : decode stream = .ok (c, n)) :
    c.flags.validate = .ok () ∧
      (c.flags.val &&& ConnectFlags.willFlag > 0 → c.validateWill = .ok ()) := by
  obtain ⟨hdr, -, h⟩ := bind_eq_ok.mp h
  obtain ⟨name, -, h⟩ := bind_eq_ok.mp h
  obtain ⟨val, -, h⟩ := bind_eq_ok.mp h
  obtain ⟨version, -, h⟩ := bind_eq_ok.mp h
  obtain ⟨flags, -, h⟩ := bind_eq_ok.mp h
  obtain ⟨alive, -, h⟩ := bind_eq_ok.mp h
  obtain ⟨props, -, h⟩ := bind_eq_ok.mp h
  obtain ⟨client, -, h⟩ := bind_eq_ok.mp h
  obtain ⟨wprops, -, h⟩ := bind_eq_ok.mp h
  obtain ⟨topic, -, h⟩ := bind_eq_ok.mp h
  obtain ⟨payload, -, h⟩ := bind_eq_ok.mp h
  obtain ⟨user, -, h⟩ := bind_eq_ok.mp h
  obtain ⟨pass, -, h⟩ := bind_eq_ok.mp h
  obtain ⟨_, hvalid, h⟩ := bind_eq_ok.mp h
  cases h
  obtain ⟨_, -, hvalid⟩ := bind_eq_ok.mp hvalid
  obtain ⟨_, -, hvalid⟩ := bind_eq_ok.mp hvalid
  obtain ⟨_, hflags, hvalid⟩ := bind_eq_ok.mp hvalid
  obtain ⟨_, -, hvalid⟩ := bind_eq_ok.mp hvalid
  refine ⟨hflags, fun hwill => ?_⟩
  dsimp only at hvalid
  rw [if_pos hwill] at hvalid
  obtain ⟨_, hparts, -⟩ := bind_eq_ok.mp hvalid
  exact hparts

end Connect

namespace Session

/-- The session has a will exactly when the CONNECT announces one, with all that the CONNECT says of it;
`qos` stands for the quality of service. -/
structure KeepsWill (s : Session) (c : Connect) (qos : ℕ) : Prop where
  announced : s.willMessage.isSome ↔ c.flags.val.toNat.testBit 2 = true
  parts : ∀ will, s.willMessage = some will →
    c.payload.willTopic = some will.topic ∧ c.payload.willPayload = some will.payload ∧
      c.payload.willProperties = some will.properties
  retain : ∀ will, s.willMessage = some will → will.retain = c.flags.val.toNat.testBit 5
  qos : ∀ will, s.willMessage = some will → will.qos.rank = qos

/-- The session starts with the will, with the quality of service that the clean start bit gives. -/
theorem start_keepsWill {stream : List UInt8} {c : Connect} {n : ℕ} (h : decode stream = .ok (c, n))
    (clientId : ClientID) (addr : String) (config : Config) :
    ∃ s, start clientId addr config c = .ok s ∧
      s.KeepsWill c (if c.flags.val.toNat.testBit 1 then 2 else 0) := by
  obtain ⟨hflags, hparts⟩ := Connect.of_decode h
  obtain ⟨clean, qos, hunwrap, hqos⟩ := ConnectFlags.unwrap_of_validate hflags
  unfold start WillMessage.ofConnect
  rw [hunwrap]
  by_cases hwill : c.flags.val.toNat.testBit 2 = true
  · have hset : c.flags.val &&& ConnectFlags.willFlag > 0 :=
      of_decide_eq_true ((ConnectFlags.bits c.flags.val).1.trans hwill)
    obtain ⟨topic, properties, payload, ht, hp, hl⟩ := Connect.will_of_validateWill (hparts hset)
    rw [hwill, ht, hp, hl]
    refine ⟨_, rfl, ⟨by simp [hwill], ?_, ?_, ?_⟩⟩
    · rintro will ⟨⟩
      exact ⟨ht, hl, hp⟩
    · rintro will ⟨⟩
      rfl
    · rintro will ⟨⟩
      exact hqos
  · rw [Bool.not_eq_true] at hwill
    rw [hwill]
    exact ⟨_, rfl, ⟨by simp [hwill], by simp, by simp, by simp⟩⟩

/-- The will keeps its quality of service exactly when the two bits for it agree with the bit for a clean
start. -/
theorem start_keepsWill_iff {stream : List UInt8} {c : Connect} {n : ℕ}
    (h : decode stream = .ok (c, n)) (clientId : ClientID) (addr : String) (config : Config) :
    (∃ s, start clientId addr config c = .ok s ∧ s.KeepsWill c c.flags.willQos) ↔
      (c.flags.val.toNat.testBit 2 = true →
        c.flags.willQos = if c.flags.val.toNat.testBit 1 then 2 else 0) := by
  obtain ⟨s, hs, hkeeps⟩ := start_keepsWill h clientId addr config
  constructor
  · rintro ⟨s', hs', hkeeps'⟩ hwill
    cases hs.symm.trans hs'
    obtain ⟨will, hsome⟩ := Option.isSome_iff_exists.mp (hkeeps.announced.mpr hwill)
    exact (hkeeps'.qos will hsome).symm.trans (hkeeps.qos will hsome)
  · intro hagree
    refine ⟨s, hs, { hkeeps with qos := fun will hsome => ?_ }⟩
    have hwill := hkeeps.announced.mp (Option.isSome_iff_exists.mpr ⟨will, hsome⟩)
    exact (hkeeps.qos will hsome).trans (hagree hwill).symm

/-- A CONNECT with the flags, and a will. -/
def connectWithWill (flags : UInt8) : List UInt8 :=
  [0x10, 0x1a, 0x00, 0x04, 0x4d, 0x51, 0x54, 0x54, 0x05, flags, 0x00, 0x3c, 0x00,
    0x00, 0x01, 0x63, 0x05, 0x18, 0x00, 0x00, 0x00, 0x05, 0x00, 0x01, 0x74, 0x00, 0x01, 0x01]

/-- What `connectWithWill` is read as. -/
def withWill (flags : UInt8) : Connect := { Connect.withWill with flags := ⟨flags⟩ }

/-- With a clean start, a will that asks for the highest quality of service has it. -/
theorem start_keepsWill_iff_cleanStart :
    decode (connectWithWill 0b00110110) = .ok (withWill 0b00110110, 28) ∧
      ∃ s, start ⟨"c"⟩ "10.0.0.1:1" {} (withWill 0b00110110) = .ok s ∧
        s.KeepsWill (withWill 0b00110110) 2 := by
  have hread : decode (connectWithWill 0b00110110) = .ok (withWill 0b00110110, 28) := by decide
  exact ⟨hread, (start_keepsWill_iff hread ⟨"c"⟩ "10.0.0.1:1" {}).mpr (by decide)⟩

/-- A will that asks for delivery at least once is kept as one that asks for at most once. -/
theorem will_loses_qos :
    ¬ ∀ (stream : List UInt8) (c : Connect) (n : ℕ), decode stream = .ok (c, n) →
      ∀ (clientId : ClientID) (addr : String) (config : Config),
        ∃ s, start clientId addr config c = .ok s ∧ s.KeepsWill c c.flags.willQos := by
  intro hall
  have hread : decode (connectWithWill 0b00001100) = .ok (withWill 0b00001100, 28) := by decide
  obtain ⟨s, hs, hkeeps⟩ := hall _ _ _ hread ⟨"c"⟩ "10.0.0.1:1" {}
  obtain ⟨s', hs', hkeeps'⟩ := start_keepsWill hread ⟨"c"⟩ "10.0.0.1:1" {}
  cases hs.symm.trans hs'
  obtain ⟨will, hsome⟩ := Option.isSome_iff_exists.mp (hkeeps.announced.mpr (by decide))
  have hqos : (1 : ℕ) = 0 := (hkeeps.qos will hsome).symm.trans (hkeeps'.qos will hsome)
  exact absurd hqos (by decide)

end Session
end Mqtr
