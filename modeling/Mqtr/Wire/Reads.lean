import Mqtr.Core.Trace
import Mqtr.Wire.Confinement

/-! The fields that the decoders come to. A decoder of a field or of properties is traced: with it stands
the list of the fields it begins to read, each with the bytes that are left for it. Its errors are
malformed packets and protocol errors, save where a field is longer than what is left. -/
namespace Mqtr
open Outcome Trace

/-- A field that is read, and the bytes that are left when it is. -/
structure FieldRead where
  field : Field
  bytes : List UInt8
  deriving DecidableEq, Repr

/-- The field is there in full. -/
def FieldRead.Fits (r : FieldRead) : Prop := r.field.size r.bytes ≤ r.bytes.length

instance : DecidablePred FieldRead.Fits := fun _ => inferInstanceAs (Decidable (_ ≤ _))

namespace Error

/-- The kinds that the callers of a decoder expect. -/
def Ordinary (e : Error) : Prop := e.kind = .malformedPacket ∨ e.kind = .protocolError

/-- The reason codes of all decoders but that of CONNECT. -/
def Plain (e : Error) : Prop :=
  e.code = some .malformedPacket ∨ e.code = some .protocolError ∨ e.code = some .payloadFormatInvalid

end Error

/-- The errors have known codes, and are ordinary exactly if every field that is read fits. -/
abbrev Reports {α : Type} (Known : Error → Prop) (x : Result α) (reads : List FieldRead) : Prop :=
  Traced Known Error.Ordinary FieldRead.Fits x reads

/-- A decoder with the fields it reads. -/
class Packetize.Reads (α : Type) [Packetize α] where
  reads : List UInt8 → List FieldRead
  traced (s : List UInt8) : Reports Error.Plain (decode s : Result (α × ℕ)) (reads s)

open Packetize (Reads)

section Rules
variable {α : Type} {Known : Error → Prop}

theorem malformed_traced (d : String) :
    Reports Error.Plain (errCode .malformedPacket .malformedPacket d : Result α) [] :=
  .err (.inl rfl) (.inl rfl)

theorem protocol_traced (d : String) :
    Reports Error.Plain (errCode .protocolError .protocolError d : Result α) [] :=
  .err (.inr (.inl rfl)) (.inr rfl)

theorem errIf_traced {kind : ErrorKind} {code : ReasonCode} {d : String}
    (h : Reports Known (errCode kind code d : Result Unit) []) (bad : Bool) :
    Reports Known (errIf bad kind code d) [] := by
  unfold errIf
  split_ifs
  · exact h
  · exact .ok ()

/-- A single field: it is cut off, or nothing else than ordinary errors can come. -/
theorem leaf_traced {x : Result α} {r : FieldRead} (hfits : r.Fits → Reports Error.Plain x [])
    (hcut : ¬ r.Fits → ∃ d, x = errCode .insufficientBytes .malformedPacket d) :
    Reports Error.Plain x [r] := by
  by_cases hr : r.Fits
  · have hx := hfits hr
    refine ⟨hx.known, ?_⟩
    rw [← hx.fits_iff]
    simpa using hr
  · obtain ⟨d, rfl⟩ := hcut hr
    refine ⟨fun he => ?_, ?_⟩
    · obtain rfl := Outcome.err.inj he
      exact .inl rfl
    · have hodd : ¬ Error.Ordinary ⟨.insufficientBytes, d, some .malformedPacket⟩ := by
        simp [Error.Ordinary]
      constructor
      · intro hall
        exact absurd (hall r (by simp)) hr
      · intro hall
        exact absurd (hall _ rfl) hodd

end Rules

/-- A field of a fixed size. -/
theorem fixed_traced {α : Type} {field : Field} {s : List UInt8} {k : ℕ} {x : Result α}
    (hsize : field.size s = k) (hfits : k ≤ s.length → ∃ a, x = .ok a)
    (hcut : s.length < k → ∃ d, x = errCode .insufficientBytes .malformedPacket d) :
    Reports Error.Plain x [⟨field, s⟩] := by
  apply leaf_traced
  · intro hr
    obtain ⟨a, rfl⟩ := hfits (hsize ▸ hr)
    exact .ok a
  · intro hr
    apply hcut
    rw [FieldRead.Fits, hsize] at hr
    exact Nat.lt_of_not_le hr

instance : Reads UInt8 where
  reads s := [⟨.byte, s⟩]
  traced s := by
    cases s with
    | nil => exact fixed_traced (k := 1) rfl (by simp) fun _ => ⟨_, rfl⟩
    | cons b s => exact fixed_traced (k := 1) rfl (fun _ => ⟨_, rfl⟩) (by simp)

instance : Reads UInt16 where
  reads s := [⟨.word, s⟩]
  traced s := by
    match s with
    | [] | [_] => exact fixed_traced (k := 2) rfl (by simp) fun _ => ⟨_, rfl⟩
    | a :: b :: s => exact fixed_traced (k := 2) rfl (fun _ => ⟨_, rfl⟩) (by simp)

instance : Reads UInt32 where
  reads s := [⟨.long, s⟩]
  traced s := by
    match s with
    | [] | [_] | [_, _] | [_, _, _] => exact fixed_traced (k := 4) rfl (by simp) fun _ => ⟨_, rfl⟩
    | a :: b :: c :: d :: s => exact fixed_traced (k := 4) rfl (fun _ => ⟨_, rfl⟩) (by simp)

/-- A field with its length in front: what is done once the length is known. -/
theorem text_traced {α : Type} {s : List UInt8} {f : UInt16 × ℕ → Result α}
    (hfits : ∀ r, r.1.toNat + 2 ≤ s.length → Reports Error.Plain (f r) [])
    (hcut : ∀ r, s.length < r.1.toNat + 2 →
      ∃ d, f r = errCode .insufficientBytes .malformedPacket d) :
    Reports Error.Plain ((decode s : Result (UInt16 × ℕ)) >>= f) [⟨.text, s⟩] := by
  match s with
  | [] | [_] => exact fixed_traced (k := 2) rfl (by simp) fun _ => ⟨_, rfl⟩
  | hi :: lo :: s =>
    have hlen : (decode (hi :: lo :: s) : Result (UInt16 × ℕ)) =
        .ok ((hi.toUInt16 <<< 8) ||| lo.toUInt16, 2) := rfl
    have hsize := text_size hlen
    rw [hlen, ok_bind]
    apply leaf_traced
    · intro hr
      rw [FieldRead.Fits, hsize, Nat.add_comm] at hr
      exact hfits _ hr
    · intro hr
      rw [FieldRead.Fits, hsize, Nat.add_comm] at hr
      exact hcut _ (Nat.lt_of_not_le hr)

theorem slice_traced {Known : Error → Prop} (s : List UInt8) (a b : ℕ) :
    Reports Known (slice s a b : Result (List UInt8)) [] := by
  unfold slice
  split_ifs
  · exact .ok _
  · exact .panic

instance : Reads String where
  reads s := [⟨.text, s⟩]
  traced s := by
    apply text_traced
    · intro r hr
      dsimp only
      rw [if_neg (by omega)]
      apply (slice_traced s _ _).bind_done
      intro bytes _
      split
      · split_ifs
        · exact .ok _
        · exact malformed_traced _
      · exact malformed_traced _
    · intro r hr
      exact ⟨_, if_pos hr⟩

instance : Reads (List UInt8) where
  reads s := [⟨.text, s⟩]
  traced s := by
    apply text_traced
    · intro r hr
      dsimp only
      rw [if_neg (by omega)]
      exact (slice_traced s _ _).bind_done fun _ _ => .ok _
    · intro r hr
      exact ⟨_, if_pos hr⟩

/-- A length that does not end is malformed, wherever the bytes end. -/
instance : Reads VarU32 where
  reads _ := []
  traced s := by
    rw [VarU32.decode_eq]
    split
    · exact malformed_traced _
    · exact .ok _

instance : Reads UserProperty where
  reads s := ⟨.text, s⟩ :: after (decode s : Result (String × ℕ)) fun key =>
    [⟨.text, s.drop key.2⟩]
  traced s := by
    apply (Reads.traced (α := String) s).bind
    intro key hkey
    have hle := ((decode_sat s).of_ok hkey).2
    dsimp only
    rw [advance_of_le hle, ok_bind]
    exact (Reads.traced (α := String) _).bind_done fun _ _ => .ok _

theorem TopicName.validate_traced (self : TopicName) : Reports Error.Plain self.validate [] := by
  unfold validate
  split_ifs
  · exact malformed_traced _
  · exact malformed_traced _
  · exact .ok ()

theorem TopicFilter.validate_traced (self : TopicFilter) : Reports Error.Plain self.validate [] := by
  unfold validate
  dsimp only
  split_ifs
  · exact malformed_traced _
  · exact malformed_traced _
  · exact malformed_traced _
  · exact malformed_traced _
  · exact .ok ()

instance : Reads TopicName where
  reads s := [⟨.text, s⟩]
  traced s := (Reads.traced (α := String) s).bind_done fun r _ =>
    (TopicName.validate_traced ⟨r.1⟩).bind_done fun _ _ => .ok _

instance : Reads TopicFilter where
  reads s := [⟨.text, s⟩]
  traced s := (Reads.traced (α := String) s).bind_done fun r _ =>
    (TopicFilter.validate_traced ⟨r.1⟩).bind_done fun _ _ => .ok _

section Fields
variable (α : Type) [Packetize α] [Reads α]

/-- What `dec_field!` reads at position `n`. -/
def fieldReads (s : List UInt8) (n : ℕ) : List FieldRead := Reads.reads α (s.drop n)

/-- What `dec_props!` reads at position `n`. The length in front is no field that can be cut off. -/
def propsReads (s : List UInt8) (n : ℕ) : List FieldRead :=
  after (decode (s.drop n) : Result (VarU32 × ℕ)) fun p =>
    if p.1.val = 0 then [] else Reads.reads α (s.drop n)

variable {α} {s : List UInt8} {n : ℕ}

theorem decField_traced (hn : n ≤ s.length) :
    Reports Error.Plain (decField α s n) (fieldReads α s n) := by
  rw [decField, advance_of_le hn, ok_bind]
  exact (Reads.traced (s.drop n)).bind_done fun _ _ => .ok _

theorem decProps_traced (hn : n ≤ s.length) :
    Reports Error.Plain (decProps α s n) (propsReads α s n) := by
  rw [decProps, advance_of_le hn, ok_bind]
  apply (Reads.traced (α := VarU32) (s.drop n)).bind_after
  intro p _
  dsimp only
  split_ifs
  · exact .ok _
  · rw [ok_bind]
    apply (Reads.traced (s.drop n)).bind_done
    intro r _
    split_ifs
    · exact .ok _
    · exact protocol_traced _

theorem decFieldIf_traced (hn : n ≤ s.length) (pred : Bool) :
    Reports Error.Plain (decFieldIf α s n pred) (if pred then fieldReads α s n else []) := by
  unfold decFieldIf
  split_ifs
  · exact (decField_traced hn).bind_done fun _ _ => .ok _
  · exact .ok _

theorem decPropsIf_traced (hn : n ≤ s.length) (pred : Bool) :
    Reports Error.Plain (decPropsIf α s n pred) (if pred then propsReads α s n else []) := by
  unfold decPropsIf
  split_ifs
  · exact decProps_traced hn
  · exact .ok _

end Fields

theorem QoS.tryFrom_traced (v : UInt8) : Reports Error.Plain (QoS.tryFrom v) [] := by
  unfold QoS.tryFrom
  split <;> first | exact .ok _ | exact malformed_traced _

theorem PacketType.tryFrom_traced (v : UInt8) : Reports Error.Plain (PacketType.tryFrom v) [] := by
  unfold PacketType.tryFrom
  split <;> first | exact .ok _ | exact malformed_traced _

theorem PropertyType.tryFrom_traced (v : UInt32) :
    Reports Error.Plain (PropertyType.tryFrom v) [] := by
  unfold PropertyType.tryFrom
  split <;> first | exact .ok _ | exact malformed_traced _

theorem unwrap_traced {α : Type} {Known : Error → Prop} (x : Result α) :
    Reports Known x.unwrap [] := by
  cases x with
  | ok a => exact .ok a
  | err _ | panic => exact .panic

namespace FixedHeader

theorem unwrap_traced (self : FixedHeader) : Reports Error.Plain self.unwrap [] := by
  apply (Mqtr.unwrap_traced _).bind_done
  intro t _
  exact (Mqtr.unwrap_traced _).bind_done fun _ _ => .ok _

theorem validate_traced (self : FixedHeader) : Reports Error.Plain self.validate [] := by
  apply (QoS.tryFrom_traced _).bind_done
  intro _ _
  apply (PacketType.tryFrom_traced _).bind_done
  intro _ _
  apply self.unwrap_traced.bind_done
  intro r _
  dsimp only
  split_ifs
  · exact .ok ()
  · exact malformed_traced _
  · exact .ok ()

end FixedHeader

instance : Reads FixedHeader where
  reads s := [⟨.byte, s⟩]
  traced s := by
    have hbyte : Reports Error.Plain (decField UInt8 s 0) [⟨.byte, s⟩] :=
      decField_traced (Nat.zero_le _)
    apply hbyte.bind_done
    intro byte hb
    have hle := ((decField_sat UInt8 s 0).of_ok hb).2
    have hlen : Reports Error.Plain (decField VarU32 s byte.2) [] := decField_traced hle
    apply hlen.bind_done
    intro len _
    exact (FixedHeader.validate_traced _).bind_done fun _ _ => .ok _

namespace Property

/-- What is read for a value of this type. -/
def valueReads (propType : PropertyType) (s : List UInt8) : List FieldRead :=
  match propType with
  | .payloadFormatIndicator | .requestProblemInformation | .requestResponseInformation
  | .maximumQoS | .retainAvailable | .wildcardSubscriptionAvailable
  | .subscriptionIdentifierAvailable | .sharedSubscriptionAvailable => [⟨.byte, s⟩]
  | .serverKeepAlive | .receiveMaximum | .topicAliasMaximum | .topicAlias => [⟨.word, s⟩]
  | .messageExpiryInterval | .sessionExpiryInterval | .willDelayInterval
  | .maximumPacketSize => [⟨.long, s⟩]
  | .contentType | .responseTopic | .correlationData | .assignedClientIdentifier
  | .authenticationMethod | .authenticationData | .responseInformation | .serverReference
  | .reasonString => [⟨.text, s⟩]
  | .subscriptionIdentifier => []
  | .userProp => Reads.reads UserProperty s

theorem decodeValue_traced (pt : PropertyType) (s : List UInt8) :
    Reports Error.Plain (decodeValue pt s) (valueReads pt s) := by
  have hprop {α : Type} [Packetize α] [Reads α] (varn : α → Property) :
      Reports Error.Plain (decProp α varn s) (Reads.reads α s) :=
    (Reads.traced s).bind_done fun _ _ => .ok _
  cases pt with
  | maximumQoS =>
    apply (Reads.traced (α := UInt8) s).bind_done
    intro r _
    exact (QoS.tryFrom_traced r.1).bind_done fun _ _ => .ok _
  | _ => exact hprop _

end Property

instance : Reads Property where
  reads s := after (decField VarU32 s 0) fun r =>
    after (PropertyType.tryFrom r.1.val) fun pt => Property.valueReads pt (s.drop r.2)
  traced s := by
    have htype : Reports Error.Plain (decField VarU32 s 0) [] := decField_traced (Nat.zero_le _)
    apply htype.bind_after
    intro r hr
    have hle := ((decField_sat VarU32 s 0).of_ok hr).2
    dsimp only
    rw [advance_of_le hle, ok_bind]
    apply (PropertyType.tryFrom_traced _).bind_after
    intro pt _
    exact (Property.decodeValue_traced pt _).bind_done fun _ _ => .ok _

section Lists
variable {σ : Type} (list : PropertyList σ)

/-- What is read for a list of properties. -/
def PropertyList.reads (props : σ) (s : List UInt8) : List FieldRead :=
  after (decField VarU32 s 0) fun r =>
    loopReads (decField Property s) list.step (fieldReads Property s) (r.1.val.toNat + r.2)
      (s.length + 1) r.2 (props, [])

theorem PropertyList.step_traced (h : ∀ props p, Reports Error.Plain (list.take props p) [])
    (state : σ × List PropertyType) (p : Property) :
    Reports Error.Plain (list.step state p) [] := by
  unfold PropertyList.step
  dsimp only
  split_ifs
  · exact protocol_traced _
  · exact (h state.1 p).bind_done fun _ _ => .ok _

theorem PropertyList.traced (h : ∀ props p, Reports Error.Plain (list.take props p) []) (props : σ)
    (s : List UInt8) : Reports Error.Plain (list.decode props s) (list.reads props s) := by
  have hlen : Reports Error.Plain (decField VarU32 s 0) [] := decField_traced (Nat.zero_le _)
  apply hlen.bind_after
  intro r hr
  have hle := ((decField_sat VarU32 s 0).of_ok hr).2
  have hloop := Traced.readLoop (r.1.val.toNat + r.2) (s.length + 1)
    (fun n hn => decField_traced (α := Property) (n := n) hn)
    (fun hx => ((decField_sat Property s _).of_ok hx).2) (list.step_traced h) hle (props, [])
  exact hloop.bind_done fun _ _ => .ok _

end Lists

theorem PayloadFormat.tryFrom_traced (v : UInt8) :
    Reports Error.Plain (PayloadFormat.tryFrom v) [] := by
  unfold PayloadFormat.tryFrom
  split <;> first | exact .ok _ | exact malformed_traced _

theorem flagValue_traced (name : String) (v : UInt8) :
    Reports Error.Plain (flagValue name v) [] := by
  unfold flagValue
  split <;> first | exact .ok _ | exact protocol_traced _

/-- A value that may not be zero. -/
theorem nonzero_traced {α : Type} {c : Prop} [Decidable c] (d : String) (a : α) :
    Reports Error.Plain (if c then protocolErr d else .ok a) [] := by
  split_ifs
  · exact protocol_traced d
  · exact .ok a

section Records

theorem ConnectProperties.take_traced (props : ConnectProperties) (p : Property) :
    Reports Error.Plain (props.take p) [] := by
  unfold ConnectProperties.take
  split
  case h_5 | h_6 => exact (flagValue_traced _ _).bind_done fun _ _ => .ok _
  case h_2 | h_3 => exact nonzero_traced _ _
  all_goals first | exact .ok _ | exact protocol_traced _

instance : Reads ConnectProperties where
  reads := ConnectProperties.list.reads {}
  traced := ConnectProperties.list.traced ConnectProperties.take_traced {}

theorem WillProperties.take_traced (props : WillProperties) (p : Property) :
    Reports Error.Plain (props.take p) [] := by
  unfold WillProperties.take
  split
  case h_2 => exact (PayloadFormat.tryFrom_traced _).bind_done fun _ _ => .ok _
  all_goals first | exact .ok _ | exact protocol_traced _

instance : Reads WillProperties where
  reads := WillProperties.list.reads {}
  traced := WillProperties.list.traced WillProperties.take_traced {}

theorem ConnAckProperties.take_traced (props : ConnAckProperties) (p : Property) :
    Reports Error.Plain (props.take p) [] := by
  unfold ConnAckProperties.take
  split
  case h_4 | h_10 | h_11 | h_12 => exact (flagValue_traced _ _).bind_done fun _ _ => .ok _
  case h_2 | h_5 => exact nonzero_traced _ _
  all_goals first | exact .ok _ | exact protocol_traced _

instance : Reads ConnAckProperties where
  reads := ConnAckProperties.list.reads {}
  traced := ConnAckProperties.list.traced ConnAckProperties.take_traced {}

theorem PublishProperties.take_traced (props : PublishProperties) (p : Property) :
    Reports Error.Plain (props.take p) [] := by
  unfold PublishProperties.take
  split
  case h_1 => exact (PayloadFormat.tryFrom_traced _).bind_done fun _ _ => .ok _
  case h_3 => exact nonzero_traced _ _
  all_goals first | exact .ok _ | exact protocol_traced _

instance : Reads PublishProperties where
  reads := PublishProperties.list.reads {}
  traced := PublishProperties.list.traced PublishProperties.take_traced {}

theorem ReasonProperties.take_traced (repeated bad : PropertyType → String)
    (props : ReasonProperties) (p : Property) :
    Reports Error.Plain ((ReasonProperties.list repeated bad).take props p) [] := by
  unfold ReasonProperties.list
  dsimp only
  split <;> first | exact .ok _ | exact protocol_traced _

instance : Reads PubProperties where
  reads := PubProperties.list.reads (ReasonProperties.mk none [])
  traced := PubProperties.list.traced (ReasonProperties.take_traced _ _) _

instance : Reads SubAckProperties where
  reads := SubAckProperties.list.reads (ReasonProperties.mk none [])
  traced := SubAckProperties.list.traced (ReasonProperties.take_traced _ _) _

instance : Reads UnsubAckProperties where
  reads := UnsubAckProperties.list.reads (ReasonProperties.mk none [])
  traced := UnsubAckProperties.list.traced (ReasonProperties.take_traced _ _) _

theorem SubscribeProperties.take_traced (props : SubscribeProperties) (p : Property) :
    Reports Error.Plain (props.take p) [] := by
  unfold SubscribeProperties.take
  split
  case h_1 => exact nonzero_traced _ _
  all_goals first | exact .ok _ | exact protocol_traced _

instance : Reads SubscribeProperties where
  reads := SubscribeProperties.list.reads {}
  traced := SubscribeProperties.list.traced SubscribeProperties.take_traced {}

theorem UnSubscribeProperties.take_traced (props : UnSubscribeProperties) (p : Property) :
    Reports Error.Plain (props.take p) [] := by
  unfold UnSubscribeProperties.take
  split <;> first | exact .ok _ | exact protocol_traced _

instance : Reads UnSubscribeProperties where
  reads := UnSubscribeProperties.list.reads {}
  traced := UnSubscribeProperties.list.traced UnSubscribeProperties.take_traced {}

theorem DisconnProperties.take_traced (props : DisconnProperties) (p : Property) :
    Reports Error.Plain (props.take p) [] := by
  unfold DisconnProperties.take
  split <;> first | exact .ok _ | exact protocol_traced _

instance : Reads DisconnProperties where
  reads := DisconnProperties.list.reads {}
  traced := DisconnProperties.list.traced DisconnProperties.take_traced {}

theorem AuthProperties.take_traced (props : AuthProperties.Partial) (p : Property) :
    Reports Error.Plain (AuthProperties.take props p) [] := by
  unfold AuthProperties.take
  split <;> first | exact .ok _ | exact protocol_traced _

instance : Reads AuthProperties where
  reads := AuthProperties.list.reads {}
  traced s := by
    apply (AuthProperties.list.traced AuthProperties.take_traced {} s).bind_done
    intro r _
    dsimp only
    split
    · exact protocol_traced _
    · exact protocol_traced _
    · exact .ok _

end Records

end Mqtr
