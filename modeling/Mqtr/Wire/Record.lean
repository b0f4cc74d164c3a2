import Mqtr.Core.Grouping
import Mqtr.Wire.Encode
import Mqtr.Wire.Properties

/-! Properties on the wire, and the records that hold them. A record is seen as what it holds of each
property type: reading a list of properties groups them by type, writing it out puts the groups in a
fixed order. So a list that was written is read as the record it was written from, and a record that
was read is written as a rearrangement of what was read. -/
namespace Mqtr
open Outcome Codec Grouping

def PropertyType.toU32 : PropertyType → UInt32
  | .payloadFormatIndicator => 1
  | .messageExpiryInterval => 2
  | .contentType => 3
  | .responseTopic => 8
  | .correlationData => 9
  | .subscriptionIdentifier => 11
  | .sessionExpiryInterval => 17
  | .assignedClientIdentifier => 18
  | .serverKeepAlive => 19
  | .authenticationMethod => 21
  | .authenticationData => 22
  | .requestProblemInformation => 23
  | .willDelayInterval => 24
  | .requestResponseInformation => 25
  | .responseInformation => 26
  | .serverReference => 28
  | .reasonString => 31
  | .receiveMaximum => 33
  | .topicAliasMaximum => 34
  | .topicAlias => 35
  | .maximumQoS => 36
  | .retainAvailable => 37
  | .userProp => 38
  | .maximumPacketSize => 39
  | .wildcardSubscriptionAvailable => 40
  | .subscriptionIdentifierAvailable => 41
  | .sharedSubscriptionAvailable => 42

/-- The macro `enc_prop!`. -/
def encProp {α : Type} [Packetize.Encode α] (varn : PropertyType) (val : α) :
    Result (List UInt8) := do
  let pt ← encode (VarU32.mk varn.toU32)
  let val ← encode val
  .ok (pt ++ val)

/-- The macro `enc_prop!` for a value that may be absent. -/
def encPropOpt {α : Type} [Packetize.Encode α] (varn : PropertyType) (val : Option α) :
    Result (List UInt8) :=
  match val with
  | some val => encProp varn val
  | none => .ok []

instance : Packetize.Encode Property where
  encode
    | .payloadFormatIndicator val => encProp .payloadFormatIndicator val
    | .messageExpiryInterval val => encProp .messageExpiryInterval val
    | .contentType val => encProp .contentType val
    | .responseTopic val => encProp .responseTopic val
    | .correlationData val => encProp .correlationData val
    | .subscriptionIdentifier val => encProp .subscriptionIdentifier val
    | .sessionExpiryInterval val => encProp .sessionExpiryInterval val
    | .assignedClientIdentifier val => encProp .assignedClientIdentifier val
    | .serverKeepAlive val => encProp .serverKeepAlive val
    | .authenticationMethod val => encProp .authenticationMethod val
    | .authenticationData val => encProp .authenticationData val
    | .requestProblemInformation val => encProp .requestProblemInformation val
    | .willDelayInterval val => encProp .willDelayInterval val
    | .requestResponseInformation val => encProp .requestResponseInformation val
    | .responseInformation val => encProp .responseInformation val
    | .serverReference val => encProp .serverReference val
    | .reasonString val => encProp .reasonString val
    | .receiveMaximum val => encProp .receiveMaximum val
    | .topicAliasMaximum val => encProp .topicAliasMaximum val
    | .topicAlias val => encProp .topicAlias val
    | .maximumQoS val => encProp .maximumQoS val.toU8
    | .retainAvailable val => encProp .retainAvailable val
    | .userProp val => encProp .userProp val
    | .maximumPacketSize val => encProp .maximumPacketSize val
    | .wildcardSubscriptionAvailable val => encProp .wildcardSubscriptionAvailable val
    | .subscriptionIdentifierAvailable val => encProp .subscriptionIdentifierAvailable val
    | .sharedSubscriptionAvailable val => encProp .sharedSubscriptionAvailable val

def insertPropertyLen (n : ℕ) (data : List UInt8) : Result (List UInt8) := do
  let n ← u32TryFrom n
  let bytes ← encode (VarU32.mk n)
  Buffer.insertFront data bytes

/-- The type of a property takes one byte, its number. -/
theorem PropertyType.encode_toU32 (pt : PropertyType) :
    ∃ byte, encode (VarU32.mk pt.toU32) = .ok [byte] ∧ byte.toUInt32 = pt.toU32 := by
  cases pt <;> exact ⟨_, rfl, rfl⟩

theorem PropertyType.tryFrom_toU32 (pt : PropertyType) :
    PropertyType.tryFrom pt.toU32 = .ok pt := by
  cases pt <;> rfl

theorem QoS.tryFrom_toU8 (qos : QoS) : QoS.tryFrom qos.toU8 = .ok qos := by
  cases qos <;> rfl

theorem QoS.encode_tryFrom {val : UInt8} {qos : QoS} (h : QoS.tryFrom val = .ok qos) :
    qos.toU8 = val := by
  unfold QoS.tryFrom at h
  split at h <;> first | exact absurd h (errCode_ne_ok _ _ _ _) | (cases Outcome.ok.inj h; rfl)

section Value
variable {α : Type} [Packetize.Encode α] {pt : PropertyType} {val : α} {b : List UInt8}

theorem encProp_eq_ok (h : encProp pt val = .ok b) :
    ∃ byte bytes, encode (VarU32.mk pt.toU32) = .ok [byte] ∧ encode val = .ok bytes ∧
      b = byte :: bytes := by
  obtain ⟨byte, hbyte, -⟩ := pt.encode_toU32
  rw [encProp, hbyte, ok_bind] at h
  obtain ⟨bytes, hval, h⟩ := bind_eq_ok.mp h
  exact ⟨byte, bytes, hbyte, hval, (Outcome.ok.inj h).symm⟩

theorem encProp_of_ok {bytes : List UInt8} (h : encode val = .ok bytes) :
    ∃ b, encProp pt val = .ok b ∧ b.length = bytes.length + 1 := by
  obtain ⟨byte, hbyte, -⟩ := pt.encode_toU32
  refine ⟨byte :: bytes, ?_, rfl⟩
  rw [encProp, hbyte, ok_bind, h]
  rfl

theorem decProp_encode [Packetize α] [Packetize.ReadsBack α] {varn : α → Property} {bytes : List UInt8}
    (h : encode val = .ok bytes) (rest : List UInt8) :
    decProp α varn (bytes ++ rest) = .ok (varn val, bytes.length) := by
  rw [decProp, decode_encode h, ok_bind]

end Value

namespace Property

/-- A property is its type and a value that is read back by that type. -/
theorem encode_eq_ok {p : Property} {b : List UInt8} (h : encode p = .ok b) :
    ∃ byte bytes, encode (VarU32.mk p.toPropertyType.toU32) = .ok [byte] ∧ b = byte :: bytes ∧
      ∀ rest, decodeValue p.toPropertyType (bytes ++ rest) = .ok (p, bytes.length) := by
  cases p with
  | maximumQoS qos =>
    obtain ⟨byte, bytes, hbyte, hval, rfl⟩ := encProp_eq_ok h
    refine ⟨byte, bytes, hbyte, rfl, fun rest => ?_⟩
    show ((decode _ : Result (UInt8 × ℕ)) >>= _) = _
    rw [decode_encode hval, ok_bind]
    dsimp only
    rw [QoS.tryFrom_toU8, ok_bind]
  | _ =>
    obtain ⟨byte, bytes, hbyte, hval, rfl⟩ := encProp_eq_ok h
    exact ⟨byte, bytes, hbyte, rfl, decProp_encode hval⟩

/-- A value that was read can be written as a property of the type it was read for. -/
theorem encode_decodeValue {pt : PropertyType} {s : List UInt8} {p : Property} {n : ℕ}
    (h : decodeValue pt s = .ok (p, n)) :
    p.toPropertyType = pt ∧ ∃ b, encode p = .ok b ∧ b.length ≤ n + 1 := by
  cases pt with
  | maximumQoS =>
    obtain ⟨⟨val, k⟩, hval, h⟩ := bind_eq_ok.mp h
    obtain ⟨qos, hqos, h⟩ := bind_eq_ok.mp h
    obtain ⟨rfl, rfl⟩ := Prod.mk.inj (Outcome.ok.inj h)
    obtain ⟨bytes, hbytes, hle⟩ := encode_decode hval
    rw [← QoS.encode_tryFrom hqos] at hbytes
    obtain ⟨b, hb, hlen⟩ := encProp_of_ok hbytes
    exact ⟨rfl, b, hb, by omega⟩
  | _ =>
    obtain ⟨⟨val, k⟩, hval, h⟩ := bind_eq_ok.mp h
    obtain ⟨rfl, rfl⟩ := Prod.mk.inj (Outcome.ok.inj h)
    obtain ⟨bytes, hbytes, hle⟩ := encode_decode hval
    obtain ⟨b, hb, hlen⟩ := encProp_of_ok hbytes
    exact ⟨rfl, b, hb, by omega⟩

end Property

instance : Packetize.ReadsBack Property where
  decode_encode {p b} h rest := by
    obtain ⟨byte, bytes, hbyte, rfl, hvalue⟩ := Property.encode_eq_ok h
    have hat : At (byte :: bytes ++ rest) 0 ([byte] ++ (bytes ++ rest)) := .start _
    show (decField VarU32 _ 0 >>= _) = _
    rw [decField_at hbyte hat, ok_bind]
    dsimp only
    rw [advance_of_le hat.next.1, ok_bind, hat.next.2, PropertyType.tryFrom_toU32, ok_bind,
      hvalue rest, ok_bind]
    simp
    omega

instance : Packetize.WritesBack Property where
  encode_decode {s p n} h := by
    obtain ⟨⟨propType, k⟩, htype, h⟩ := bind_eq_ok.mp h
    obtain ⟨rest, _, h⟩ := bind_eq_ok.mp h
    obtain ⟨pt, _, h⟩ := bind_eq_ok.mp h
    obtain ⟨⟨p', m⟩, hvalue, h⟩ := bind_eq_ok.mp h
    obtain ⟨rfl, rfl⟩ := Prod.mk.inj (Outcome.ok.inj h)
    obtain ⟨-, b, hb, hle⟩ := Property.encode_decodeValue hvalue
    have hk := ((decField_sat VarU32 s 0).of_ok htype).1
    exact ⟨b, hb, by omega⟩

namespace Property

/-- Encoded, a property starts with the number of its type. -/
theorem encode_starts {p : Property} {b : List UInt8} (h : encode p = .ok b) :
    ∃ byte bytes, b = byte :: bytes ∧ byte.toUInt32 = p.toPropertyType.toU32 := by
  obtain ⟨byte, bytes, hbyte, rfl, -⟩ := encode_eq_ok h
  obtain ⟨number, hnumber, hnat⟩ := p.toPropertyType.encode_toU32
  obtain rfl : byte = number := by simpa [hnumber] using hbyte.symm
  exact ⟨byte, bytes, rfl, hnat⟩

/-- A property of any kind that can be written is read back from its bytes, whatever follows them; the
first byte is the number of its type, and no property takes less than two bytes. -/
theorem decode_encode_single :
    (∀ (p : Property) (b : List UInt8), encode p = .ok b →
      (∀ rest, decode (b ++ rest) = .ok (p, b.length)) ∧ 2 ≤ b.length ∧
        ∃ byte bytes, b = byte :: bytes ∧ byte.toUInt32 = p.toPropertyType.toU32 ∧
          PropertyType.tryFrom byte.toUInt32 = .ok p.toPropertyType) ∧
    ∀ (s : List UInt8) (p : Property) (n : ℕ), decode s = .ok (p, n) → 2 ≤ n ∧ n ≤ s.length := by
  have hbounds {s : List UInt8} {p : Property} {n : ℕ} (h : decode s = .ok (p, n)) :
      2 ≤ n ∧ n ≤ s.length := (decode_bounds s).of_ok h
  refine ⟨?_, fun s p n => hbounds⟩
  intro p b h
  have hread : ∀ rest, decode (b ++ rest) = .ok (p, b.length) := decode_encode h
  obtain ⟨byte, bytes, rfl, hnumber⟩ := encode_starts h
  refine ⟨hread, (hbounds (hread [])).1, byte, bytes, rfl, hnumber, ?_⟩
  rw [hnumber, PropertyType.tryFrom_toU32]

theorem decode_encode_single_maximumQoS :
    encode (maximumQoS .exactlyOnce) = .ok [36, 2] ∧
      decode ([36, 2] ++ [7]) = .ok (maximumQoS .exactlyOnce, 2) :=
  ⟨rfl, (decode_encode_single.1 _ _ rfl).1 [7]⟩

end Property

/-- A list of properties with its length in front. -/
def encRecord (ps : List Property) : Result (List UInt8) := do
  let data ← concat (ps.map encode)
  insertPropertyLen data.length data

theorem insertPropertyLen_eq_ok {data b : List UInt8}
    (h : insertPropertyLen data.length data = .ok b) :
    ∃ len lenBytes, encode (VarU32.mk len) = .ok lenBytes ∧ len.toNat = data.length ∧
      b = lenBytes ++ data := by
  obtain ⟨len, hlen, h⟩ := bind_eq_ok.mp h
  obtain ⟨lenBytes, hbytes, h⟩ := bind_eq_ok.mp h
  rw [Buffer.insertFront_eq] at h
  exact ⟨len, lenBytes, hbytes, u32TryFrom_eq_ok hlen, (Outcome.ok.inj h).symm⟩

theorem encRecord_eq_ok {ps : List Property} {b : List UInt8} (h : encRecord ps = .ok b) :
    ∃ len lenBytes data, encode (VarU32.mk len) = .ok lenBytes ∧ len.toNat = data.length ∧
      concat (ps.map encode) = .ok data ∧ b = lenBytes ++ data := by
  obtain ⟨data, hdata, h⟩ := bind_eq_ok.mp h
  obtain ⟨len, lenBytes, hbytes, hlen, rfl⟩ := insertPropertyLen_eq_ok h
  exact ⟨len, lenBytes, data, hbytes, hlen, hdata, rfl⟩

namespace PropertyList
variable {σ : Type} (list : PropertyList σ)

theorem step_eq_ok {x x' : σ} {dups dups' : List PropertyType} {q : Property} :
    list.step (x, dups) q = .ok (x', dups') ↔
      ¬ (list.unique q.toPropertyType = true ∧ q.toPropertyType ∈ dups) ∧
        list.take x q = .ok x' ∧ dups' = q.toPropertyType :: dups := by
  unfold step
  dsimp only
  by_cases hdup : list.unique q.toPropertyType = true ∧ q.toPropertyType ∈ dups
  · simp [hdup]
  · rw [if_neg (by simpa using hdup), bind_eq_ok]
    constructor
    · rintro ⟨y, hy, h⟩
      obtain ⟨rfl, rfl⟩ := Prod.mk.inj (Outcome.ok.inj h)
      exact ⟨hdup, hy, rfl⟩
    · rintro ⟨-, hx, rfl⟩
      exact ⟨x', hx, rfl⟩

/-- Reading back a list that was written folds its properties. -/
theorem decode_concat (init : σ) {ps : List Property} {data lenBytes : List UInt8} {len : UInt32}
    (hdata : concat (ps.map encode) = .ok data) (hbytes : encode (VarU32.mk len) = .ok lenBytes)
    (hlen : len.toNat = data.length) (rest : List UInt8) :
    list.decode init (lenBytes ++ data ++ rest) =
      ps.foldlM list.step (init, []) >>= fun st =>
        .ok (st.1, (lenBytes ++ data).length) := by
  have hat : At (lenBytes ++ data ++ rest) 0 (lenBytes ++ (data ++ rest)) := by
    rw [← List.append_assoc]
    exact .start _
  rw [PropertyList.decode, decField_at hbytes hat, ok_bind]
  dsimp only
  have hfuel : data.length < (lenBytes ++ data ++ rest).length + 1 := by
    simp only [List.length_append]
    omega
  have hread {q : Property} {b tail : List UInt8} {n : ℕ} (hb : encode q = .ok b)
      (hat : At (lenBytes ++ data ++ rest) n (b ++ tail)) :
      decField Property (lenBytes ++ data ++ rest) n = .ok (q, n + b.length) :=
    decField_at hb hat
  rw [hlen, Nat.add_comm data.length,
    readLoop_concat list.step hread encode_pos hdata hat.next hfuel, bind_assoc,
    List.length_append, Nat.zero_add]
  rfl

/-- What was read is a fold of properties that can be written in as many bytes. -/
theorem items_of_decode {init x : σ} {s : List UInt8} {n : ℕ}
    (h : list.decode init s = .ok (x, n)) :
    ∃ len m ps data dups, (Mqtr.decode s : Result (VarU32 × ℕ)) = .ok (len, m) ∧
      ps.foldlM list.step (init, []) = .ok (x, dups) ∧ concat (ps.map encode) = .ok data ∧
      m + data.length ≤ n ∧ (len.val ≠ 0 → ps ≠ []) := by
  obtain ⟨⟨len, m⟩, hlen, h⟩ := bind_eq_ok.mp h
  obtain ⟨⟨⟨y, dups⟩, k⟩, hloop, h⟩ := bind_eq_ok.mp h
  obtain ⟨rfl, rfl⟩ := Prod.mk.inj (Outcome.ok.inj h)
  obtain ⟨ps, data, hfold, hdata, hle, hne⟩ :=
    items_of_readLoop list.step (fun hread => encode_decField hread) hloop
  have hhead : (Mqtr.decode s : Result (VarU32 × ℕ)) = .ok (len, m) := by
    rw [decField, advance_of_le (Nat.zero_le _), ok_bind, List.drop_zero] at hlen
    obtain ⟨⟨v, j⟩, hv, hlen⟩ := bind_eq_ok.mp hlen
    obtain ⟨rfl, rfl⟩ := Prod.mk.inj (Outcome.ok.inj hlen)
    rw [hv, Nat.zero_add]
  refine ⟨len, m, ps, data, dups, hhead, hfold, hdata, hle, fun hzero => hne ?_⟩
  have hpos : len.val.toNat ≠ 0 := fun he => hzero (UInt32.toNat_inj.mp he)
  omega

end PropertyList

/-- At most one property of each of the given types. -/
def Sparse (types : PropertyType → Bool) (ps : List Property) : Prop :=
  ∀ pt, types pt = true → (group Property.toPropertyType ps pt).length ≤ 1

/-- The types of the properties read so far, the last one first. -/
def seen (ps : List Property) : List PropertyType := (ps.map Property.toPropertyType).reverse

theorem mem_seen {ps : List Property} {pt : PropertyType} :
    pt ∈ seen ps ↔ group Property.toPropertyType ps pt ≠ [] := by
  simp [seen, mem_group, List.eq_nil_iff_forall_not_mem]

theorem seen_append_singleton (ps : List Property) (q : Property) :
    seen (ps ++ [q]) = q.toPropertyType :: seen ps := by
  simp [seen]

/-- A type that comes at most once has not come before a property of it. -/
theorem Sparse.group_eq_nil {types : PropertyType → Bool} {ps qs : List Property} {q : Property}
    (h : Sparse types (ps ++ q :: qs)) (hq : types q.toPropertyType = true) :
    group Property.toPropertyType ps q.toPropertyType = [] := by
  have hlen := h _ hq
  rw [List.append_cons, group_append, group_append, group_singleton, if_pos rfl] at hlen
  simp only [List.length_append, List.length_singleton] at hlen
  exact List.length_eq_zero_iff.mp (by omega)

namespace PropertyList
variable {σ : Type} {list : PropertyList σ}

/-- Some state takes the property. -/
def Accepts (list : PropertyList σ) (q : Property) : Prop := ∃ x x', list.take x q = .ok x'

theorem accepts_of_fold (ps : List Property) {qs : List Property} {x : σ} {st : σ × List PropertyType}
    (h : qs.foldlM list.step (x, seen ps) = .ok st) : ∀ q ∈ qs, list.Accepts q := by
  induction qs generalizing ps x with
  | nil => simp
  | cons q qs ih =>
    rw [List.foldlM_cons] at h
    obtain ⟨⟨y, dups⟩, hstep, h⟩ := bind_eq_ok.mp h
    obtain ⟨-, htake, rfl⟩ := list.step_eq_ok.mp hstep
    rw [← seen_append_singleton] at h
    intro q' hq'
    rcases List.mem_cons.mp hq' with rfl | hmem
    · exact ⟨x, y, htake⟩
    · exact ih (ps ++ [q]) h q' hmem

/-- A list that was taken has no property twice that may come only once. -/
theorem sparse_of_fold (ps : List Property) {qs : List Property} {x : σ} {st : σ × List PropertyType}
    (h : qs.foldlM list.step (x, seen ps) = .ok st) (hps : Sparse list.unique ps) :
    Sparse list.unique (ps ++ qs) := by
  induction qs generalizing ps x with
  | nil => rwa [List.append_nil]
  | cons q qs ih =>
    rw [List.foldlM_cons] at h
    obtain ⟨⟨y, dups⟩, hstep, h⟩ := bind_eq_ok.mp h
    obtain ⟨hnew, -, rfl⟩ := list.step_eq_ok.mp hstep
    rw [← seen_append_singleton] at h
    rw [List.append_cons]
    apply ih (ps ++ [q]) h
    intro pt hpt
    rw [group_append, group_singleton, List.length_append]
    split_ifs with he
    · subst he
      have hnil : group Property.toPropertyType ps q.toPropertyType = [] := by
        by_contra hne
        exact hnew ⟨hpt, mem_seen.mpr hne⟩
      simp [hnil]
    · simpa using hps pt hpt

/-- A list without such repetitions, all of whose properties are accepted, is taken. -/
theorem exists_fold (hany : ∀ q, list.Accepts q → ∀ x, ∃ x', list.take x q = .ok x')
    (ps : List Property) {qs : List Property} (x : σ) (hacc : ∀ q ∈ qs, list.Accepts q)
    (hsparse : Sparse list.unique (ps ++ qs)) :
    ∃ x' dups, qs.foldlM list.step (x, seen ps) = .ok (x', dups) := by
  induction qs generalizing ps x with
  | nil => exact ⟨x, seen ps, rfl⟩
  | cons q qs ih =>
    obtain ⟨y, hy⟩ := hany q (hacc q (by simp)) x
    have hnew : ¬ (list.unique q.toPropertyType = true ∧ q.toPropertyType ∈ seen ps) := by
      rintro ⟨hu, hmem⟩
      exact mem_seen.mp hmem (hsparse.group_eq_nil hu)
    have hstep : list.step (x, seen ps) q = .ok (y, seen (ps ++ [q])) :=
      list.step_eq_ok.mpr ⟨hnew, hy, seen_append_singleton ps q⟩
    rw [List.foldlM_cons, hstep, ok_bind]
    rw [List.append_cons] at hsparse
    exact ih (ps ++ [q]) y (fun q' hq' => hacc q' (List.mem_cons_of_mem _ hq')) hsparse

/-- A property that may come only once is counted once when its type is seen. -/
theorem count_step {x x' : σ} {dups dups' : List PropertyType} {q : Property} {pt : PropertyType}
    {k : ℕ} (h : list.step (x, dups) q = .ok (x', dups')) (hpt : list.unique pt = true)
    (hk : k ≤ if pt ∈ dups then 1 else 0) :
    k + (if q.toPropertyType = pt then 1 else 0) ≤ if pt ∈ dups' then 1 else 0 := by
  obtain ⟨hnew, -, rfl⟩ := list.step_eq_ok.mp h
  by_cases hq : q.toPropertyType = pt
  · subst hq
    rw [if_neg fun hmem => hnew ⟨hpt, hmem⟩] at hk
    simpa using hk
  · simpa [hq, Ne.symm hq] using hk

end PropertyList

/-- How a record stores properties: what it holds of each type, the types it has room for only one
of, and the order in which it is written. -/
structure Layout (σ : Type) where
  held : σ → PropertyType → List Property
  single : PropertyType → Bool
  order : List PropertyType

namespace Layout
variable {σ : Type}

def written (L : Layout σ) (x : σ) : List Property := L.order.flatMap (L.held x)

/-- The record holds these properties and no others. -/
def Holds (L : Layout σ) (x : σ) (ps : List Property) : Prop :=
  ∀ pt, L.held x pt = group Property.toPropertyType ps pt

/-- The layout is that of the records which `list` builds from `init`. A payload format of zero is the
default, and a record does not show whether it was set. -/
structure Lawful (L : Layout σ) (list : PropertyList σ) (init : σ) : Prop where
  nodup : L.order.Nodup
  held_init (pt : PropertyType) : L.held init pt = []
  held_mem {x : σ} {pt : PropertyType} {q : Property} : q ∈ L.held x pt →
    q.toPropertyType = pt ∧ pt ∈ L.order ∧ q ≠ .payloadFormatIndicator 0
  held_single (x : σ) {pt : PropertyType} : L.single pt = true → (L.held x pt).length ≤ 1
  held_ext {x y : σ} : (∀ pt, L.held x pt = L.held y pt) → x = y
  take_any {q : Property} {x x' : σ} : list.take x q = .ok x' → ∀ y, ∃ y', list.take y q = .ok y'
  take_held {x x' : σ} {q : Property} : list.take x q = .ok x' →
    q ≠ .payloadFormatIndicator 0 →
    (L.single q.toPropertyType = true → L.held x q.toPropertyType = []) →
    L.held x' q.toPropertyType = L.held x q.toPropertyType ++ [q] ∧
      ∀ pt, pt ≠ q.toPropertyType → L.held x' pt = L.held x pt

variable {L : Layout σ} {list : PropertyList σ} {init : σ} (hL : L.Lawful list init)
include hL

theorem Lawful.holds_init : L.Holds init [] := fun pt => hL.held_init pt

theorem Lawful.group_written (x : σ) (pt : PropertyType) :
    group Property.toPropertyType (L.written x) pt = L.held x pt := by
  apply group_flatMap _ (fun hq => (hL.held_mem hq).1) hL.nodup
  intro hne
  obtain ⟨q, hq⟩ := List.exists_mem_of_ne_nil _ hne
  exact (hL.held_mem hq).2.1

theorem Lawful.holds_written (x : σ) : L.Holds x (L.written x) :=
  fun pt => (hL.group_written x pt).symm

theorem Lawful.eq_of_holds {x y : σ} {ps : List Property} (hx : L.Holds x ps)
    (hy : L.Holds y ps) : x = y :=
  hL.held_ext fun pt => (hx pt).trans (hy pt).symm

/-- Taking a property into a record adds it to what the record holds. -/
theorem Lawful.holds_take {ps : List Property} {q : Property} {x y : σ} (htake : list.take x q = .ok y)
    (hx : L.Holds x ps) (hq : q ≠ .payloadFormatIndicator 0)
    (hroom : L.single q.toPropertyType = true →
      group Property.toPropertyType ps q.toPropertyType = []) :
    L.Holds y (ps ++ [q]) ∧ q.toPropertyType ∈ L.order := by
  obtain ⟨hadded, hkept⟩ := hL.take_held htake hq fun hs => (hx _).trans (hroom hs)
  constructor
  · intro pt
    rw [group_append, group_singleton, ← hx]
    split_ifs with he
    · subst he
      exact hadded
    · rw [List.append_nil]
      exact hkept pt (Ne.symm he)
  · have hmem : q ∈ L.held y q.toPropertyType := by simp [hadded]
    exact (hL.held_mem hmem).2.1

/-- Taking a list into a record adds it to what the record holds. -/
theorem Lawful.holds_fold {ps qs : List Property} {x x' : σ} {dups dups' : List PropertyType}
    (h : qs.foldlM list.step (x, dups) = .ok (x', dups')) (hx : L.Holds x ps)
    (hqs : ∀ q ∈ qs, q ≠ .payloadFormatIndicator 0) (hsparse : Sparse L.single (ps ++ qs)) :
    L.Holds x' (ps ++ qs) ∧ ∀ q ∈ qs, q.toPropertyType ∈ L.order := by
  induction qs generalizing ps x dups with
  | nil =>
    obtain ⟨rfl, rfl⟩ := Prod.mk.inj (Outcome.ok.inj h)
    simpa using hx
  | cons q qs ih =>
    rw [List.foldlM_cons] at h
    obtain ⟨⟨y, dups₁⟩, hstep, h⟩ := bind_eq_ok.mp h
    obtain ⟨-, htake, -⟩ := list.step_eq_ok.mp hstep
    obtain ⟨hy, hmem⟩ := hL.holds_take htake hx (hqs q (by simp)) fun hs => hsparse.group_eq_nil hs
    rw [List.append_cons] at hsparse ⊢
    obtain ⟨hx', hrest⟩ := ih h hy (fun q' hq' => hqs q' (List.mem_cons_of_mem _ hq')) hsparse
    refine ⟨hx', fun q' hq' => ?_⟩
    rcases List.mem_cons.mp hq' with rfl | hq'
    · exact hmem
    · exact hrest q' hq'

theorem Lawful.sparse_written (x : σ) : Sparse L.single (L.written x) := by
  intro pt hpt
  rw [hL.group_written]
  exact hL.held_single x hpt

/-- A record that was written is read again. -/
theorem Lawful.fold_written {x : σ} (hacc : ∀ q ∈ L.written x, list.Accepts q)
    (hsparse : Sparse list.unique (L.written x)) :
    ∃ dups, (L.written x).foldlM list.step (init, []) = .ok (x, dups) := by
  obtain ⟨y, dups, hfold⟩ :=
    PropertyList.exists_fold (fun _ ⟨_, _, h⟩ => hL.take_any h) [] init hacc hsparse
  have hcanon : ∀ q ∈ L.written x, q ≠ .payloadFormatIndicator 0 := by
    intro q hq
    obtain ⟨pt, -, hq⟩ := List.mem_flatMap.mp hq
    exact (hL.held_mem hq).2.2
  have hy := (hL.holds_fold hfold hL.holds_init hcanon (hL.sparse_written x)).1
  obtain rfl := hL.eq_of_holds hy (hL.holds_written x)
  exact ⟨dups, hfold⟩

/-- A record that was read is written as a rearrangement of what was read. -/
theorem Lawful.written_perm {ps : List Property} {x : σ} {dups : List PropertyType}
    (hsub : ∀ pt, L.single pt = true → list.unique pt = true)
    (hps : ∀ q ∈ ps, q ≠ .payloadFormatIndicator 0)
    (h : ps.foldlM list.step (init, []) = .ok (x, dups)) :
    (L.written x).Perm ps ∧ Sparse list.unique (L.written x) := by
  have hunique : Sparse list.unique ps :=
    PropertyList.sparse_of_fold [] h fun _ _ => by simp
  obtain ⟨hx, hmem⟩ := hL.holds_fold h hL.holds_init hps fun pt hpt => hunique pt (hsub pt hpt)
  constructor
  · have hheld : L.held x = group Property.toPropertyType ps := funext hx
    rw [written, hheld]
    exact flatMap_group_perm _ hL.nodup hmem
  · intro pt hpt
    rw [hL.group_written, hx]
    exact hunique pt hpt

/-- Only the empty record writes nothing. -/
theorem Lawful.written_eq_nil_iff {x : σ} : L.written x = [] ↔ x = init := by
  constructor
  · intro h
    apply hL.held_ext
    intro pt
    rw [hL.held_init, ← hL.group_written, h, group_nil]
  · rintro rfl
    exact List.flatMap_eq_nil_iff.mpr fun pt _ => hL.held_init pt

omit hL in
/-- The reader takes every property that the record holds, and finds none too often. -/
def Accepted (L : Layout σ) (list : PropertyList σ) (x : σ) : Prop :=
  (∀ q ∈ L.written x, list.Accepts q) ∧ Sparse list.unique (L.written x)

theorem Lawful.decode_written {x : σ} (hacc : L.Accepted list x) {data lenBytes : List UInt8}
    {len : UInt32} (hdata : concat ((L.written x).map encode) = .ok data)
    (hbytes : encode (VarU32.mk len) = .ok lenBytes) (hlen : len.toNat = data.length)
    (rest : List UInt8) :
    list.decode init (lenBytes ++ data ++ rest) = .ok (x, (lenBytes ++ data).length) := by
  obtain ⟨dups, hfold⟩ := hL.fold_written hacc.1 hacc.2
  rw [list.decode_concat init hdata hbytes hlen rest, hfold, ok_bind]

theorem Lawful.written_decode (hsub : ∀ pt, L.single pt = true → list.unique pt = true)
    (hcanon : ¬ list.Accepts (.payloadFormatIndicator 0)) {s : List UInt8} {x : σ} {n : ℕ}
    (h : list.decode init s = .ok (x, n)) :
    ∃ len m data, (decode s : Result (VarU32 × ℕ)) = .ok (len, m) ∧
      concat ((L.written x).map encode) = .ok data ∧ m + data.length ≤ n ∧ L.Accepted list x ∧
      (len.val ≠ 0 → L.written x ≠ []) := by
  obtain ⟨len, m, ps, data, dups, hhead, hfold, hdata, hle, hne⟩ := list.items_of_decode h
  have hacc : ∀ q ∈ ps, list.Accepts q := PropertyList.accepts_of_fold [] hfold
  have hps : ∀ q ∈ ps, q ≠ .payloadFormatIndicator 0 := by
    rintro q hq rfl
    exact hcanon (hacc _ hq)
  obtain ⟨hperm, hsparse⟩ := hL.written_perm hsub hps hfold
  obtain ⟨data', hdata', hlen⟩ := concat_perm (hperm.symm.map encode) hdata
  refine ⟨len, m, data', hhead, hdata', by omega, ⟨fun q hq => ?_, hsparse⟩, fun hlen hnil => ?_⟩
  · exact hacc q (hperm.mem_iff.mp hq)
  · rw [hnil] at hperm
    exact hne hlen hperm.nil_eq.symm

end Layout

/-- A record of properties that is read back from what it writes. -/
class PropertySet (σ : Type) [Packetize σ] where
  written : σ → List Property
  Accepted : σ → Prop
  decode_written {x : σ} {data lenBytes : List UInt8} {len : UInt32} : Accepted x →
    concat ((written x).map encode) = .ok data → encode (VarU32.mk len) = .ok lenBytes →
    len.toNat = data.length → ∀ rest,
    decode (lenBytes ++ data ++ rest) = .ok (x, (lenBytes ++ data).length)

/-- A record that writes back what it was read from. -/
class PropertySet.Canonical (σ : Type) [Packetize σ] [PropertySet σ] : Prop where
  written_decode {s : List UInt8} {x : σ} {n : ℕ} : decode s = .ok (x, n) →
    ∃ len m data, (decode s : Result (VarU32 × ℕ)) = .ok (len, m) ∧
      concat ((written x).map encode) = .ok data ∧ m + data.length ≤ n ∧ Accepted x ∧
      (len.val ≠ 0 → written x ≠ [])

/-- What the encoder of the record does. -/
class PropertySet.Encodes (σ : Type) [Packetize σ] [Packetize.Encode σ] [PropertySet σ] :
    Prop where
  encode_eq (x : σ) : encode x = encRecord (PropertySet.written x)

/-- How the packet encoders write properties: absent ones as an empty list. -/
def encProps {σ : Type} [Packetize.Encode σ] (properties : Option σ) : Result (List UInt8) :=
  match properties with
  | some properties => encode properties
  | none => encode (VarU32.mk 0)

section Sets
variable {σ : Type} [Packetize σ] [PropertySet σ] {x : σ} {b s rest : List UInt8} {n m : ℕ}

theorem eq_nil_of_concat {ps : List Property} (h : concat (ps.map encode) = .ok []) : ps = [] := by
  cases ps with
  | nil => rfl
  | cons q ps =>
    obtain ⟨c, cs, hc, -, hnil⟩ := concat_cons_eq_ok.mp h
    have hpos := encode_pos hc
    rw [(List.append_eq_nil_iff.mp hnil.symm).1] at hpos
    exact absurd hpos (by simp)

omit [PropertySet σ] in
/-- Properties are read relative to where they begin. -/
theorem decProps_at {tail : List UInt8} (hat : At s n tail) :
    decProps σ s n = (decProps σ tail 0 >>= fun r => .ok (r.1, n + r.2)) := by
  rw [decProps, decProps, advance_of_le hat.1, advance_of_le (Nat.zero_le _), ok_bind, ok_bind, hat.2,
    List.drop_zero, bind_assoc]
  congr 1
  funext ⟨p, m⟩
  dsimp only
  split_ifs
  · rw [ok_bind, Nat.zero_add]
  · rw [ok_bind, ok_bind, bind_assoc]
    congr 1
    funext ⟨properties, r⟩
    dsimp only
    split_ifs
    · rw [ok_bind, Nat.zero_add]
    · rfl

omit [PropertySet σ] in
/-- Properties that are there were read as a list of the length that is announced. -/
theorem decode_of_decProps (h : decProps σ s n = .ok (some x, m)) :
    ∃ (p : VarU32) (k : ℕ), decode (s.drop n) = .ok (p, k) ∧ p.val ≠ 0 ∧
      decode (s.drop n) = .ok (x, k + p.val.toNat) ∧ m = n + (k + p.val.toNat) := by
  obtain ⟨tail, htail, h⟩ := bind_eq_ok.mp h
  obtain ⟨⟨p, k⟩, hp, h⟩ := bind_eq_ok.mp h
  dsimp only at h
  split_ifs at h with hzero
  · cases h
  rw [htail, ok_bind] at h
  obtain ⟨⟨y, r⟩, hy, h⟩ := bind_eq_ok.mp h
  dsimp only at h
  split_ifs at h with hr
  · obtain ⟨hsome, rfl⟩ := Prod.mk.inj (Outcome.ok.inj h)
    obtain rfl := Option.some.inj hsome
    obtain ⟨-, rfl⟩ := (advance_sat s n).of_ok htail
    exact ⟨p, k, hp, hzero, hr ▸ hy, by rw [hr]⟩
  · exact absurd h (errCode_ne_ok _ _ _ _)

omit [PropertySet σ] in
/-- What `dec_props!` makes of properties that were written: an empty list is none, any other is left
to the decoder of the properties. -/
theorem decProps_record {ps : List Property} (h : encRecord ps = .ok b) (hat : At s n (b ++ rest)) :
    (ps = [] ∧ decProps σ s n = .ok (none, n + b.length)) ∨
      ∃ len lenBytes data, ps ≠ [] ∧ b = lenBytes ++ data ∧ encode (VarU32.mk len) = .ok lenBytes ∧
        len.toNat = data.length ∧ concat (ps.map encode) = .ok data ∧
        decProps σ s n = ((decode (b ++ rest) : Result (σ × ℕ)) >>= fun r =>
          if r.2 = b.length then .ok (some r.1, n + r.2)
          else errCode .protocolError .protocolError s!"property len mismatching {r.2}") := by
  obtain ⟨len, lenBytes, data, hbytes, hlen, hdata, rfl⟩ := encRecord_eq_ok h
  have hhead : (decode (lenBytes ++ data ++ rest) : Result (VarU32 × ℕ)) =
      .ok (⟨len⟩, lenBytes.length) := by
    rw [List.append_assoc]
    exact decode_encode hbytes _
  rw [decProps, advance_of_le hat.1, ok_bind, hat.2, hhead, ok_bind]
  dsimp only
  by_cases hzero : len = 0
  · -- no bytes, no properties
    have hempty : data = [] := by
      rw [hzero] at hlen
      exact List.length_eq_zero_iff.mp hlen.symm
    subst hempty
    rw [if_pos hzero, List.append_nil]
    exact .inl ⟨eq_nil_of_concat hdata, rfl⟩
  · right
    refine ⟨len, lenBytes, data, ?_, rfl, hbytes, hlen, hdata, ?_⟩
    · -- no properties, no bytes
      rintro rfl
      obtain rfl : [] = data := Outcome.ok.inj hdata
      exact absurd (UInt32.toNat_inj.mp hlen) hzero
    · rw [if_neg hzero, ok_bind, List.length_append, ← hlen]

theorem decProps_encRecord (h : encRecord (PropertySet.written x) = .ok b)
    (hacc : PropertySet.Accepted x) (hat : At s n (b ++ rest)) :
    decProps σ s n =
      .ok (if PropertySet.written x = [] then none else some x, n + b.length) := by
  rcases decProps_record (σ := σ) h hat with
    ⟨hnil, hdec⟩ | ⟨len, lenBytes, data, hne, rfl, hbytes, hlen, hdata, hdec⟩
  · rw [hdec, if_pos hnil]
  · rw [hdec, PropertySet.decode_written hacc hdata hbytes hlen, ok_bind, if_neg hne]
    exact if_pos rfl

theorem encRecord_of_decProps [PropertySet.Canonical σ] (h : decProps σ s n = .ok (some x, m)) :
    ∃ b, encRecord (PropertySet.written x) = .ok b ∧ n + b.length ≤ m ∧
      PropertySet.Accepted x ∧ PropertySet.written x ≠ [] := by
  obtain ⟨p, k, hp, hzero, hx, rfl⟩ := decode_of_decProps h
  obtain ⟨len, j, data, hhead, hdata, hle, hacc, hne⟩ := PropertySet.Canonical.written_decode hx
  obtain ⟨rfl, rfl⟩ := Prod.mk.inj (Outcome.ok.inj (hp.symm.trans hhead))
  obtain ⟨hk, hk4, hlt⟩ := VarU32.decode_lt hp
  have hword : u32TryFrom data.length = .ok (.ofNat data.length) := by
    have h32 := p.val.toNat_lt
    exact if_pos (by omega)
  have hnat : (UInt32.ofNat data.length).toNat = data.length := u32TryFrom_eq_ok hword
  obtain ⟨lenBytes, hbytes, hlen⟩ := VarU32.encode_of_lt (v := ⟨.ofNat data.length⟩) hk hk4
    (by rw [hnat]; omega)
  refine ⟨lenBytes ++ data, ?_, ?_, hacc, hne hzero⟩
  · rw [encRecord, hdata, ok_bind, insertPropertyLen, hword, ok_bind, hbytes, ok_bind,
      Buffer.insertFront_eq]
  · rw [List.length_append]
    omega

omit [PropertySet σ] in
/-- A list that is read from a packet has no property twice that may come only once. -/
theorem sparse_of_decProps {list : PropertyList σ} {init : σ} {ps : List Property}
    {r : Option σ × ℕ} (hdecode : ∀ s, (decode s : Result (σ × ℕ)) = list.decode init s)
    (h : encRecord ps = .ok b) (hat : At s n (b ++ rest)) (hr : decProps σ s n = .ok r) :
    Sparse list.unique ps := by
  rcases decProps_record (σ := σ) h hat with
    ⟨rfl, -⟩ | ⟨len, lenBytes, data, -, rfl, hbytes, hlen, hdata, hdec⟩
  · intro pt _
    simp
  · rw [hdec, hdecode, list.decode_concat init hdata hbytes hlen] at hr
    obtain ⟨_, hfold, -⟩ := bind_eq_ok.mp hr
    obtain ⟨st, hst, -⟩ := bind_eq_ok.mp hfold
    exact PropertyList.sparse_of_fold [] hst fun _ _ => by simp

/-- Properties that survive: absent ones, or a set of at least one that its reader accepts. -/
def Survives (properties : Option σ) : Prop :=
  ∀ x, properties = some x → PropertySet.Accepted x ∧ PropertySet.written x ≠ []

variable [Packetize.Encode σ] [PropertySet.Encodes σ] {properties : Option σ}

theorem decProps_encProps (h : encProps properties = .ok b) (hok : Survives properties)
    (hat : At s n (b ++ rest)) : decProps σ s n = .ok (properties, n + b.length) := by
  cases properties with
  | none =>
    rw [decProps, advance_of_le hat.1, ok_bind, hat.2, decode_encode h, ok_bind]
    rfl
  | some x =>
    obtain ⟨hacc, hne⟩ := hok x rfl
    rw [encProps, PropertySet.Encodes.encode_eq] at h
    rw [decProps_encRecord h hacc hat, if_neg hne]

theorem encProps_of_decProps [PropertySet.Canonical σ] [Packetize.Bounded σ]
    (h : decProps σ s n = .ok (properties, m)) :
    ∃ b, encProps properties = .ok b ∧ n + b.length ≤ m ∧ Survives properties := by
  cases properties with
  | none =>
    have hm := ((decProps_sat σ s n).of_ok h).1
    exact ⟨[0], rfl, hm, nofun⟩
  | some x =>
    obtain ⟨b, hb, hle, hok⟩ := encRecord_of_decProps h
    refine ⟨b, ?_, hle, ?_⟩
    · rw [encProps, PropertySet.Encodes.encode_eq, hb]
    · rintro y ⟨⟩
      exact hok

end Sets

end Mqtr
