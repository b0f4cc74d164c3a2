import Mqtr.Wire.EncodePacket

/-! The `Blob` that an encoder returns: an array of 32 bytes with the number of those in use, or a vector.
The encoders that choose between the two forms, or copy into the array, are given as the source has them
and shown to hold the bytes of `Mqtr.Wire.Encode`. -/
namespace Mqtr
open Outcome Codec Buffer

inductive Blob where
  | small (data : Vector UInt8 32) (size : ℕ)
  | large (data : List UInt8)
  deriving DecidableEq, Repr

namespace Blob

/-- `[0_u8; 32]`. -/
def zeros : Vector UInt8 32 := .replicate 32 0

def asRef : Blob → Result (List UInt8)
  | .small data size => slice data.toList 0 size
  | .large data => .ok data

/-- A small blob of the bytes that its array begins with. -/
theorem asRef_small {data : Vector UInt8 32} {bytes : List UInt8} (h : bytes <+: data.toList) :
    (small data bytes.length).asRef = .ok bytes :=
  slice_of_isPrefix h

/-- Two parts one after the other in an array: `data[..m]` and `data[m..m + n]`. -/
def ofParts (a b : List UInt8) : Result Blob := do
  let m := a.length
  let n := b.length
  let data ← copyFromSlice zeros 0 m a
  let data ← copyFromSlice data m (m + n) b
  .ok (.small data (m + n))

theorem ofParts_spec {a b : List UInt8} (h : a.length + b.length ≤ 32) :
    ∃ blob, ofParts a b = .ok blob ∧ blob.asRef = .ok (a ++ b) := by
  obtain ⟨data, hdata, ha⟩ := copyFromSlice_replicate (ε := Error) (0 : UInt8)
    (show a.length ≤ 32 by omega)
  obtain ⟨data', hdata', hab⟩ := copyFromSlice_append (ε := Error) ha h
  refine ⟨.small data' (a ++ b).length, ?_, asRef_small hab⟩
  rw [ofParts, zeros, hdata, ok_bind, hdata', ok_bind, List.length_append]

end Blob

/-- `encode` of the trait `Packetize`, with the blob. -/
class Packetize.EncodeBlob (α : Type) where
  encodeBlob : α → Result Blob

export Packetize.EncodeBlob (encodeBlob)

instance : Packetize.EncodeBlob UInt8 := ⟨fun self => .ok (.small (Blob.zeros.set 0 self) 1)⟩

instance : Packetize.EncodeBlob UInt16 where
  encodeBlob self := do
    let data ← copyFromSlice Blob.zeros 0 2 (beBytes16 self)
    .ok (.small data 2)

instance : Packetize.EncodeBlob UInt32 where
  encodeBlob self := do
    let data ← copyFromSlice Blob.zeros 0 4
      [(self >>> 24).toUInt8, (self >>> 16).toUInt8, (self >>> 8).toUInt8, self.toUInt8]
    .ok (.small data 4)

instance : Packetize.EncodeBlob VarU32 where
  encodeBlob self :=
    let val := self.val
    let data := Blob.zeros
    if val < 128 then .ok (.small (data.set 0 (VarU32.digit val 0)) 1)
    else if val < 16384 then
      let data := data.set 0 (VarU32.digit val 0 ||| 0x80)
      .ok (.small (data.set 1 (VarU32.digit val 7)) 2)
    else if val < 2097152 then
      let data := data.set 0 (VarU32.digit val 0 ||| 0x80)
      let data := data.set 1 (VarU32.digit val 7 ||| 0x80)
      .ok (.small (data.set 2 (VarU32.digit val 14)) 3)
    else if val ≤ VarU32.max then
      let data := data.set 0 (VarU32.digit val 0 ||| 0x80)
      let data := data.set 1 (VarU32.digit val 7 ||| 0x80)
      let data := data.set 2 (VarU32.digit val 14 ||| 0x80)
      .ok (.small (data.set 3 (VarU32.digit val 21)) 4)
    else errDesc .protocolError s!"VarU32::encode({val})"

instance : Packetize.EncodeBlob String where
  encodeBlob self :=
    let n := self.utf8ByteSize
    if !self.toList.all isValidUtf8CodePoint then
      errDesc .protocolError "String::encode invalid utf8 string"
    else if n > 65535 then errDesc .protocolError s!"String::encode too large {n}"
    else if n < 30 then do
      let data ← copyFromSlice Blob.zeros 0 2 (beBytes16 (.ofNat n))
      let data ← copyFromSlice data 2 (2 + n) (asBytes self)
      .ok (.small data (2 + n))
    else .ok (.large (beBytes16 (.ofNat n) ++ asBytes self))

instance : Packetize.EncodeBlob (List UInt8) where
  encodeBlob self :=
    let n := self.length
    if n > 65535 then errDesc .protocolError s!"Vector::encode({n})"
    else .ok (.large (beBytes16 (.ofNat n) ++ self))

instance : Packetize.EncodeBlob UserProperty where
  encodeBlob self := do
    let keyBlob ← encodeBlob self.1
    let valBlob ← encodeBlob self.2
    let key ← keyBlob.asRef
    let val ← valBlob.asRef
    if key.length + val.length < 32 then Blob.ofParts key val
    else .ok (.large (key ++ val))

instance : Packetize.EncodeBlob TopicName where
  encodeBlob self := do
    self.validate
    encodeBlob self.val

instance : Packetize.EncodeBlob TopicFilter where
  encodeBlob self := do
    self.validate
    encodeBlob self.val

instance : Packetize.EncodeBlob FixedHeader where
  encodeBlob self := do
    self.validate
    let byte1 ← encodeBlob self.byte1
    let remainingLen ← encodeBlob self.remainingLen
    let byte1 ← byte1.asRef
    let remainingLen ← remainingLen.asRef
    Blob.ofParts byte1 remainingLen

/-- The array is filled up to its second byte, whatever the length of the header. -/
def Blob.ofPing (fh : Result FixedHeader) : Result Blob := do
  let fh ← fh
  let blob ← encodeBlob fh
  let bytes ← blob.asRef
  let data ← copyFromSlice Blob.zeros 0 2 bytes
  .ok (.small data 2)

instance : Packetize.EncodeBlob PingReq := ⟨fun _ => Blob.ofPing (FixedHeader.new .pingResp ⟨0⟩)⟩

instance : Packetize.EncodeBlob PingResp := ⟨fun _ => Blob.ofPing (FixedHeader.new .pingReq ⟨0⟩)⟩

/-- The blob holds the bytes, or both are the same error. There is no abort on either side. -/
inductive Holds : Result Blob → Result (List UInt8) → Prop
  | ok {blob : Blob} {bytes : List UInt8} (h : blob.asRef = .ok bytes) : Holds (.ok blob) (.ok bytes)
  | err (e : Error) : Holds (.err e) (.err e)

theorem Holds.large (bytes : List UInt8) : Holds (.ok (.large bytes)) (.ok bytes) :=
  .ok rfl

theorem Holds.ofParts {a b : List UInt8} (h : a.length + b.length ≤ 32) :
    Holds (Blob.ofParts a b) (.ok (a ++ b)) := by
  obtain ⟨blob, hblob, href⟩ := Blob.ofParts_spec h
  rw [hblob]
  exact .ok href

/-- A check before both. -/
theorem Holds.check {x : Result Unit} (hx : x.Sat fun _ => True) {y : Result Blob}
    {z : Result (List UInt8)} (h : Holds y z) : Holds (x >>= fun _ => y) (x >>= fun _ => z) := by
  cases x with
  | ok _ => exact h
  | err e => exact .err e
  | panic => exact absurd hx id

/-- What is done with the bytes of two blobs. -/
theorem Holds.two {x x' : Result Blob} {y y' : Result (List UInt8)} (h : Holds x y)
    (h' : Holds x' y') {f : List UInt8 → List UInt8 → Result Blob}
    {g : List UInt8 → List UInt8 → Result (List UInt8)}
    (hfg : ∀ a b, y = .ok a → y' = .ok b → Holds (f a b) (g a b)) :
    Holds (do
      let blob ← x
      let blob' ← x'
      let a ← blob.asRef
      let b ← blob'.asRef
      f a b) (do
      let a ← y
      let b ← y'
      g a b) := by
  cases h with
  | err e => exact .err e
  | ok h =>
    cases h' with
    | err e => exact .err e
    | ok h' =>
      simp only [ok_bind, h, h']
      exact hfg _ _ rfl rfl

/-- The encoder with blobs writes what the encoder without them writes. -/
class Packetize.Stores (α : Type) [Packetize.Encode α] [Packetize.EncodeBlob α] : Prop where
  holds (v : α) : Holds (encodeBlob v) (encode v)

export Packetize.Stores (holds)

instance : Packetize.Stores UInt8 where
  holds _ := .ok rfl

/-- Bytes that fill the array from the front. -/
theorem Holds.copied (bytes : List UInt8) (h : bytes.length ≤ 32) :
    Holds (copyFromSlice Blob.zeros 0 bytes.length bytes >>= fun data =>
      .ok (.small data bytes.length)) (.ok bytes) := by
  obtain ⟨data, hdata, hbytes⟩ := copyFromSlice_replicate (ε := Error) (0 : UInt8) h
  rw [Blob.zeros, hdata, ok_bind]
  exact .ok (Blob.asRef_small hbytes)

instance : Packetize.Stores UInt16 where
  holds self := Holds.copied (beBytes16 self) (by simp [beBytes16])

instance : Packetize.Stores UInt32 where
  holds self := Holds.copied [_, _, _, _] (by simp)

instance : Packetize.Stores VarU32 where
  holds self := by
    simp only [encodeBlob, encode]
    -- one case per length
    split_ifs
    · exact .ok rfl
    · exact .ok rfl
    · exact .ok rfl
    · exact .ok rfl
    · exact .err _

instance : Packetize.Stores String where
  holds self := by
    simp only [encodeBlob, encode]
    split_ifs with hvalid hlong hshort
    · exact .err _
    · exact .err _
    · have hlen : (asBytes self).length = self.utf8ByteSize := length_asBytes self
      have hparts : Holds (Blob.ofParts (beBytes16 (.ofNat self.utf8ByteSize)) (asBytes self)) _ :=
        .ofParts (by simp [beBytes16]; omega)
      rw [Blob.ofParts, hlen] at hparts
      exact hparts
    · exact .large _

instance : Packetize.Stores (List UInt8) where
  holds self := by
    simp only [encodeBlob, encode]
    split_ifs
    · exact .err _
    · exact .large _

instance : Packetize.Stores UserProperty where
  holds self := by
    refine (holds self.1).two (holds self.2) fun key val _ _ => ?_
    split_ifs with hshort
    · exact .ofParts hshort.le
    · exact .large _

instance : Packetize.Stores TopicName where
  holds self := (holds self.val).check self.validate_sat

instance : Packetize.Stores TopicFilter where
  holds self := (holds self.val).check self.validate_sat

instance : Packetize.Stores FixedHeader where
  holds self := by
    refine Holds.check (self.validate_sat.mono fun _ _ => trivial) ?_
    refine (holds self.byte1).two (holds self.remainingLen) (f := Blob.ofParts)
      (g := fun a b => .ok (a ++ b)) fun a b ha hb => ?_
    obtain rfl := Outcome.ok.inj ha
    have hlen := (VarU32.encode_eq_ok hb).2.2.1
    exact .ofParts (by simp; omega)

instance : Packetize.Stores PingReq where
  holds _ := .ok rfl

instance : Packetize.Stores PingResp where
  holds _ := .ok rfl

section Stores
variable {α : Type} [Packetize.Encode α] [Packetize.EncodeBlob α] [Packetize.Stores α] {v : α}
  {blob : Blob}

theorem encodeBlob_ne_panic (v : α) : encodeBlob v ≠ .panic := by
  intro h
  have hholds := holds v
  rw [h] at hholds
  cases hholds

theorem asRef_encodeBlob (h : encodeBlob v = .ok blob) : ∃ b, encode v = .ok b ∧ blob.asRef = .ok b := by
  have hholds := holds v
  rw [h] at hholds
  generalize encode v = bytes at hholds
  cases hholds with
  | ok href => exact ⟨_, rfl, href⟩

theorem exists_encodeBlob_iff : (∃ blob, encodeBlob v = .ok blob) ↔ ∃ b, encode v = .ok b := by
  constructor
  · rintro ⟨blob, h⟩
    obtain ⟨b, hb, -⟩ := asRef_encodeBlob h
    exact ⟨b, hb⟩
  · rintro ⟨b, hb⟩
    have hholds := holds v
    rw [hb] at hholds
    generalize encodeBlob v = x at hholds
    cases hholds with
    | ok href => exact ⟨_, rfl⟩

end Stores

/-- The length in two bytes, the higher one first, and then the bytes. -/
def lengthPrefixed (bytes : List UInt8) : List UInt8 :=
  UInt8.ofNat (bytes.length / 256) :: UInt8.ofNat (bytes.length % 256) :: bytes

theorem beBytes16_append {bytes : List UInt8} (h : bytes.length ≤ 65535) :
    beBytes16 (.ofNat bytes.length) ++ bytes = lengthPrefixed bytes := by
  have hlen : (UInt16.ofNat bytes.length).toNat = bytes.length :=
    UInt16.toNat_ofNat_of_lt' (Nat.lt_succ_of_le h)
  have hhigh : (UInt16.ofNat bytes.length >>> 8).toUInt8 = UInt8.ofNat (bytes.length / 256) := by
    apply UInt8.toNat_inj.mp
    rw [UInt16.toNat_toUInt8, UInt16.toNat_shiftRight, hlen, UInt8.toNat_ofNat',
      Nat.shiftRight_eq_div_pow]
    rfl
  have hlow : (UInt16.ofNat bytes.length).toUInt8 = UInt8.ofNat (bytes.length % 256) := by
    apply UInt8.toNat_inj.mp
    rw [UInt16.toNat_toUInt8, hlen, UInt8.toNat_ofNat', Nat.mod_mod]
  rw [beBytes16, hhigh, hlow]
  rfl

/-- Encoding succeeds exactly for the values that fit, without overrunning a buffer; the blob then holds
the bytes that belong to the value, and these are read back whatever follows them. -/
structure FieldCodec (α : Type) [Packetize α] [Packetize.EncodeBlob α] (fits : α → Prop)
    (bytes : α → List UInt8) : Prop where
  encodes (v : α) : (∃ blob, encodeBlob v = .ok blob) ↔ fits v
  returns (v : α) : encodeBlob v ≠ .panic
  holds {v : α} {blob : Blob} (h : encodeBlob v = .ok blob) : blob.asRef = .ok (bytes v)
  decodes {v : α} (h : fits v) (rest : List UInt8) :
    decode (bytes v ++ rest) = .ok (v, (bytes v).length)

theorem FieldCodec.of_encode {α : Type} [Packetize α] [Packetize.Encode α] [Packetize.ReadsBack α]
    [Packetize.EncodeBlob α] [Packetize.Stores α] {fits : α → Prop} {bytes : α → List UInt8}
    (h : ∀ v b, encode v = .ok b ↔ fits v ∧ b = bytes v) : FieldCodec α fits bytes where
  encodes v := by
    rw [exists_encodeBlob_iff]
    constructor
    · rintro ⟨b, hb⟩
      exact ((h v b).mp hb).1
    · intro hv
      exact ⟨bytes v, (h v _).mpr ⟨hv, rfl⟩⟩
  returns := encodeBlob_ne_panic
  holds {v _} hblob := by
    obtain ⟨b, hb, href⟩ := asRef_encodeBlob hblob
    obtain ⟨-, rfl⟩ := (h v b).mp hb
    exact href
  decodes {v} hv := decode_encode ((h v _).mpr ⟨hv, rfl⟩)

/-- Every character passes the check, and the length fits in two bytes. -/
def String.Fits (s : String) : Prop :=
  (∀ ch ∈ s.toList, isValidUtf8CodePoint ch = true) ∧ (asBytes s).length ≤ 65535

theorem String.encode_iff (s : String) (b : List UInt8) :
    encode s = .ok b ↔ Fits s ∧ b = lengthPrefixed (asBytes s) := by
  constructor
  · intro h
    obtain ⟨hvalid, hlen, rfl⟩ := encode_eq_ok h
    exact ⟨⟨List.all_eq_true.mp hvalid, hlen⟩, beBytes16_append hlen⟩
  · rintro ⟨⟨hvalid, hlen⟩, rfl⟩
    rw [encode_of_short (List.all_eq_true.mpr hvalid) hlen, beBytes16_append hlen]

theorem binary_encode_iff (data b : List UInt8) :
    encode data = .ok b ↔ data.length ≤ 65535 ∧ b = lengthPrefixed data := by
  simp only [encode]
  split_ifs with hlong
  · simp [errDesc, not_le.mpr hlong]
  · have hlen := not_lt.mp hlong
    rw [beBytes16_append hlen, Outcome.ok.injEq]
    exact ⟨fun h => ⟨hlen, h.symm⟩, fun h => h.2.symm⟩

theorem userProperty_encode_iff (self : UserProperty) (b : List UInt8) :
    encode self = .ok b ↔ (String.Fits self.1 ∧ String.Fits self.2) ∧
      b = lengthPrefixed (asBytes self.1) ++ lengthPrefixed (asBytes self.2) := by
  change (encode self.1 >>= fun key => encode self.2 >>= fun val => .ok (key ++ val)) = .ok b ↔ _
  simp only [bind_eq_ok, String.encode_iff, Outcome.ok.injEq]
  constructor
  · rintro ⟨_, ⟨hkey, rfl⟩, _, ⟨hval, rfl⟩, rfl⟩
    exact ⟨⟨hkey, hval⟩, rfl⟩
  · rintro ⟨⟨hkey, hval⟩, rfl⟩
    exact ⟨_, ⟨hkey, rfl⟩, _, ⟨hval, rfl⟩, rfl⟩

/-- The fields of variable length: each is its length and its content, a pair is its two strings. -/
theorem fields_codec :
    FieldCodec String String.Fits (fun s => lengthPrefixed (asBytes s)) ∧
      FieldCodec (List UInt8) (fun data => data.length ≤ 65535) lengthPrefixed ∧
      FieldCodec UserProperty (fun pair => String.Fits pair.1 ∧ String.Fits pair.2)
        (fun pair => lengthPrefixed (asBytes pair.1) ++ lengthPrefixed (asBytes pair.2)) :=
  ⟨.of_encode String.encode_iff, .of_encode binary_encode_iff, .of_encode userProperty_encode_iff⟩

namespace VarU32

theorem exists_encode_iff (v : VarU32) : (∃ b, encode v = .ok b) ↔ v.val ≤ max := by
  constructor
  · rintro ⟨b, hb⟩
    obtain ⟨-, hvalue, hlen, -⟩ := encode_eq_ok hb
    have hlt := Varint.value_lt b
    have hpow : 128 ^ b.length ≤ 128 ^ 4 := Nat.pow_le_pow_right (by decide) hlen
    rw [UInt32.le_iff_toNat_le]
    change v.val.toNat ≤ 268435455
    omega
  · exact encode_of_le

/-- A field ends with the first byte below 128, among the first four. -/
theorem decode_eq_ok_iff {s : List UInt8} {w : VarU32} {n : ℕ} :
    decode s = .ok (w, n) ↔ n ≤ 4 ∧ Varint.EndsAt s n ∧
      w.val.toNat = Nat.ofDigits 128 ((s.take n).map (·.toNat % 128)) ∧ w.val ≤ max := by
  rw [← Varint.value_eq_ofDigits, ← Varint.width_eq_some_iff]
  have hfits (hn : n ≤ 4) : Varint.value (s.take n) ≤ 268435455 := by
    have hlt := Varint.value_lt (s.take n)
    have hpow : 128 ^ (s.take n).length ≤ 128 ^ 4 :=
      Nat.pow_le_pow_right (by decide) ((List.length_take_le _ _).trans hn)
    omega
  constructor
  · intro h
    obtain ⟨-, hn, -⟩ := decode_lt h
    rw [decode_eq] at h
    cases hwidth : Varint.width (s.take 4) with
    | none =>
      rw [hwidth] at h
      exact absurd h (errCode_ne_ok _ _ _ _)
    | some k =>
      rw [hwidth] at h
      obtain ⟨rfl, rfl⟩ := Prod.mk.inj (Outcome.ok.inj h)
      have hvalue : (UInt32.ofNat (Varint.value (s.take k))).toNat = Varint.value (s.take k) :=
        UInt32.toNat_ofNat_of_lt' ((hfits hn).trans_lt (by decide))
      refine ⟨hn, (Varint.width_take_eq_some_iff.mp hwidth).2, hvalue, ?_⟩
      rw [UInt32.le_iff_toNat_le, hvalue]
      exact hfits hn
  · rintro ⟨hn, hwidth, hvalue, -⟩
    rw [decode_eq, Varint.width_take hwidth hn]
    dsimp only
    rw [← hvalue, UInt32.ofNat_toNat]

/-- Encoding succeeds up to the greatest number of four digits, with the least number of bytes from which
the number can be read. Decoding takes the bytes up to the first without a continuation bit, and its sum
does not overflow. -/
theorem shortest_codec :
    (∀ v : VarU32, ((∃ blob, encodeBlob v = .ok blob) ↔ v.val ≤ 268435455) ∧
      ∀ blob, encodeBlob v = .ok blob → ∃ b, blob.asRef = .ok b ∧ 1 ≤ b.length ∧ b.length ≤ 4 ∧
        IsLeast {n | ∃ s, decode s = .ok (v, n)} b.length ∧
        ∀ rest, decode (b ++ rest) = .ok (v, b.length)) ∧
    (∀ (s : List UInt8) (w : VarU32) (n : ℕ), decode s = .ok (w, n) ↔
      n ≤ 4 ∧ Varint.EndsAt s n ∧
        w.val.toNat = Nat.ofDigits 128 ((s.take n).map (·.toNat % 128)) ∧ w.val ≤ 268435455) ∧
    ∀ s : List UInt8, (decode s : Result (VarU32 × ℕ)) ≠ .panic := by
  refine ⟨fun v => ⟨exists_encodeBlob_iff.trans (exists_encode_iff v), fun blob hblob => ?_⟩,
    fun s w n => decode_eq_ok_iff, fun s => (decode_sat s).ne_panic⟩
  obtain ⟨b, hb, href⟩ := asRef_encodeBlob hblob
  have hread := decode_encode hb
  refine ⟨b, href, encode_pos hb, (encode_eq_ok hb).2.2.1, ⟨⟨b ++ [], hread []⟩, ?_⟩, hread⟩
  rintro n ⟨s, hs⟩
  obtain ⟨b', hb', hle⟩ := encode_decode hs
  obtain rfl := Outcome.ok.inj (hb.symm.trans hb')
  exact hle

end VarU32
end Mqtr
