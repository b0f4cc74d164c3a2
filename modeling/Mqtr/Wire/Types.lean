import Mqtr.Core.Varint
import Mqtr.Wire.Error

/-! Field types of the wire format and their decoders. A decoder takes the bytes that are left and
returns a value with the number of bytes it used. -/
namespace Mqtr
open Outcome

/-- The reading half of the trait `Packetize`. -/
class Packetize (α : Type) where
  decode : List UInt8 → Result (α × ℕ)

export Packetize (decode)

def advance (stream : List UInt8) (n : ℕ) : Result (List UInt8) :=
  if n ≤ stream.length then .ok (stream.drop n)
  else errCode .insufficientBytes .malformedPacket "insufficient bytes in packet"

def isValidUtf8CodePoint (ch : Char) : Bool :=
  let c := ch.toNat
  let invalid := (0xD800 ≤ c ∧ c ≤ 0xDFFF) ∨ c ≤ 0x1F ∨ (0x7F ≤ c ∧ c ≤ 0x9F)
  ¬ invalid

/-- The macro `dec_field!` without a condition. -/
def decField (α : Type) [Packetize α] (stream : List UInt8) (n : ℕ) : Result (α × ℕ) := do
  let rest ← advance stream n
  let (val, m) ← decode rest
  .ok (val, n + m)

/-- The macro `dec_field!` with a condition. -/
def decFieldIf (α : Type) [Packetize α] (stream : List UInt8) (n : ℕ) (pred : Bool) :
    Result (Option α × ℕ) :=
  if pred then do
    let (val, n) ← decField α stream n
    .ok (some val, n)
  else .ok (none, n)

instance : Packetize UInt8 where
  decode
    | b :: _ => .ok (b, 1)
    | [] => errCode .insufficientBytes .malformedPacket "u8::decode()"

instance : Packetize UInt16 where
  decode
    | a :: b :: _ => .ok ((a.toUInt16 <<< 8) ||| b.toUInt16, 2)
    | _ => errCode .insufficientBytes .malformedPacket "u16::decode()"

instance : Packetize UInt32 where
  decode
    | a :: b :: c :: d :: _ =>
      .ok ((a.toUInt32 <<< 24) ||| (b.toUInt32 <<< 16) ||| (c.toUInt32 <<< 8) ||| d.toUInt32, 4)
    | _ => errCode .insufficientBytes .malformedPacket "u32::decode()"

instance : Packetize String where
  decode stream := do
    let (len, _) ← (decode stream : Result (UInt16 × ℕ))
    let len := len.toNat
    if len + 2 > stream.length then
      errCode .insufficientBytes .malformedPacket "String::decode"
    else do
      let bytes ← slice stream 2 (2 + len)
      match String.fromUTF8? bytes.toByteArray with
      | some s =>
        if s.toList.all isValidUtf8CodePoint then .ok (s, 2 + len)
        else errCode .malformedPacket .malformedPacket "String::encode invalid utf8 string"
      | none => errCode .malformedPacket .malformedPacket "String::decode"

instance : Packetize (List UInt8) where
  decode stream := do
    let (len, _) ← (decode stream : Result (UInt16 × ℕ))
    let len := len.toNat
    if len + 2 > stream.length then
      errCode .insufficientBytes .malformedPacket "Vector::decode"
    else do
      let bytes ← slice stream 2 (2 + len)
      .ok (bytes, 2 + len)

abbrev UserProperty := String × String

instance : Packetize UserProperty where
  decode stream := do
    let (key, m) ← (decode stream : Result (String × ℕ))
    let rest ← advance stream m
    let (val, n) ← (decode rest : Result (String × ℕ))
    .ok ((key, val), m + n)

/-- Variable-length integer of at most four bytes. -/
structure VarU32 where
  val : UInt32
  deriving DecidableEq, Repr

/-- The loop of `VarU32::decode` from byte `i` on, with the digits before it in `out`. -/
def VarU32.decodeLoop : List UInt8 → ℕ → UInt32 → Result (VarU32 × ℕ)
  | [], _, _ => errCode .malformedPacket .malformedPacket "VarU32::decode"
  | b :: bs, i, out => do
    let out ← checkedAdd out ((b.toUInt32 &&& 0x7f) <<< (7 * i).toUInt32)
    if b < 0x80 then .ok (⟨out⟩, i + 1) else VarU32.decodeLoop bs (i + 1) out

instance : Packetize VarU32 where
  decode stream := VarU32.decodeLoop (stream.take 4) 0 0

structure ClientID where
  val : String
  deriving DecidableEq, Repr

structure TopicName where
  val : String
  deriving DecidableEq, Repr

structure TopicFilter where
  val : String
  deriving DecidableEq, Repr

/-- Keys of a topic trie. -/
class IterTopicPath (κ : Type) where
  iterTopicPath : κ → List String

export IterTopicPath (iterTopicPath)

/-- `str::split('/')`: a string with `n` separators has `n + 1` levels, some possibly empty. -/
def splitLevels (s : String) : List String :=
  (s.toList.splitOn '/').map String.ofList

instance : IterTopicPath TopicName := ⟨fun key => splitLevels key.val⟩

instance : IterTopicPath TopicFilter := ⟨fun key => splitLevels key.val⟩

/-- A key that is already split. -/
instance : IterTopicPath (List String) := ⟨id⟩

def TopicName.validate (self : TopicName) : Result Unit :=
  if self.val.utf8ByteSize = 0 then
    errCode .malformedPacket .malformedPacket "ZERO length TopicName"
  else if self.val.toList.any (fun ch => ch == '#' || ch == '+' || ch == '\x00') then
    errCode .malformedPacket .malformedPacket ""
  else .ok ()

def TopicFilter.validate (self : TopicFilter) : Result Unit :=
  let levels : List String := iterTopicPath self
  if self.val.utf8ByteSize = 0 then
    errCode .malformedPacket .malformedPacket "ZERO length TopicFilter"
  else if self.val.toList.any (· == '\x00') then
    errCode .malformedPacket .malformedPacket ""
  else if (levels.filter (1 < ·.utf8ByteSize)).any
      (fun l => l.toList.any (fun c => c == '#' || c == '+')) then
    errCode .malformedPacket .malformedPacket "wildcard mixed with chars"
  else if ((levels.dropWhile (· != "#")).drop 1) ≠ [] then
    errCode .malformedPacket .malformedPacket "chars after # wildcard"
  else .ok ()

instance : Packetize TopicName where
  decode stream := do
    let (val, n) ← (decode stream : Result (String × ℕ))
    TopicName.validate ⟨val⟩
    .ok (⟨val⟩, n)

instance : Packetize TopicFilter where
  decode stream := do
    let (val, n) ← (decode stream : Result (String × ℕ))
    TopicFilter.validate ⟨val⟩
    .ok (⟨val⟩, n)

theorem advance_of_le {s : List UInt8} {n : ℕ} (h : n ≤ s.length) :
    advance s n = .ok (s.drop n) :=
  if_pos h

theorem advance_sat (s : List UInt8) (n : ℕ) :
    (advance s n).Sat fun r => n ≤ s.length ∧ r = s.drop n := by
  unfold advance
  split_ifs with h
  · exact ⟨h, rfl⟩
  · exact errCode_sat _ _ _ _

/-- A decoder that always returns and, when it succeeds, has used at least one byte and at most
the bytes it was given. -/
class Packetize.Bounded (α : Type) [Packetize α] : Prop where
  decode_sat (s : List UInt8) :
    (decode s : Result (α × ℕ)).Sat fun r => 0 < r.2 ∧ r.2 ≤ s.length

export Packetize.Bounded (decode_sat)

theorem decField_sat (α : Type) [Packetize α] [Packetize.Bounded α] (s : List UInt8) (n : ℕ) :
    (decField α s n).Sat fun r => n < r.2 ∧ r.2 ≤ s.length := by
  apply (advance_sat s n).bind
  intro rest _ hrest
  obtain ⟨hn, rfl⟩ := hrest
  apply (decode_sat (s.drop n)).bind
  intro r _ hr
  simp only [List.length_drop] at hr
  simp only [sat_ok]
  omega

theorem decField_eq_ok {α : Type} [Packetize α] {s : List UInt8} {n m : ℕ} {v : α} :
    decField α s n = .ok (v, m) ↔
      n ≤ s.length ∧ ∃ k, decode (s.drop n) = .ok (v, k) ∧ m = n + k := by
  unfold decField advance
  split_ifs with hn
  · simp only [ok_bind, bind_eq_ok, Prod.exists, Outcome.ok.injEq, Prod.mk.injEq, hn, true_and]
    constructor
    · rintro ⟨val, k, hval, rfl, rfl⟩
      exact ⟨k, hval, rfl⟩
    · rintro ⟨k, hval, rfl⟩
      exact ⟨v, k, hval, rfl, rfl⟩
  · simp [hn, errCode]

theorem decFieldIf_sat (α : Type) [Packetize α] [Packetize.Bounded α] {s : List UInt8} {n : ℕ}
    (hn : n ≤ s.length) (pred : Bool) :
    (decFieldIf α s n pred).Sat fun r => (n ≤ r.2 ∧ r.2 ≤ s.length) ∧ r.1.isSome = pred := by
  cases pred with
  | false => exact ⟨⟨le_rfl, hn⟩, rfl⟩
  | true =>
    apply (decField_sat α s n).bind
    intro r _ hr
    exact ⟨⟨hr.1.le, hr.2⟩, rfl⟩

/-- A string that is checked after it was decoded. -/
theorem checkedString_eq_ok {α : Type} (check : String → Result Unit) (mk : String → α)
    {s : List UInt8} {v : α} {n : ℕ} :
    ((decode s : Result (String × ℕ)) >>= fun r => check r.1 >>= fun _ => .ok (mk r.1, r.2)) =
        .ok (v, n) ↔ ∃ val, decode s = .ok (val, n) ∧ check val = .ok () ∧ v = mk val := by
  simp only [bind_eq_ok, Prod.exists, Outcome.ok.injEq, Prod.mk.injEq]
  constructor
  · rintro ⟨val, k, hval, ⟨⟩, hcheck, rfl, rfl⟩
    exact ⟨val, hval, hcheck, rfl⟩
  · rintro ⟨val, hval, hcheck, rfl⟩
    exact ⟨val, n, hval, (), hcheck, rfl, rfl⟩

theorem TopicName.decode_eq_ok {s : List UInt8} {v : TopicName} {n : ℕ} :
    decode s = .ok (v, n) ↔ decode s = .ok (v.val, n) ∧ v.validate = .ok () := by
  refine (checkedString_eq_ok (fun val => validate ⟨val⟩) TopicName.mk).trans ?_
  constructor
  · rintro ⟨val, hval, hvalid, rfl⟩
    exact ⟨hval, hvalid⟩
  · rintro ⟨hval, hvalid⟩
    exact ⟨v.val, hval, hvalid, rfl⟩

theorem TopicFilter.decode_eq_ok {s : List UInt8} {v : TopicFilter} {n : ℕ} :
    decode s = .ok (v, n) ↔ decode s = .ok (v.val, n) ∧ v.validate = .ok () := by
  refine (checkedString_eq_ok (fun val => validate ⟨val⟩) TopicFilter.mk).trans ?_
  constructor
  · rintro ⟨val, hval, hvalid, rfl⟩
    exact ⟨hval, hvalid⟩
  · rintro ⟨hval, hvalid⟩
    exact ⟨v.val, hval, hvalid, rfl⟩

/-- A byte that is checked after it was decoded. -/
theorem checkedByte_eq_ok {α β : Type} (check : UInt8 → Result β) (mk : UInt8 → α)
    {s : List UInt8} {v : α} {n : ℕ} :
    (decField UInt8 s 0 >>= fun r => check r.1 >>= fun _ => .ok (mk r.1, r.2)) = .ok (v, n) ↔
      ∃ byte rest, s = byte :: rest ∧ (∃ b, check byte = .ok b) ∧ v = mk byte ∧ n = 1 := by
  cases s with
  | nil => simp [decField, advance, decode, errCode]
  | cons byte rest =>
    have hbyte : decField UInt8 (byte :: rest) 0 = .ok (byte, 1) := rfl
    rw [hbyte, ok_bind]
    simp only [bind_eq_ok, Outcome.ok.injEq, Prod.mk.injEq]
    constructor
    · rintro ⟨b, hb, rfl, rfl⟩
      exact ⟨byte, rest, rfl, ⟨b, hb⟩, rfl, rfl⟩
    · rintro ⟨_, _, ⟨⟩, ⟨b, hb⟩, rfl, rfl⟩
      exact ⟨b, hb, rfl, rfl⟩

instance : Packetize.Bounded UInt8 where
  decode_sat s := by
    cases s with
    | nil => exact errCode_sat _ _ _ _
    | cons b s => simp [decode]

theorem u16_decode_sat (s : List UInt8) :
    (decode s : Result (UInt16 × ℕ)).Sat fun r => r.2 = 2 ∧ 2 ≤ s.length := by
  match s with
  | [] => exact errCode_sat _ _ _ _
  | [_] => exact errCode_sat _ _ _ _
  | _ :: _ :: _ => simp [decode]

instance : Packetize.Bounded UInt16 where
  decode_sat s := (u16_decode_sat s).mono fun r hr => by omega

instance : Packetize.Bounded UInt32 where
  decode_sat s := by
    match s with
    | [] => exact errCode_sat _ _ _ _
    | [_] => exact errCode_sat _ _ _ _
    | [_, _] => exact errCode_sat _ _ _ _
    | [_, _, _] => exact errCode_sat _ _ _ _
    | _ :: _ :: _ :: _ :: _ => simp [decode]

instance : Packetize.Bounded String where
  decode_sat s := by
    apply (u16_decode_sat s).bind
    intro r _ hr
    dsimp only
    split_ifs with hlen
    · exact errCode_sat _ _ _ _
    · rw [slice_of_le (by omega) (by omega), ok_bind]
      split
      · split_ifs
        · simp only [sat_ok]
          omega
        · exact errCode_sat _ _ _ _
      · exact errCode_sat _ _ _ _

instance : Packetize.Bounded (List UInt8) where
  decode_sat s := by
    apply (u16_decode_sat s).bind
    intro r _ hr
    dsimp only
    split_ifs with hlen
    · exact errCode_sat _ _ _ _
    · rw [slice_of_le (by omega) (by omega), ok_bind]
      simp only [sat_ok]
      omega

instance : Packetize.Bounded UserProperty where
  decode_sat s := by
    apply (decode_sat (α := String) s).bind
    intro r _ hr
    apply (advance_sat s r.2).bind
    intro rest _ hrest
    obtain ⟨hn, rfl⟩ := hrest
    apply (decode_sat (α := String) (s.drop r.2)).bind
    intro r' _ hr'
    simp only [List.length_drop] at hr'
    simp only [sat_ok]
    omega

/-- One digit is added above the digits already read, which stay below `128 ^ i`. -/
theorem VarU32.digit_add {b : UInt8} {i : ℕ} {out : UInt32} (hi : i < 4)
    (hout : out.toNat < 128 ^ i) :
    (checkedAdd out ((b.toUInt32 &&& 0x7f) <<< (7 * i).toUInt32) : Result UInt32) =
      .ok (.ofNat (out.toNat + b.toNat % 128 * 128 ^ i)) := by
  have hb : b.toNat % 128 < 128 := Nat.mod_lt _ (by decide)
  have hshift : ((b.toUInt32 &&& 0x7f) <<< (7 * i).toUInt32).toNat = b.toNat % 128 * 128 ^ i := by
    have hmask : (b.toNat &&& 127) = b.toNat % 128 := Nat.and_two_pow_sub_one_eq_mod _ 7
    rw [UInt32.toNat_shiftLeft, UInt32.toNat_and]
    simp only [UInt8.toNat_toUInt32, UInt32.toNat_ofNat, UInt32.toNat_ofNat', Nat.toUInt32_eq]
    interval_cases i <;> simp [Nat.shiftLeft_eq, hmask] <;> omega
  have hlt : out.toNat + b.toNat % 128 * 128 ^ i < 2 ^ 32 := by
    interval_cases i <;> simp at hout ⊢ <;> omega
  rw [checkedAdd, hshift, if_pos hlt]
  congr 1
  apply UInt32.toNat_inj.mp
  rw [UInt32.toNat_add, hshift, UInt32.toNat_ofNat']

theorem VarU32.decodeLoop_eq (bs : List UInt8) (i : ℕ) (out : UInt32) (hi : i + bs.length ≤ 4)
    (hout : out.toNat < 128 ^ i) :
    VarU32.decodeLoop bs i out =
      match Varint.width bs with
      | none => errCode .malformedPacket .malformedPacket "VarU32::decode"
      | some k => .ok (⟨.ofNat (out.toNat + Varint.value (bs.take k) * 128 ^ i)⟩, i + k) := by
  induction bs generalizing i out with
  | nil => rfl
  | cons b bs ih =>
    simp only [List.length_cons] at hi
    have hb : b.toNat % 128 < 128 := Nat.mod_lt _ (by decide)
    rw [VarU32.decodeLoop, VarU32.digit_add (by omega) hout, ok_bind]
    split_ifs with hlt
    · simp [Varint.width, hlt, Varint.value]
    · have hnew : out.toNat + b.toNat % 128 * 128 ^ i < 128 ^ (i + 1) := by
        rw [pow_succ]
        nlinarith
      have hnat : (UInt32.ofNat (out.toNat + b.toNat % 128 * 128 ^ i)).toNat =
          out.toNat + b.toNat % 128 * 128 ^ i := by
        rw [UInt32.toNat_ofNat']
        apply Nat.mod_eq_of_lt
        calc _ < 128 ^ (i + 1) := hnew
          _ ≤ 128 ^ 4 := Nat.pow_le_pow_right (by decide) (by omega)
          _ ≤ 2 ^ 32 := by decide
      rw [ih (i + 1) _ (by omega) (by rw [hnat]; exact hnew), hnat, Varint.width, if_neg hlt]
      cases Varint.width bs with
      | none => rfl
      | some k =>
        have hsum : out.toNat + b.toNat % 128 * 128 ^ i +
              Varint.value (bs.take k) * 128 ^ (i + 1) =
            out.toNat + Varint.value ((b :: bs).take (k + 1)) * 128 ^ i := by
          rw [List.take_succ_cons, Varint.value, pow_succ]
          ring
        simp only [Option.map_some, hsum, add_assoc, add_comm 1 k]

theorem VarU32.decode_eq (s : List UInt8) :
    (decode s : Result (VarU32 × ℕ)) =
      match Varint.width (s.take 4) with
      | none => errCode .malformedPacket .malformedPacket "VarU32::decode"
      | some k => .ok (⟨.ofNat (Varint.value (s.take k))⟩, k) := by
  refine (VarU32.decodeLoop_eq (s.take 4) 0 0 (by simp) (by decide)).trans ?_
  cases hk : Varint.width (s.take 4) with
  | none => rfl
  | some k =>
    have hk4 := (Varint.width_bounds hk).2
    simp only [List.length_take] at hk4
    simp [List.take_take, (by omega : min k 4 = k)]

instance : Packetize.Bounded VarU32 where
  decode_sat s := by
    rw [VarU32.decode_eq]
    cases hk : Varint.width (s.take 4) with
    | none => exact errCode_sat _ _ _ _
    | some k =>
      have hb := Varint.width_bounds hk
      simp only [List.length_take] at hb
      simp only [sat_ok]
      omega

theorem TopicName.validate_sat (t : TopicName) : t.validate.Sat fun _ => True := by
  unfold TopicName.validate
  split_ifs <;> first | exact errCode_sat _ _ _ _ | trivial

theorem TopicFilter.validate_sat (t : TopicFilter) : t.validate.Sat fun _ => True := by
  unfold TopicFilter.validate
  dsimp only
  split_ifs <;> first | exact errCode_sat _ _ _ _ | trivial

instance : Packetize.Bounded TopicName where
  decode_sat s := by
    apply (decode_sat (α := String) s).bind
    intro r _ hr
    exact (TopicName.validate_sat ⟨r.1⟩).bind fun _ _ _ => hr

instance : Packetize.Bounded TopicFilter where
  decode_sat s := by
    apply (decode_sat (α := String) s).bind
    intro r _ hr
    exact (TopicFilter.validate_sat ⟨r.1⟩).bind fun _ _ _ => hr

end Mqtr
