import Mqtr.Reader.Bound

/-! Well-formed frames, and what the first reads of one make of its header. -/
namespace Mqtr
open Outcome

/-- A well-formed frame: the length field is as short as possible and announces the body. -/
structure Frame where
  byte1 : UInt8
  field : List UInt8
  body : List UInt8
  ends : Varint.width field = some field.length
  short : field.length ≤ 4
  minimal : field.length = 1 ∨ field.getLast? ≠ some 0
  announces : Varint.value field = body.length

namespace Frame

def header (F : Frame) : List UInt8 := F.byte1 :: F.field

def bytes (F : Frame) : List UInt8 := F.header ++ F.body

/-- The reads of the header may stop here: the header is complete, the frame is not. -/
def CutAt (F : Frame) (n : ℕ) : Prop := F.header.length ≤ n ∧ n < F.bytes.length

instance (F : Frame) (n : ℕ) : Decidable (F.CutAt n) := inferInstanceAs (Decidable (_ ∧ _))

theorem length_header (F : Frame) : F.header.length = 1 + F.field.length := by
  rw [header, List.length_cons, add_comm]

theorem length_bytes (F : Frame) : F.bytes.length = 1 + F.field.length + F.body.length := by
  rw [bytes, List.length_append, length_header]

theorem field_pos (F : Frame) : 0 < F.field.length := (Varint.width_bounds F.ends).1

/-- The announced length fits a 32-bit word. -/
theorem toNat_body_length (F : Frame) : (UInt32.ofNat F.body.length).toNat = F.body.length := by
  rw [UInt32.toNat_ofNat', ← F.announces]
  apply Nat.mod_eq_of_lt
  calc Varint.value F.field < 128 ^ F.field.length := Varint.value_lt _
    _ ≤ 128 ^ 4 := Nat.pow_le_pow_right (by decide) F.short
    _ ≤ 2 ^ 32 := by decide

/-- The length field is decoded from any bytes that begin with it. -/
theorem decode_field (F : Frame) (rest : List UInt8) :
    (decode (F.field ++ rest) : Result (VarU32 × ℕ)) =
      .ok (⟨.ofNat F.body.length⟩, F.field.length) := by
  have hw : Varint.width ((F.field ++ rest).take 4) = some F.field.length :=
    Varint.width_take (Varint.width_append F.ends rest) F.short
  rw [VarU32.decode_eq, hw]
  simp [F.announces]

theorem lengthEnds_field (F : Frame) (rest : List UInt8) :
    MQTTRead.lengthEnds (F.field ++ rest) := by
  rw [MQTTRead.lengthEnds_iff]
  by_contra hne
  have hnone : Varint.width F.field = Option.none := by
    refine Varint.width_eq_none_iff.mpr fun b hb hlt => hne ⟨b, ?_, UInt8.lt_asymm hlt⟩
    exact List.mem_append_left _ hb
  rw [F.ends] at hnone
  simp at hnone

/-- A header cut short, followed by the zeros of the scratch buffer, announces less. -/
theorem value_take_lt (F : Frame) {j : ℕ} (hj : 0 < j) (hlt : j < F.field.length) :
    Varint.value (F.field.take j) < F.body.length := by
  have hopen := Varint.width_take_none F.ends hlt
  have hlen : (F.field.take j).length = j := List.length_take_of_le hlt.le
  have hrest : Varint.width (F.field.drop j) = some (F.field.drop j).length := by
    have hw := Varint.width_append_of_none hopen (F.field.drop j)
    rw [List.take_append_drop, F.ends, hlen] at hw
    obtain ⟨k, hk, hsum⟩ := Option.map_eq_some_iff.mp hw.symm
    rw [hk, List.length_drop]
    congr 1
    omega
  have hlast : (F.field.drop j).getLast? ≠ some 0 := by
    rw [List.getLast?_drop, if_neg (by omega)]
    exact F.minimal.resolve_left (by omega)
  have hpos := Varint.value_pos hrest hlast
  have hsplit := Varint.value_append (F.field.take j) (F.field.drop j)
  rw [List.take_append_drop, F.announces] at hsplit
  have hpow : 0 < 128 ^ (F.field.take j).length := by positivity
  nlinarith

theorem decode_cut_field (F : Frame) {j : ℕ} (hlt : j < F.field.length) (zeros : List UInt8) :
    (decode (F.field.take j ++ 0 :: zeros) : Result (VarU32 × ℕ)) =
      .ok (⟨.ofNat (Varint.value (F.field.take j))⟩, j + 1) := by
  have hlen : (F.field.take j).length = j := List.length_take_of_le hlt.le
  have hw : Varint.width (F.field.take j ++ 0 :: zeros) = some (j + 1) := by
    rw [Varint.width_append_of_none (Varint.width_take_none F.ends hlt)]
    simp [Varint.width, hlen, add_comm]
  have htake : (F.field.take j ++ 0 :: zeros).take (j + 1) = F.field.take j ++ [0] := by
    rw [List.take_append, hlen]
    simp [List.take_take]
  have hfour := F.short
  rw [VarU32.decode_eq, Varint.width_take hw (by omega)]
  simp [htake, Varint.value_append, Varint.value]

end Frame

namespace MQTTRead
variable (F : Frame)

theorem startRemain_frame (rest data : List UInt8) (start : ℕ) {maxSize : ℕ}
    (hmax : F.bytes.length ≤ maxSize) :
    startRemain F.byte1 (F.field ++ rest) data start maxSize =
      .ok (.remain (resize data F.bytes.length) start ⟨F.byte1, ⟨.ofNat F.body.length⟩⟩ maxSize,
        false) := by
  have hlen : 1 + F.field.length + F.body.length = F.bytes.length := F.length_bytes.symm
  rw [startRemain, F.decode_field, ok_bind]
  simp only [F.toNat_body_length, hlen, readPacketLimit, if_neg (not_lt.mpr hmax), ok_bind]

/-- A first read that contains the whole header. -/
theorem readInit_frame (more : List UInt8) {maxSize : ℕ} (hmax : F.bytes.length ≤ maxSize) :
    readInit [] maxSize (.ok (F.header ++ more)) =
      .ok (.remain (resize (F.header ++ more) F.bytes.length) (F.header ++ more).length
        ⟨F.byte1, ⟨.ofNat F.body.length⟩⟩ maxSize, false) := by
  have htail := scratch_tail F.byte1 (F.field ++ more)
  rw [List.append_assoc] at htail
  have hends := F.lengthEnds_field (more ++ List.replicate (4 - (F.field ++ more).length) 0)
  obtain ⟨c, cs, hcs⟩ := List.exists_cons_of_length_pos F.field_pos
  have hshape : F.header ++ more = F.byte1 :: c :: (cs ++ more) := by simp [Frame.header, hcs]
  have hfield : F.field ++ more = c :: (cs ++ more) := by simp [hcs]
  rw [hshape, readInit_ok, ← hfield, htail, if_pos hends]
  exact startRemain_frame F _ _ _ hmax

/-- A header read that contains the whole length field. -/
theorem readHeader_frame (more : List UInt8) {maxSize : ℕ} (hmax : F.bytes.length ≤ maxSize) :
    readHeader F.byte1 [F.byte1] maxSize (.ok (F.field ++ more)) =
      .ok (.remain (resize (F.header ++ more) F.bytes.length) (F.header ++ more).length
        ⟨F.byte1, ⟨.ofNat F.body.length⟩⟩ maxSize, false) := by
  have hends : lengthEnds (scratch (F.field ++ more)) := by
    rw [scratch, List.append_assoc]
    exact F.lengthEnds_field _
  obtain ⟨c, cs, hcs⟩ := List.exists_cons_of_length_pos F.field_pos
  have hfield : F.field ++ more = c :: (cs ++ more) := by simp [hcs]
  rw [hfield] at hends ⊢
  rw [readHeader_ok (by simp), if_pos hends, ← hfield]
  exact startRemain_frame F _ _ _ hmax

/-- A first read that ends inside the length field starts a packet that is too short. -/
theorem readInit_cut {j : ℕ} (hj : 0 < j) (hlt : j < F.field.length) {maxSize : ℕ}
    {reader : MQTTRead} {block : Bool}
    (h : readInit [] maxSize (.ok (F.byte1 :: F.field.take j)) = .ok (reader, block)) :
    ∃ data start fh, reader = .remain data start fh maxSize ∧ data.length < F.bytes.length := by
  have hshort := F.short
  have hlen : (F.field.take j).length = j := List.length_take_of_le hlt.le
  have hpad : (scratch (F.byte1 :: F.field.take j)).drop 1 =
      F.field.take j ++ 0 :: List.replicate (3 - j) 0 := by
    rw [scratch_tail, hlen, ← List.replicate_succ]
    congr 2
    omega
  obtain ⟨c, cs, hcs⟩ := List.exists_cons_of_length_pos (hlen.symm ▸ hj)
  have hends : lengthEnds (F.field.take j ++ 0 :: List.replicate (3 - j) 0) :=
    lengthEnds_iff.mpr ⟨0, by simp, by decide⟩
  have hvalue := F.value_take_lt hj hlt
  rw [hcs, readInit_ok, ← hcs, hpad, if_pos hends] at h
  obtain ⟨rl, m, hdec, -, heq⟩ := (startRemain_sat _ _ _ _ _).of_ok h
  rw [F.decode_cut_field hlt] at hdec
  obtain ⟨rfl, rfl⟩ := Prod.mk.inj (Outcome.ok.inj hdec)
  obtain ⟨rfl, -⟩ := Prod.mk.inj heq
  refine ⟨_, _, _, rfl, ?_⟩
  rw [length_resize, F.length_bytes]
  have hle : (UInt32.ofNat (Varint.value (F.field.take j))).toNat ≤
      Varint.value (F.field.take j) := by
    rw [UInt32.toNat_ofNat']
    exact Nat.mod_le _ _
  dsimp only
  omega

/-- A header read that ends inside the length field is an error. -/
theorem readHeader_cut {j : ℕ} (hj : 0 < j) (hlt : j < F.field.length) (maxSize : ℕ) :
    readHeader F.byte1 [F.byte1] maxSize (.ok (F.field.take j)) =
      errCode .malformedPacket .malformedPacket "VarU32::decode" := by
  have hshort := F.short
  have hlen : (F.field.take j).length = j := List.length_take_of_le hlt.le
  have hends : lengthEnds (scratch (F.field.take j)) := by
    refine lengthEnds_iff.mpr ⟨0, List.mem_append_right _ ?_, by decide⟩
    exact List.mem_replicate.mpr ⟨by omega, rfl⟩
  obtain ⟨c, cs, hcs⟩ := List.exists_cons_of_length_pos (hlen.symm ▸ hj)
  have hopen := Varint.width_eq_none_iff.mp (Varint.width_take_none F.ends hlt)
  rw [hcs] at hends hopen ⊢
  rw [readHeader_ok (by simp), if_pos hends]
  exact startRemain_unterminated fun b hb => hopen b (List.mem_of_mem_take hb)

end MQTTRead

end Mqtr
