import Mathlib.Data.List.TakeWhile
import Mqtr.Reader.Safety

/-! How much the reader buffers. The limit is checked once the scan for the end of the length field
stops, so the bound depends on how the bytes of the field are spread over the reads. -/
namespace Mqtr
open Outcome

namespace MQTTRead

theorem lengthEnds_iff {bytes : List UInt8} : lengthEnds bytes ↔ ∃ b ∈ bytes, ¬ b > 0x80 := by
  rw [lengthEnds, ← not_iff_not, Bool.not_eq_true, Option.isSome_eq_false_iff, Option.isNone_iff_eq_none,
    List.head?_eq_none_iff, List.dropWhile_eq_nil_iff]
  simp

/-- Five bytes or more, without an end of the length field in the four bytes after the first. -/
def Unterminated (bytes : List UInt8) : Prop :=
  5 ≤ bytes.length ∧ ∀ b ∈ (bytes.drop 1).take 4, ¬ b < 0x80

/-- How a read may cut the length field: a first read of more than one byte contains the end of the
field, or is full and contains `0x80`; a later read is not full of bytes above `0x80`. -/
def FieldCut : MQTTRead → ReadResult → Prop
  | .init _ _, .ok bytes =>
    2 ≤ bytes.length →
      (∃ b ∈ bytes.drop 1, b < 0x80) ∨ bytes.length = 5 ∧ ∃ b ∈ bytes.drop 1, b = 0x80
  | .header _ _ _, .ok bytes => bytes.length = 5 → ∃ b ∈ bytes, ¬ b > 0x80
  | _, _ => True

instance : ∀ (self : MQTTRead) (res : ReadResult), Decidable (self.FieldCut res)
  | .init _ _, .ok bytes =>
    inferInstanceAs (Decidable (2 ≤ bytes.length →
      (∃ b ∈ bytes.drop 1, b < 0x80) ∨ bytes.length = 5 ∧ ∃ b ∈ bytes.drop 1, b = 0x80))
  | .header _ _ _, .ok bytes =>
    inferInstanceAs (Decidable (bytes.length = 5 → ∃ b ∈ bytes, ¬ b > 0x80))
  | .none, _ | .remain _ _ _ _, _ | .fin _ _ _, _ => isTrue trivial
  | .init _ _, .wouldBlock | .init _ _, .failed => isTrue trivial
  | .header _ _ _, .wouldBlock | .header _ _ _, .failed => isTrue trivial

/-- The end of the field lies in the bytes it was decoded from. -/
theorem ended_of_decode {field : List UInt8} {rl : VarU32} {m : ℕ}
    (h : (decode field : Result (VarU32 × ℕ)) = .ok (rl, m)) : ∃ b ∈ field.take 4, b < 0x80 := by
  rw [VarU32.decode_eq] at h
  by_contra hne
  have hnone : Varint.width (field.take 4) = Option.none :=
    Varint.width_eq_none_iff.mpr fun b hb hlt => hne ⟨b, hb, hlt⟩
  rw [hnone] at h
  exact errCode_ne_ok _ _ _ _ h

/-- A decoder error on a field without an end. -/
theorem startRemain_unterminated {byte1 : UInt8} {field data : List UInt8} {start maxSize : ℕ}
    (h : ∀ b ∈ field.take 4, ¬ b < 0x80) :
    startRemain byte1 field data start maxSize =
      errCode .malformedPacket .malformedPacket "VarU32::decode" := by
  rw [startRemain, VarU32.decode_eq, Varint.width_eq_none_iff.mpr h]
  rfl

theorem scratch_tail (b : UInt8) (bytes : List UInt8) :
    (scratch (b :: bytes)).drop 1 = bytes ++ List.replicate (4 - bytes.length) 0 := by
  simp [scratch]

theorem initEnds_of_cut {b c : UInt8} {bytes : List UInt8} {m : ℕ}
    (hcut : FieldCut (.init [] m) (.ok (b :: c :: bytes))) :
    lengthEnds ((scratch (b :: c :: bytes)).drop 1) := by
  rw [lengthEnds_iff, scratch_tail]
  rcases hcut (by simp) with ⟨x, hx, hlt⟩ | ⟨-, x, hx, heq⟩
  · exact ⟨x, List.mem_append_left _ hx, UInt8.lt_asymm hlt⟩
  · exact ⟨x, List.mem_append_left _ hx, by simp [heq]⟩

/-- A full first read leaves no zero in the scratch buffer. -/
theorem scratch_full {b : UInt8} {bytes : List UInt8} (hfull : (b :: bytes).length = 5) :
    (scratch (b :: bytes)).drop 1 = bytes := by
  rw [scratch_tail]
  simp only [List.length_cons] at hfull
  simp [(by omega : 4 - bytes.length = 0)]

theorem headerEnds_of_cut {b : UInt8} {data bytes : List UInt8} {m : ℕ} (hlen : bytes.length ≤ 5)
    (hcut : FieldCut (.header b data m) (.ok bytes)) : lengthEnds (scratch bytes) := by
  rw [lengthEnds_iff]
  by_cases hfull : bytes.length = 5
  · obtain ⟨x, hx, hle⟩ := hcut hfull
    exact ⟨x, List.mem_append_left _ hx, hle⟩
  · refine ⟨0, List.mem_append_right _ ?_, by decide⟩
    exact List.mem_replicate.mpr ⟨by omega, rfl⟩

/-- In place, the buffer keeps its length. -/
theorem readRemain_length {data : List UInt8} {start : ℕ} {fh : FixedHeader} {maxSize : ℕ}
    {res : ReadResult} {reader : MQTTRead} {block : Bool}
    (h : readRemain data start fh maxSize res = .ok (reader, block)) :
    (∃ d s, reader = .remain d s fh maxSize ∧ d.length = data.length) ∨
      ∃ d, reader = .fin d fh maxSize ∧ d.length = data.length := by
  match res with
  | .wouldBlock =>
    obtain ⟨rfl, -⟩ := Prod.mk.inj (Outcome.ok.inj h)
    exact .inl ⟨data, start, rfl, rfl⟩
  | .failed => simp [readRemain, errDesc] at h
  | .ok [] => simp [readRemain, errDesc] at h
  | .ok (b :: bytes) =>
    simp only [readRemain] at h
    split_ifs at h with h₁ h₂
    · obtain ⟨rfl, -⟩ := Prod.mk.inj (Outcome.ok.inj h)
      refine .inr ⟨_, rfl, ?_⟩
      simp only [List.length_append, List.length_take, List.length_drop]
      omega
    · obtain ⟨rfl, -⟩ := Prod.mk.inj (Outcome.ok.inj h)
      refine .inl ⟨_, _, rfl, ?_⟩
      simp only [List.length_append, List.length_take, List.length_drop]
      omega

end MQTTRead

namespace Reading
open MQTTRead

/-- A reader whose buffer is within the limit and, past the header, whose length field ended within
four bytes. -/
def Bounded (maxSize : ℕ) (s : Reading) : Prop :=
  match s.reader with
  | .none => False
  | .init data m => data = [] ∧ s.received = [] ∧ m = maxSize
  | .header b data m => data = [b] ∧ s.received = [b] ∧ m = maxSize
  | .remain data _ _ m =>
    data.length ≤ maxSize ∧ (∃ b ∈ (s.received.drop 1).take 4, b < 0x80) ∧ m = maxSize
  | .fin data _ m =>
    data.length ≤ maxSize ∧ (∃ b ∈ (s.received.drop 1).take 4, b < 0x80) ∧ m = maxSize

/-- Answers within the buffer that cut the length field as required. -/
def CutsField (s : Reading) : ReadEvent → Prop
  | .read res => s.reader.Fits res ∧ s.reader.FieldCut res
  | .reset => True

instance (s : Reading) : ∀ e : ReadEvent, Decidable (s.CutsField e)
  | .read res => inferInstanceAs (Decidable (s.reader.Fits res ∧ s.reader.FieldCut res))
  | .reset => isTrue trivial

/-- A field that has ended stays so, whatever is received after it. -/
theorem ended_append {xs : List UInt8} (h : ∃ b ∈ (xs.drop 1).take 4, b < 0x80)
    (ys : List UInt8) : ∃ b ∈ ((xs ++ ys).drop 1).take 4, b < 0x80 := by
  obtain ⟨b, hb, hlt⟩ := h
  refine ⟨b, ?_, hlt⟩
  cases xs with
  | nil => simp at hb
  | cons x xs =>
    simp only [List.drop_succ_cons, List.drop_zero, List.cons_append, List.take_append] at hb ⊢
    exact List.mem_append_left _ hb

/-- What a first read leaves behind, if it cuts the field as required. -/
theorem readInit_bounded {maxSize : ℕ} {bytes : List UInt8} {reader : MQTTRead} {block : Bool}
    (hlen : bytes.length ≤ 5) (hcut : FieldCut (.init [] maxSize) (.ok bytes))
    (h : readInit [] maxSize (.ok bytes) = .ok (reader, block)) :
    Bounded maxSize ⟨reader, bytes⟩ := by
  match bytes with
  | [] => simp [readInit, errDesc] at h
  | [b] =>
    simp only [readInit, List.nil_append, Outcome.ok.injEq, Prod.mk.injEq] at h
    obtain ⟨rfl, -⟩ := h
    exact ⟨rfl, rfl, rfl⟩
  | b :: c :: bytes =>
    rw [readInit_ok, if_pos (initEnds_of_cut hcut)] at h
    obtain ⟨rl, m, hdec, hlim, heq⟩ := (startRemain_sat _ _ _ _ _).of_ok h
    obtain ⟨rfl, -⟩ := Prod.mk.inj heq
    refine ⟨by simpa using hlim, ?_, rfl⟩
    rcases hcut (by simp) with ⟨x, hx, hlt⟩ | ⟨hfull, -⟩
    · have htake : (c :: bytes).take 4 = c :: bytes :=
        List.take_of_length_le (by simp only [List.length_cons] at hlen ⊢; omega)
      exact ⟨x, by rwa [List.drop_one, List.tail_cons, htake], hlt⟩
    · have hended := ended_of_decode hdec
      rwa [scratch_full hfull] at hended

/-- What a later header read leaves behind, if it cuts the field as required. -/
theorem readHeader_bounded {maxSize : ℕ} {b : UInt8} {bytes : List UInt8} {reader : MQTTRead}
    {block : Bool} (hlen : bytes.length ≤ 5) (hcut : FieldCut (.header b [b] maxSize) (.ok bytes))
    (h : readHeader b [b] maxSize (.ok bytes) = .ok (reader, block)) :
    Bounded maxSize ⟨reader, b :: bytes⟩ := by
  match bytes with
  | [] => simp [readHeader, errDesc] at h
  | c :: bytes =>
    rw [readHeader_ok (by simp), if_pos (headerEnds_of_cut hlen hcut)] at h
    obtain ⟨rl, m, hdec, hlim, heq⟩ := (startRemain_sat _ _ _ _ _).of_ok h
    obtain ⟨rfl, -⟩ := Prod.mk.inj heq
    exact ⟨by simpa using hlim, by simpa using ended_of_decode hdec, rfl⟩

/-- A read that returns normally keeps the bound. -/
theorem read_bounded {maxSize : ℕ} {s : Reading} {res : ReadResult} {reader : MQTTRead}
    {block : Bool} {stream : ReadResult} (h : Bounded maxSize s) (hfit : s.reader.Fits res)
    (hcut : s.reader.FieldCut res) (hread : s.reader.read res = .ok ((reader, block), stream)) :
    Bounded maxSize ⟨reader, s.received ++ s.taken res⟩ := by
  obtain ⟨self, received⟩ := s
  cases self with
  | none => exact h.elim
  | init data m =>
    obtain ⟨rfl, rfl, rfl⟩ := h
    obtain ⟨out, hout, hok⟩ := bind_eq_ok.mp hread
    obtain ⟨rfl, -⟩ := Prod.mk.inj (Outcome.ok.inj hok)
    cases res with
    | ok bytes => exact readInit_bounded (hfit 5 rfl) hcut hout
    | wouldBlock =>
      obtain ⟨rfl, -⟩ := Prod.mk.inj (Outcome.ok.inj hout)
      exact ⟨rfl, rfl, rfl⟩
    | failed => simp [readInit, errDesc] at hout
  | header b data m =>
    obtain ⟨rfl, hrec, rfl⟩ := h
    obtain rfl : received = [b] := hrec
    obtain ⟨out, hout, hok⟩ := bind_eq_ok.mp hread
    obtain ⟨rfl, -⟩ := Prod.mk.inj (Outcome.ok.inj hok)
    cases res with
    | ok bytes => exact readHeader_bounded (hfit 5 rfl) hcut hout
    | wouldBlock =>
      obtain ⟨rfl, -⟩ := Prod.mk.inj (Outcome.ok.inj hout)
      exact ⟨rfl, rfl, rfl⟩
    | failed => simp [readHeader, errDesc] at hout
  | remain data start fh m =>
    obtain ⟨hlen, hended, rfl⟩ := h
    obtain ⟨_, -, hrest⟩ := bind_eq_ok.mp hread
    obtain ⟨out, hout, hok⟩ := bind_eq_ok.mp hrest
    obtain ⟨rfl, -⟩ := Prod.mk.inj (Outcome.ok.inj hok)
    obtain ⟨d, _, rfl, hd⟩ | ⟨d, rfl, hd⟩ := readRemain_length hout
    · exact ⟨hd ▸ hlen, ended_append hended _, rfl⟩
    · exact ⟨hd ▸ hlen, ended_append hended _, rfl⟩
  | fin data fh m =>
    obtain ⟨hlen, hended, rfl⟩ := h
    obtain ⟨⟨rfl, -⟩, -⟩ := Prod.mk.inj (Outcome.ok.inj hread) |>.imp Prod.mk.inj id
    exact ⟨hlen, ended_append hended _, rfl⟩

theorem step_bounded {maxSize : ℕ} {s s' : Reading} {e : ReadEvent} (h : Bounded maxSize s)
    (hc : s.CutsField e) (hs : step s e = some s') : Bounded maxSize s' := by
  cases e with
  | read res =>
    obtain ⟨reader, b, stream, hread, rfl⟩ := step_read hs
    exact read_bounded h hc.1 hc.2 hread
  | reset =>
    obtain ⟨data, fh, m, hfin, rfl⟩ := step_reset.mp hs
    rw [Bounded, hfin] at h
    exact ⟨rfl, rfl, h.2.2⟩

/-- A read after which the length field has not ended within four bytes is refused. -/
theorem read_unterminated {maxSize : ℕ} {s : Reading} {res : ReadResult} (h : Bounded maxSize s)
    (hfit : s.reader.Fits res) (hcut : s.reader.FieldCut res)
    (hu : Unterminated (s.received ++ s.taken res)) :
    ∃ e, s.reader.read res = .err e ∧ e.kind = .malformedPacket := by
  obtain ⟨self, received⟩ := s
  have hopen : ¬ ∃ b ∈ (received.drop 1).take 4, b < 0x80 := by
    intro hended
    obtain ⟨b, hb, hlt⟩ := ended_append hended (Reading.taken ⟨self, received⟩ res)
    exact hu.2 b hb hlt
  cases self with
  | none => exact h.elim
  | remain data start fh m => exact absurd h.2.1 hopen
  | fin data fh m => exact absurd h.2.1 hopen
  | init data m =>
    obtain ⟨rfl, rfl, rfl⟩ := h
    match res with
    | .wouldBlock => exact absurd hu.1 (by simp [taken])
    | .failed => exact absurd hu.1 (by simp [taken])
    | .ok [] => exact absurd hu.1 (by simp [taken, wants])
    | .ok [b] => exact absurd hu.1 (by simp [taken, wants])
    | .ok (b :: c :: bytes) =>
      have hlen : (b :: c :: bytes).length = 5 := le_antisymm (hfit 5 rfl) hu.1
      have hrefuse : readInit [] m (.ok (b :: c :: bytes)) =
          errCode .malformedPacket .malformedPacket "VarU32::decode" := by
        rw [readInit_ok, if_pos (initEnds_of_cut hcut), scratch_full hlen]
        exact startRemain_unterminated hu.2
      exact ⟨⟨.malformedPacket, _, _⟩, by rw [read_init, ioRead_result, hrefuse]; rfl, rfl⟩
  | header b data m =>
    obtain ⟨rfl, hrec, rfl⟩ := h
    obtain rfl : received = [b] := hrec
    match res with
    | .wouldBlock => exact absurd hu.1 (by simp [taken])
    | .failed => exact absurd hu.1 (by simp [taken])
    | .ok [] => exact absurd hu.1 (by simp [taken, wants])
    | .ok (c :: bytes) =>
      have hrefuse : readHeader b [b] m (.ok (c :: bytes)) =
          errCode .malformedPacket .malformedPacket "VarU32::decode" := by
        rw [readHeader_ok (by simp), if_pos (headerEnds_of_cut (hfit 5 rfl) hcut)]
        exact startRemain_unterminated hu.2
      exact ⟨⟨.malformedPacket, _, _⟩, by rw [read_header, ioRead_result, hrefuse]; rfl, rfl⟩

/-- In a run whose reads cut the length field as required, the buffer stays within the limit, and a
length field that does not end within four bytes is refused as a malformed packet. -/
theorem buffer_bounded {maxSize : UInt32} (hmax : 5 ≤ maxSize.toNat) {events : List ReadEvent}
    {s : Reading} (hc : Transition.Along step CutsField (start maxSize) events)
    (hr : Transition.run step (start maxSize) events = some s) :
    s.reader.data.length ≤ maxSize.toNat ∧
      ∀ res, s.CutsField (.read res) → Unterminated (s.received ++ s.taken res) →
        ∃ e, s.reader.read res = .err e ∧ e.kind = .malformedPacket := by
  have hinit : Bounded maxSize.toNat (start maxSize) := ⟨rfl, rfl, rfl⟩
  have hb : Bounded maxSize.toNat s :=
    Transition.run_invariant_of_along (fun _ _ _ => step_bounded) hinit hc hr
  refine ⟨?_, fun res hcut hu => read_unterminated hb hcut.1 hcut.2 hu⟩
  obtain ⟨self, received⟩ := s
  cases self with
  | none => exact hb.elim
  | init data m => simp [MQTTRead.data, hb.1]
  | header b data m =>
    rw [MQTTRead.data, hb.1, List.length_singleton]
    omega
  | remain data start fh m => exact hb.1
  | fin data fh m => exact hb.1

theorem buffer_bounded_pubAck : ∃ s, Transition.run step (start 16) pubAckReads = some s ∧
    s.reader.data.length ≤ (16 : UInt32).toNat ∧
      ∀ res, s.CutsField (.read res) → Unterminated (s.received ++ s.taken res) →
        ∃ e, s.reader.read res = .err e ∧ e.kind = .malformedPacket := by
  have hc : Transition.Along step CutsField (start 16) pubAckReads := by decide
  exact ⟨_, rfl, buffer_bounded (by decide) hc rfl⟩

/-- A read of five bytes above `0x80` is buffered without a look at the limit. -/
theorem buffer_unbounded :
    ¬ ∀ (maxSize : UInt32) (events : List ReadEvent) (s : Reading), 5 ≤ maxSize.toNat →
      Transition.Along step AnswerFits (start maxSize) events →
      Transition.run step (start maxSize) events = some s →
      s.reader.data.length ≤ maxSize.toNat ∧
        ∀ res, s.AnswerFits (.read res) → Unterminated (s.received ++ s.taken res) →
          ∃ e, s.reader.read res = .err e ∧ e.kind = .malformedPacket := by
  intro hall
  have hfit : Transition.Along step AnswerFits (start 5)
      [.read (.ok [0x30]), .read (.ok [0xFF, 0xFF, 0xFF, 0xFF, 0xFF])] := by decide
  exact absurd (hall 5 _ _ (by decide) hfit rfl).1 (by decide)

end Reading
end Mqtr
