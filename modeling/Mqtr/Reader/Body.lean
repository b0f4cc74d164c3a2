import Mqtr.Reader.Reassembly

/-! The body of a packet, read in place. However a stream cuts it, the buffer fills up from the front,
and the reader is done with the last byte. -/
namespace Mqtr
open Outcome

/-- The bytes of an answer. -/
def ReadResult.bytes : ReadResult → List UInt8
  | .ok bytes => bytes
  | .wouldBlock | .failed => []

/-- What `io::Read` allows on a stream that is open and healthy: some of the bytes asked for, or none
yet. -/
def ReadResult.Within (len : ℕ) : ReadResult → Prop
  | .ok bytes => 0 < bytes.length ∧ bytes.length ≤ len
  | .wouldBlock => True
  | .failed => False

/-- The answers of the stream, to a buffer that is not empty, are those that `io::Read` allows. -/
def IoRead.Lawful (ρ : Type) [IoRead ρ] : Prop :=
  ∀ (stream : ρ) (len : ℕ), 0 < len → (IoRead.read stream len).1.Within len

/-- A stream, with the bytes it has delivered so far. -/
structure Delivering (ρ : Type) where
  stream : ρ
  delivered : List UInt8

variable {ρ : Type} [IoRead ρ]

instance : IoRead (Delivering ρ) where
  read self len :=
    let (res, stream) := IoRead.read self.stream len
    (res, ⟨stream, self.delivered ++ res.bytes⟩)

theorem read_delivering (self : Delivering ρ) (len : ℕ) :
    IoRead.read self len = ((IoRead.read self.stream len).1,
      ⟨(IoRead.read self.stream len).2, self.delivered ++ (IoRead.read self.stream len).1.bytes⟩) :=
  rfl

namespace MQTTRead

/-- The reader called a number of times, on the answers that the stream happens to give. -/
def readCalls : ℕ → MQTTRead → ρ → Result (MQTTRead × ρ)
  | 0, self, stream => .ok (self, stream)
  | calls + 1, self, stream => do
    let ((pr, _), stream) ← self.read stream
    readCalls calls pr stream

/-- A reader that was in `Remain` with `start` bytes of `data`, and what has been delivered since. -/
inductive Filling (data : List UInt8) (start : ℕ) (fh : FixedHeader) (maxSize : ℕ)
    (delivered : List UInt8) : MQTTRead → Prop
  | remain {buffer : List UInt8} (length : buffer.length = data.length)
      (inside : start + delivered.length < data.length)
      (filled : buffer.take (start + delivered.length) = data.take start ++ delivered) :
      Filling data start fh maxSize delivered
        (.remain buffer (start + delivered.length) fh maxSize)
  | fin (complete : start + delivered.length = data.length) :
      Filling data start fh maxSize delivered (.fin (data.take start ++ delivered) fh maxSize)

section
variable {data delivered : List UInt8} {start : ℕ} {fh : FixedHeader} {maxSize : ℕ} {pr : MQTTRead}
  {conn : Delivering ρ}

/-- The reader is done exactly if all bytes have been delivered. -/
theorem Filling.fin_iff (h : Filling data start fh maxSize delivered pr) :
    (∃ buffer, pr = .fin buffer fh maxSize) ↔ start + delivered.length = data.length := by
  cases h with
  | remain length inside filled => simp [inside.ne]
  | fin complete => simp [complete]

/-- A read into the buffer goes behind what is there. -/
theorem readRemain_filling (fh : FixedHeader) (maxSize : ℕ) {buffer : List UInt8} {res : ReadResult}
    (hlength : buffer.length = data.length) (hinside : start + delivered.length < data.length)
    (hfilled : buffer.take (start + delivered.length) = data.take start ++ delivered)
    (hres : res.Within (buffer.length - (start + delivered.length))) :
    ∃ pr block, readRemain buffer (start + delivered.length) fh maxSize res = .ok (pr, block) ∧
      Filling data start fh maxSize (delivered ++ res.bytes) pr := by
  cases res with
  | failed => exact hres.elim
  | wouldBlock =>
    refine ⟨_, _, rfl, ?_⟩
    rw [ReadResult.bytes, List.append_nil]
    exact .remain hlength hinside hfilled
  | ok bytes =>
    obtain ⟨hpos, hle⟩ := hres
    have hnext : start + (delivered ++ bytes).length = start + delivered.length + bytes.length := by
      rw [List.length_append, Nat.add_assoc]
    obtain ⟨byte, more, rfl⟩ := List.exists_cons_of_length_pos hpos
    simp only [readRemain, ReadResult.bytes, hfilled]
    split_ifs with hend hmore
    · have hnil : buffer.drop (start + delivered.length + (byte :: more).length) = [] :=
        List.drop_eq_nil_of_le hend.ge
      refine ⟨_, _, rfl, ?_⟩
      rw [hnil, List.append_nil, List.append_assoc]
      exact .fin (by omega)
    · refine ⟨_, _, rfl, ?_⟩
      have hfront : (data.take start ++ delivered ++ byte :: more).length =
          start + delivered.length + (byte :: more).length := by
        rw [List.length_append, ← hfilled, List.length_take_of_le (by omega)]
      rw [← hnext]
      refine .remain ?_ (by omega) ?_
      · rw [List.length_append, hnext, hfront, List.length_drop]
        omega
      · rw [hnext, ← hfront, List.take_left, List.append_assoc]
    · omega

theorem read_filling (hρ : IoRead.Lawful ρ)
    (h : Filling data start fh maxSize conn.delivered pr) :
    ∃ pr' block conn', pr.read conn = .ok ((pr', block), conn') ∧
      Filling data start fh maxSize conn'.delivered pr' := by
  cases h with
  | remain length inside filled =>
    obtain ⟨pr', block, hread, hfill⟩ := readRemain_filling fh maxSize length inside filled
      (hρ conn.stream _ (by omega))
    rw [read_remain (by omega), read_delivering]
    dsimp only
    rw [hread, ok_bind]
    exact ⟨pr', block, _, rfl, hfill⟩
  | fin complete => exact ⟨_, _, conn, rfl, .fin complete⟩

theorem readCalls_filling (hρ : IoRead.Lawful ρ) (calls : ℕ)
    (h : Filling data start fh maxSize conn.delivered pr) :
    ∃ pr' conn', readCalls calls pr conn = .ok (pr', conn') ∧
      Filling data start fh maxSize conn'.delivered pr' := by
  induction calls generalizing pr conn with
  | zero => exact ⟨pr, conn, rfl, h⟩
  | succ calls ih =>
    obtain ⟨pr₁, block, conn₁, hread, h₁⟩ := read_filling hρ h
    obtain ⟨pr', conn', hcalls, h'⟩ := ih h₁
    refine ⟨pr', conn', ?_, h'⟩
    rw [readCalls, hread, ok_bind]
    exact hcalls

/-- From any place inside a packet, whatever a lawful stream answers: the reads return, the buffer keeps
its length and its header, its beginning is what it was and then the bytes delivered, in order, and the
reader is done exactly if the packet is full. -/
theorem readCalls_fill (hρ : IoRead.Lawful ρ) (hstart : start < data.length) (fh : FixedHeader)
    (maxSize calls : ℕ) (stream : ρ) :
    ∃ pr conn, readCalls calls (.remain data start fh maxSize) (Delivering.mk stream []) =
        .ok (pr, conn) ∧
      Filling data start fh maxSize conn.delivered pr ∧
      ((∃ buffer, pr = .fin buffer fh maxSize) ↔
        conn.delivered.length = data.length - start) := by
  have hinit : Filling data start fh maxSize (Delivering.mk stream []).delivered
      (.remain data start fh maxSize) := .remain rfl hstart (by simp)
  obtain ⟨pr, conn, hcalls, h⟩ := readCalls_filling hρ calls hinit
  refine ⟨pr, conn, hcalls, h, h.fin_iff.trans ?_⟩
  omega

end
end MQTTRead

theorem Connection.lawful : IoRead.Lawful Connection := by
  rintro ⟨unread, delivery⟩ len hlen
  cases delivery with
  | wouldBlock => trivial
  | chunk extra =>
    by_cases hnil : unread = []
    · subst hnil
      rw [Feed.read_drained extra hlen]
      trivial
    · have hpos : 0 < unread.length := List.length_pos_iff.mpr hnil
      rw [Feed.read_chunk hnil extra hlen]
      simp only [ReadResult.Within, List.length_take]
      omega

namespace MQTTRead

theorem readCalls_fill_byte_by_byte :
    ∃ conn, readCalls 3 (.remain [0x40, 2, 0, 0] 2 ⟨0x40, ⟨2⟩⟩ 10)
        (Delivering.mk (Connection.mk [7, 8, 9] (.chunk 0)) []) =
        .ok (.fin [0x40, 2, 7, 8] ⟨0x40, ⟨2⟩⟩ 10, conn) ∧ conn.delivered.length = 2 := by
  have hstart : 2 < [(0x40 : UInt8), 2, 0, 0].length := by decide
  obtain ⟨pr, conn, hcalls, -, hfin⟩ := readCalls_fill Connection.lawful hstart ⟨0x40, ⟨2⟩⟩ 10 3
    (Connection.mk [7, 8, 9] (.chunk 0))
  cases hcalls
  exact ⟨_, rfl, hfin.mp ⟨_, rfl⟩⟩

end MQTTRead
end Mqtr
