import Mqtr.Reader.Read

/-! Runs of the reader against an arbitrary stream: what keeps it from aborting and what bounds its
buffer. -/
namespace Mqtr
open Outcome

namespace MQTTRead

/-- The length of the buffer offered to the stream; a finished reader does not read. -/
def wants : MQTTRead → Option ℕ
  | .init _ _ => some 5
  | .header _ _ _ => some 5
  | .remain data start _ _ => some (data.length - start)
  | .fin _ _ _ => Option.none
  | .none => Option.none

/-- The contract of `io::Read`: an answer is no longer than the buffer. -/
def Fits (self : MQTTRead) : ReadResult → Prop
  | .ok bytes => ∀ len ∈ self.wants, bytes.length ≤ len
  | _ => True

instance (self : MQTTRead) (res : ReadResult) : Decidable (self.Fits res) := by
  cases res <;> unfold Fits <;> infer_instance

end MQTTRead

/-- A reader with the bytes it has taken since the last reset. -/
structure Reading where
  reader : MQTTRead
  received : List UInt8
  deriving DecidableEq, Repr

inductive ReadEvent where
  | read (res : ReadResult)
  | reset
  deriving DecidableEq, Repr

namespace Reading

/-- The bytes a reader takes from an answer. -/
def taken (s : Reading) : ReadResult → List UInt8
  | .ok bytes => if s.reader.wants.isSome then bytes else []
  | _ => []

def start (maxSize : UInt32) : Reading := ⟨.new maxSize, []⟩

/-- A call that returns normally; a reader is given up after an error. -/
def step (s : Reading) : ReadEvent → Option Reading
  | .read res =>
    match s.reader.read res with
    | .ok ((reader, _), _) => some ⟨reader, s.received ++ s.taken res⟩
    | _ => none
  | .reset =>
    match s.reader.reset with
    | .ok reader => some ⟨reader, []⟩
    | _ => none

end Reading

namespace MQTTRead

@[simp] theorem length_resize (data : List UInt8) (n : ℕ) : (resize data n).length = n := by
  simp only [resize, List.length_append, List.length_take, List.length_replicate]
  omega

theorem slice_scratch (bytes : List UInt8) :
    (slice (scratch bytes) 0 bytes.length : Result (List UInt8)) = .ok bytes := by
  rw [slice_of_le (Nat.zero_le _) (by simp [scratch])]
  simp [scratch]

theorem readPacketLimit_sat (pktLen maxSize : ℕ) :
    (readPacketLimit pktLen maxSize).Sat fun _ => pktLen ≤ maxSize := by
  unfold readPacketLimit
  split_ifs with hlim
  · exact errCode_sat _ _ _ _
  · exact not_lt.mp hlim

/-- Entering `Remain` never aborts; the buffer gets the announced packet length, within the limit. -/
theorem startRemain_sat (byte1 : UInt8) (field data : List UInt8) (start maxSize : ℕ) :
    (startRemain byte1 field data start maxSize).Sat fun r => ∃ rl m,
      (decode field : Result (VarU32 × ℕ)) = .ok (rl, m) ∧ 1 + m + rl.val.toNat ≤ maxSize ∧
        r = (.remain (resize data (1 + m + rl.val.toNat)) start ⟨byte1, rl⟩ maxSize, false) := by
  apply (decode_sat field).bind
  intro r hr _
  apply (readPacketLimit_sat (1 + r.2 + r.1.val.toNat) maxSize).bind
  intro _ _ hlim
  exact ⟨r.1, r.2, hr, hlim, rfl⟩

theorem readInit_ok {data : List UInt8} {maxSize : ℕ} {b c : UInt8} {bytes : List UInt8} :
    readInit data maxSize (.ok (b :: c :: bytes)) =
      if lengthEnds ((scratch (b :: c :: bytes)).drop 1) then
        startRemain b ((scratch (b :: c :: bytes)).drop 1) (data ++ b :: c :: bytes)
          (b :: c :: bytes).length maxSize
      else .ok (.header b (data ++ b :: c :: bytes) maxSize, false) := by
  simp only [readInit, slice_scratch, ok_bind]

theorem readHeader_ok {byte1 : UInt8} {data : List UInt8} {maxSize : ℕ} (hd : 1 ≤ data.length)
    {b : UInt8} {bytes : List UInt8} :
    readHeader byte1 data maxSize (.ok (b :: bytes)) =
      if lengthEnds (scratch (b :: bytes)) then
        startRemain byte1 ((data ++ b :: bytes).drop 1) (data ++ b :: bytes)
          (data ++ b :: bytes).length maxSize
      else .ok (.header byte1 (data ++ b :: bytes) maxSize, false) := by
  simp only [readHeader, slice_scratch, ok_bind]
  rw [sliceFrom_of_le (by simp; omega), ok_bind]

/-- The packet a length field announces is within the limit and at least as long as what is already
held. -/
def Covers (field held : List UInt8) (maxSize : ℕ) : Prop :=
  match (decode field : Result (VarU32 × ℕ)) with
  | .ok (rl, m) => 1 + m + rl.val.toNat ≤ maxSize → held.length ≤ 1 + m + rl.val.toNat
  | _ => True

instance (field held : List UInt8) (maxSize : ℕ) : Decidable (Covers field held maxSize) := by
  unfold Covers
  split <;> infer_instance

/-- A read of header bytes does not take bytes past the end of the packet. -/
def NoOverread : MQTTRead → ReadResult → Prop
  | .init data maxSize, .ok bytes =>
    2 ≤ bytes.length → Covers ((scratch bytes).drop 1) (data ++ bytes) maxSize
  | .header _ data maxSize, .ok bytes => Covers ((data ++ bytes).drop 1) (data ++ bytes) maxSize
  | _, _ => True

instance (self : MQTTRead) (res : ReadResult) : Decidable (self.NoOverread res) := by
  unfold NoOverread
  split <;> infer_instance

/-- What a reader needs in order not to abort. -/
def Safe : MQTTRead → Prop
  | .none => False
  | .init data _ => data = []
  | .header _ data _ => 1 ≤ data.length
  | .remain data start _ _ => start ≤ data.length
  | .fin _ _ _ => True

theorem readInit_sat (maxSize : ℕ) (res : ReadResult) :
    (readInit [] maxSize res).Sat fun r => NoOverread (.init [] maxSize) res → Safe r.1 := by
  match res with
  | .wouldBlock => simp [readInit, Safe]
  | .failed => exact errDesc_sat _ _ _
  | .ok [] => exact errDesc_sat _ _ _
  | .ok [b] => simp [readInit, Safe]
  | .ok (b :: c :: bytes) =>
    rw [readInit_ok]
    split_ifs
    · refine (startRemain_sat _ _ _ _ _).mono ?_
      rintro _ ⟨rl, m, hdec, hlim, rfl⟩ hno
      have hcov := hno (by simp)
      rw [Covers, hdec] at hcov
      simpa [Safe] using hcov hlim
    · simp [Safe]

theorem readHeader_sat {byte1 : UInt8} {data : List UInt8} {maxSize : ℕ} {res : ReadResult}
    (hd : 1 ≤ data.length) :
    (readHeader byte1 data maxSize res).Sat fun r =>
      NoOverread (.header byte1 data maxSize) res → Safe r.1 := by
  match res with
  | .wouldBlock => exact fun _ => hd
  | .failed => exact errDesc_sat _ _ _
  | .ok [] => exact errDesc_sat _ _ _
  | .ok (b :: bytes) =>
    rw [readHeader_ok hd]
    split_ifs
    · refine (startRemain_sat _ _ _ _ _).mono ?_
      rintro _ ⟨rl, m, hdec, hlim, rfl⟩ hno
      rw [NoOverread, Covers, hdec] at hno
      simpa [Safe] using hno hlim
    · simp only [sat_ok, Safe, List.length_append]
      omega

theorem readRemain_sat {data : List UInt8} {start : ℕ} {fh : FixedHeader} {maxSize : ℕ}
    {res : ReadResult} (hs : start ≤ data.length)
    (hfit : Fits (.remain data start fh maxSize) res) :
    (readRemain data start fh maxSize res).Sat fun r => Safe r.1 := by
  match res with
  | .wouldBlock => exact hs
  | .failed => exact errDesc_sat _ _ _
  | .ok [] => exact errDesc_sat _ _ _
  | .ok (b :: bytes) =>
    have hlen : (b :: bytes).length ≤ data.length - start := hfit _ rfl
    simp only [readRemain]
    split_ifs with h₁ h₂
    · trivial
    · simp only [sat_ok, Safe, List.length_append, List.length_take, List.length_drop]
      omega
    · omega

section Read
variable {ρ : Type} [IoRead ρ]

theorem read_init (data : List UInt8) (maxSize : ℕ) (stream : ρ) :
    (MQTTRead.init data maxSize).read stream =
      (readInit data maxSize (IoRead.read stream 5).1 >>= fun out =>
        .ok (out, (IoRead.read stream 5).2)) := rfl

theorem read_header (byte1 : UInt8) (data : List UInt8) (maxSize : ℕ) (stream : ρ) :
    (MQTTRead.header byte1 data maxSize).read stream =
      (readHeader byte1 data maxSize (IoRead.read stream 5).1 >>= fun out =>
        .ok (out, (IoRead.read stream 5).2)) := rfl

theorem read_remain {data : List UInt8} {start : ℕ} (h : start ≤ data.length) (fh : FixedHeader)
    (maxSize : ℕ) (stream : ρ) :
    (MQTTRead.remain data start fh maxSize).read stream =
      (readRemain data start fh maxSize (IoRead.read stream (data.length - start)).1 >>= fun out =>
        .ok (out, (IoRead.read stream (data.length - start)).2)) := by
  rw [read, sliceFrom_of_le h, ok_bind, List.length_drop]

end Read

/-- A safe reader does not abort, and stays safe unless it reads past the end of the packet. -/
theorem read_sat {self : MQTTRead} {res : ReadResult} (h : self.Safe) (hfit : self.Fits res) :
    (self.read res).Sat fun r => self.NoOverread res → Safe r.1.1 := by
  cases self with
  | none => exact h.elim
  | init data maxSize =>
    obtain rfl : data = [] := h
    exact (readInit_sat maxSize res).bind fun _ _ hr => hr
  | header byte1 data maxSize => exact (readHeader_sat h).bind fun _ _ hr => hr
  | remain data start fh maxSize =>
    refine Sat.bind (P := fun _ => True) ?_ fun _ _ _ => ?_
    · rw [sliceFrom_of_le h]
      trivial
    · exact (readRemain_sat h hfit).bind fun _ _ hr _ => hr
  | fin data fh maxSize => exact fun _ => trivial

end MQTTRead

namespace Reading

theorem step_read {s s' : Reading} {res : ReadResult} (h : step s (.read res) = some s') :
    ∃ reader b stream, s.reader.read res = .ok ((reader, b), stream) ∧
      s' = ⟨reader, s.received ++ s.taken res⟩ := by
  unfold step at h
  dsimp only at h
  split at h
  · rename_i reader b stream hread
    exact ⟨reader, b, stream, hread, (Option.some.inj h).symm⟩
  · simp at h

theorem step_reset {s s' : Reading} :
    step s .reset = some s' ↔ ∃ data fh maxSize, s.reader = .fin data fh maxSize ∧
      s' = ⟨.init [] maxSize, []⟩ := by
  obtain ⟨reader, received⟩ := s
  cases reader <;> simp [step, MQTTRead.reset, eq_comm]

/-- Answers are within the buffer. -/
def AnswerFits (s : Reading) : ReadEvent → Prop
  | .read res => s.reader.Fits res
  | .reset => True

instance (s : Reading) (e : ReadEvent) : Decidable (s.AnswerFits e) := by
  cases e <;> unfold AnswerFits <;> infer_instance

/-- Answers within the buffer, and header reads that stay within their packet. -/
def WithinPacket (s : Reading) : ReadEvent → Prop
  | .read res => s.reader.Fits res ∧ s.reader.NoOverread res
  | .reset => True

instance (s : Reading) (e : ReadEvent) : Decidable (s.WithinPacket e) := by
  cases e <;> unfold WithinPacket <;> infer_instance

theorem step_safe {s s' : Reading} {e : ReadEvent} (h : s.reader.Safe) (hw : s.WithinPacket e)
    (hs : step s e = some s') : s'.reader.Safe := by
  cases e with
  | read res =>
    obtain ⟨reader, b, _, hread, rfl⟩ := step_read hs
    exact (MQTTRead.read_sat h hw.1).of_ok hread hw.2
  | reset =>
    obtain ⟨_, _, _, -, rfl⟩ := step_reset.mp hs
    rfl

/-- In a run whose header reads never take bytes of the next packet, no read aborts, and `Remain`
always has its `start` within its buffer. -/
theorem reader_safe {maxSize : UInt32} {events : List ReadEvent} {s : Reading}
    (hw : Transition.Along step WithinPacket (start maxSize) events)
    (hr : Transition.run step (start maxSize) events = some s) :
    (∀ data start fh maxSize, s.reader = .remain data start fh maxSize → start ≤ data.length) ∧
      ∀ res, s.reader.Fits res → s.reader.read res ≠ .panic := by
  have hinit : (start maxSize).reader.Safe := rfl
  have hsafe : s.reader.Safe :=
    Transition.run_invariant_of_along (P := fun s => s.reader.Safe) (fun _ _ _ => step_safe)
      hinit hw hr
  constructor
  · intro data start fh maxSize he
    rw [he] at hsafe
    exact hsafe
  · exact fun res hfit => (MQTTRead.read_sat hsafe hfit).ne_panic

/-- A PUBACK for packet 1 in two reads, then a reset. -/
def pubAckReads : List ReadEvent :=
  [.read (.ok [0x40, 0x02, 0x00]), .read .wouldBlock, .read (.ok [0x01]), .reset]

theorem reader_safe_pubAck : ∃ s, Transition.run step (start 16) pubAckReads = some s ∧
    (∀ data start fh maxSize, s.reader = .remain data start fh maxSize → start ≤ data.length) ∧
      ∀ res, s.reader.Fits res → s.reader.read res ≠ .panic := by
  have hw : Transition.Along step WithinPacket (start 16) pubAckReads := by decide
  exact ⟨_, rfl, reader_safe hw rfl⟩

/-- Two PINGREQ packets and the first byte of a third arrive together: the length of the first one
cuts the buffer to two bytes while `start` is five. -/
theorem overread_aborts :
    ¬ ∀ (maxSize : UInt32) (events : List ReadEvent) (s : Reading),
      Transition.Along step AnswerFits (start maxSize) events →
      Transition.run step (start maxSize) events = some s →
      (∀ data start fh maxSize, s.reader = .remain data start fh maxSize → start ≤ data.length) ∧
        ∀ res, s.reader.Fits res → s.reader.read res ≠ .panic := by
  intro hall
  have hfit : Transition.Along step AnswerFits (start 16)
      [.read (.ok [0xC0, 0x00, 0xC0, 0x00, 0xC0])] := by decide
  have h := hall 16 _ _ hfit rfl
  exact h.2 .wouldBlock trivial rfl

end Reading
end Mqtr
