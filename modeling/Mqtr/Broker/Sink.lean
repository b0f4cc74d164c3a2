import Mqtr.Core.Stateful
import Mqtr.Wire.EncodePacket
import Mqtr.Broker.Message

/-! The writing half of a socket: the packet writer, which hands one frame to a connection piece by
piece, and the loop that feeds it with the queued packets. -/
namespace Mqtr
open Outcome

/-- Answer of `io::Write::write`. -/
inductive WriteResult where
  | ok (n : ℕ)
  | interrupted
  | wouldBlock
  | failed
  deriving DecidableEq, Repr

/-- A connection with the clock of its machine, which counts nanoseconds. -/
class IoWrite (ω : Type) where
  write : ω → List UInt8 → WriteResult × ω
  now : ω → ℕ × ω

/-- The bytes that a connection takes of those it is given. -/
def WriteResult.taken (data : List UInt8) : WriteResult → List UInt8
  | .ok n => data.take n
  | .interrupted | .wouldBlock | .failed => []

/-- A connection, with the bytes it has taken so far. -/
structure Conn (ω : Type) where
  stream : ω
  sent : List UInt8

inductive MQTTWrite where
  | none
  | init (data : List UInt8) (maxSize : ℕ)
  | remain (data : List UInt8) (start maxSize : ℕ)
  | fin (data : List UInt8) (maxSize : ℕ)
  deriving DecidableEq, Repr

variable {ω : Type} [IoWrite ω]

def Conn.write (data : List UInt8) : Stateful (Conn ω) Error WriteResult := fun conn =>
  let (res, stream) := IoWrite.write conn.stream data
  (.ok res, ⟨stream, conn.sent ++ res.taken data⟩)

namespace MQTTWrite

def new (buf : List UInt8) (maxSize : UInt32) : MQTTWrite := .init buf maxSize.toNat

def writeInit (data : List UInt8) (maxSize : ℕ) : WriteResult → Result (MQTTWrite × Bool)
  | .ok 0 => errDesc .disconnected "MQTTWrite::Init"
  | .ok n =>
    if n = data.length then .ok (.fin data maxSize, false)
    else if n < data.length then .ok (.remain data n maxSize, false)
    else .panic
  | .interrupted => .ok (.remain data 0 maxSize, false)
  | .wouldBlock => .ok (.remain data 0 maxSize, true)
  | .failed => errDesc .disconnected "MQTTWrite::Init"

def writeRemain (data : List UInt8) (start maxSize : ℕ) : WriteResult → Result (MQTTWrite × Bool)
  | .ok 0 => errDesc .disconnected "MQTTWrite::Remain"
  | .ok n =>
    if start + n = data.length then .ok (.fin data maxSize, false)
    else if start + n < data.length then .ok (.remain data (start + n) maxSize, false)
    else .panic
  | .interrupted => .ok (.remain data start maxSize, false)
  | .wouldBlock => .ok (.remain data start maxSize, true)
  | .failed => errDesc .disconnected "MQTTWrite::Remain"

/-- `(self, would_block)`. A frame beyond the client's limit is passed over as if it were written. -/
def write (self : MQTTWrite) : Stateful (Conn ω) Error (MQTTWrite × Bool) :=
  match self with
  | .init data maxSize =>
    if data.length > maxSize then pure (.fin data maxSize, false)
    else do
      let res ← Conn.write data
      Stateful.inspect fun _ => writeInit data maxSize res
  | .remain data start maxSize => do
    let window ← Stateful.inspect fun _ => sliceFrom data start
    let res ← Conn.write window
    Stateful.inspect fun _ => writeRemain data start maxSize res
  | .fin data maxSize => pure (.fin data maxSize, false)
  | .none => Stateful.inspect fun _ => .panic

def reset (self : MQTTWrite) (buf : List UInt8) : Result MQTTWrite :=
  match self with
  | .fin _ maxSize => .ok (.init buf maxSize)
  | .none | .init .. | .remain .. => .panic

/-- What a writer still has to hand to the connection. -/
def pending : MQTTWrite → List UInt8
  | .init data maxSize => if data.length > maxSize then [] else data
  | .remain data start _ => data.drop start
  | .none | .fin .. => []

/-- The writer called a number of times, on the answers that the connection happens to give. -/
def writes : ℕ → MQTTWrite → Stateful (Conn ω) Error MQTTWrite
  | 0, self => pure self
  | calls + 1, self => do
    let (pw, _) ← self.write
    writes calls pw

end MQTTWrite

/-- What `io::Write` allows as an answer to so many bytes: no more of them are taken. -/
def WriteResult.Within (size : ℕ) : WriteResult → Prop
  | .ok n => n ≤ size
  | .interrupted | .wouldBlock | .failed => True

/-- The answers of the connection are those that `io::Write` allows. -/
def IoWrite.Lawful (ω : Type) [IoWrite ω] : Prop :=
  ∀ (stream : ω) (data : List UInt8), (IoWrite.write stream data).1.Within data.length

/-- A connection with a record of the calls it has got: the bytes it was offered, and its answer. -/
structure Recorded (ω : Type) where
  stream : ω
  calls : List (List UInt8 × WriteResult)

instance : IoWrite (Recorded ω) where
  write self data :=
    let (res, stream) := IoWrite.write self.stream data
    (res, ⟨stream, self.calls ++ [(data, res)]⟩)
  now self :=
    let (time, stream) := IoWrite.now self.stream
    (time, ⟨stream, self.calls⟩)

/-- A connection before its first call. -/
def Conn.recorded (stream : ω) : Conn (Recorded ω) := ⟨⟨stream, []⟩, []⟩

/-- The bytes that were taken in the calls, in order. -/
def accepted (calls : List (List UInt8 × WriteResult)) : List UInt8 :=
  calls.flatMap fun call => call.2.taken call.1

theorem accepted_concat (calls : List (List UInt8 × WriteResult)) (data : List UInt8)
    (res : WriteResult) : accepted (calls ++ [(data, res)]) = accepted calls ++ res.taken data := by
  simp [accepted]

/-- Every call offers the bytes of the frame that the calls before it have left, so that no byte is
offered again once it is taken. -/
def OfferedOnce (data : List UInt8) (calls : List (List UInt8 × WriteResult)) : Prop :=
  ∀ before call after, calls = before ++ call :: after → accepted before ++ call.1 = data

theorem OfferedOnce.concat {data offered : List UInt8} {calls : List (List UInt8 × WriteResult)}
    (h : OfferedOnce data calls) (hoffered : accepted calls ++ offered = data) (res : WriteResult) :
    OfferedOnce data (calls ++ [(offered, res)]) := by
  intro before call after hcalls
  rcases List.eq_nil_or_concat after with rfl | ⟨after, last, rfl⟩
  · obtain ⟨rfl, hlast⟩ := List.append_inj' hcalls rfl
    cases hlast
    exact hoffered
  · rw [List.concat_eq_append, ← List.cons_append, ← List.append_assoc] at hcalls
    exact h before call after (List.append_inj' hcalls rfl).1

namespace MQTTWrite

/-- The writer of a frame, and the bytes of the frame that have been taken: those before its `start`. -/
inductive Progress (data : List UInt8) (maxSize : ℕ) : MQTTWrite → List UInt8 → Prop
  | init : Progress data maxSize (.init data maxSize) []
  | remain {start : ℕ} (inside : start < data.length) :
      Progress data maxSize (.remain data start maxSize) (data.take start)
  | fin : Progress data maxSize (.fin data maxSize) data

section
variable {data : List UInt8} {maxSize : ℕ} {pw : MQTTWrite}

theorem Progress.fin_iff {taken : List UInt8} (h : Progress data maxSize pw taken)
    (hdata : data ≠ []) : pw = .fin data maxSize ↔ taken = data := by
  cases h with
  | init => simpa using hdata.symm
  | remain inside =>
    have htake : data.take _ ≠ data := fun heq => by
      have hlen := congrArg List.length heq
      rw [List.length_take_of_le inside.le] at hlen
      omega
    simpa using htake
  | fin => simp

theorem writeInit_sat {res : WriteResult} (hres : res.Within data.length) (hdata : data ≠ []) :
    (writeInit data maxSize res).Sat fun r => Progress data maxSize r.1 (res.taken data) := by
  have hpos : 0 < data.length := List.length_pos_iff.mpr hdata
  rcases res with (_ | n) | _ | _ | _
  · trivial
  · have hle : n + 1 ≤ data.length := hres
    simp only [writeInit, WriteResult.taken]
    split_ifs with heq hlt
    · rw [heq, List.take_length]
      exact .fin
    · exact .remain hlt
    · omega
  · exact .remain hpos
  · exact .remain hpos
  · trivial

theorem writeRemain_sat {res : WriteResult} {start : ℕ} (hstart : start < data.length)
    (hres : res.Within (data.drop start).length) :
    (writeRemain data start maxSize res).Sat fun r =>
      Progress data maxSize r.1 (data.take start ++ res.taken (data.drop start)) := by
  rw [List.length_drop] at hres
  rcases res with (_ | n) | _ | _ | _
  · trivial
  · have hle : n + 1 ≤ data.length - start := hres
    have htaken : data.take start ++ (data.drop start).take (n + 1) = data.take (start + (n + 1)) :=
      List.take_add.symm
    simp only [writeRemain, WriteResult.taken, htaken]
    split_ifs with heq hlt
    · rw [heq, List.take_length]
      exact .fin
    · exact .remain hlt
    · omega
  · simpa [writeRemain, WriteResult.taken] using Progress.remain hstart
  · simpa [writeRemain, WriteResult.taken] using Progress.remain hstart
  · trivial

variable {conn : Conn (Recorded ω)}

theorem connWrite_sat (hω : IoWrite.Lawful ω) {offered : List UInt8} {E : Conn (Recorded ω) → Prop}
    (hcalls : OfferedOnce data conn.stream.calls)
    (hoffered : accepted conn.stream.calls ++ offered = data) :
    Stateful.Sat (Conn.write offered) conn
      (fun res t => res.Within offered.length ∧ OfferedOnce data t.stream.calls ∧
        accepted t.stream.calls = accepted conn.stream.calls ++ res.taken offered) E :=
  ⟨hω _ _, hcalls.concat hoffered _, accepted_concat _ _ _⟩

/-- A call of the writer of a frame that fits does not abort, and offers at most the bytes that are
left. -/
theorem write_sat (hω : IoWrite.Lawful ω) (hdata : data ≠ []) (hfits : data.length ≤ maxSize)
    (hpw : Progress data maxSize pw (accepted conn.stream.calls))
    (hcalls : OfferedOnce data conn.stream.calls) :
    Stateful.Sat pw.write conn
      (fun r t => Progress data maxSize r.1 (accepted t.stream.calls) ∧
        OfferedOnce data t.stream.calls) (fun t => OfferedOnce data t.stream.calls) := by
  generalize htaken : accepted conn.stream.calls = taken at hpw
  cases hpw with
  | init =>
    simp only [write, if_neg (Nat.not_lt.mpr hfits)]
    apply (connWrite_sat hω hcalls (by rw [htaken, List.nil_append])).bind
    rintro res t ⟨hres, ht, htake⟩
    rw [htaken, List.nil_append] at htake
    apply Stateful.sat_inspect (writeInit_sat hres hdata)
    · intro r hr
      exact ⟨htake ▸ hr, ht⟩
    · exact ht
  | remain inside =>
    rename_i start
    have hslice : Stateful.Sat
        (Stateful.inspect fun _ => (sliceFrom data start : Result (List UInt8))) conn
        (fun window t => window = data.drop start ∧ t = conn)
        (fun t => OfferedOnce data t.stream.calls) := by
      rw [Stateful.Sat, Stateful.inspect, sliceFrom_of_le inside.le]
      exact ⟨rfl, rfl⟩
    apply hslice.bind
    rintro window t ⟨rfl, rfl⟩
    apply (connWrite_sat hω hcalls (by rw [htaken, List.take_append_drop])).bind
    rintro res t' ⟨hres, ht, htake⟩
    rw [htaken] at htake
    apply Stateful.sat_inspect (writeRemain_sat inside hres)
    · intro r hr
      exact ⟨htake ▸ hr, ht⟩
    · exact ht
  | fin => exact ⟨htaken ▸ .fin, hcalls⟩

theorem writes_sat (hω : IoWrite.Lawful ω) (hdata : data ≠ []) (hfits : data.length ≤ maxSize)
    (calls : ℕ) (hpw : Progress data maxSize pw (accepted conn.stream.calls))
    (hcalls : OfferedOnce data conn.stream.calls) :
    Stateful.Sat (writes calls pw) conn
      (fun pw t => Progress data maxSize pw (accepted t.stream.calls) ∧
        OfferedOnce data t.stream.calls) (fun t => OfferedOnce data t.stream.calls) := by
  induction calls generalizing pw conn with
  | zero => exact ⟨hpw, hcalls⟩
  | succ calls ih =>
    apply (write_sat hω hdata hfits hpw hcalls).bind
    rintro r t ⟨hr, ht⟩
    exact ih hr ht

/-- Whatever a lawful connection answers, the writer of a non-empty frame that fits does not abort, no
byte is offered again once it is taken, the bytes taken are those of the frame before the writer's
`start`, and the writer is done exactly if all have been taken. -/
theorem writes_progress (hω : IoWrite.Lawful ω) (hdata : data ≠ []) {limit : UInt32}
    (hfits : data.length ≤ limit.toNat) {calls : ℕ} {stream : ω} {res : Result MQTTWrite}
    (h : writes calls (new data limit) (.recorded stream) = (res, conn)) :
    res ≠ .panic ∧ OfferedOnce data conn.stream.calls ∧
      ∀ pw, res = .ok pw → Progress data limit.toNat pw (accepted conn.stream.calls) ∧
        (pw = .fin data limit.toNat ↔ accepted conn.stream.calls = data) := by
  have hstart : OfferedOnce data [] := by
    intro before call after hcalls
    cases before <;> cases hcalls
  have hinit : Progress data limit.toNat (new data limit)
      (accepted (Conn.recorded stream).stream.calls) := .init
  have hsat := writes_sat hω hdata hfits calls hinit hstart
  have hpanic : res ≠ .panic := by
    have hne := hsat.ne_panic
    rwa [h] at hne
  refine ⟨hpanic, ?_, ?_⟩
  · cases res with
    | ok pw => exact (hsat.ensures.of_ok h).2
    | err e => exact hsat.ensures.of_err h
    | panic => exact absurd rfl hpanic
  · rintro pw rfl
    have hpw := (hsat.ensures.of_ok h).1
    exact ⟨hpw, hpw.fin_iff hdata⟩

end

/-- A connection that gives the answers of a list, as far as they are allowed, and then is busy. -/
structure Scripted where
  answers : List WriteResult

instance : IoWrite Scripted where
  write self data :=
    match self.answers with
    | [] => (.wouldBlock, self)
    | .ok n :: rest => (.ok (min n data.length), ⟨rest⟩)
    | res :: rest => (res, ⟨rest⟩)
  now self := (0, self)

theorem scripted_lawful : IoWrite.Lawful Scripted := by
  rintro ⟨answers⟩ data
  rcases answers with _ | ⟨n | _ | _ | _, rest⟩
  · trivial
  · exact Nat.min_le_right n data.length
  · trivial
  · trivial
  · trivial

theorem writes_progress_in_pieces :
    ∃ conn, writes 4 (new [1, 2, 3] 10)
        (.recorded (Scripted.mk [.ok 1, .interrupted, .wouldBlock, .ok 2])) =
        (.ok (.fin [1, 2, 3] 10), conn) ∧
      OfferedOnce [1, 2, 3] conn.stream.calls ∧ accepted conn.stream.calls = [1, 2, 3] := by
  obtain ⟨conn, hrun⟩ : ∃ conn, writes 4 (new [1, 2, 3] 10)
      (.recorded (Scripted.mk [.ok 1, .interrupted, .wouldBlock, .ok 2])) =
      (.ok (.fin [1, 2, 3] 10), conn) := ⟨_, rfl⟩
  obtain ⟨-, hoffered, hdone⟩ := writes_progress scripted_lawful (by decide) (by decide) hrun
  exact ⟨conn, hrun, hoffered, (hdone _ rfl).2.mp rfl⟩

end MQTTWrite

/-- The configuration, with what the sink reads of it. -/
structure SinkConfig extends Config where
  writeTimeout : Option UInt32 := none

def SinkConfig.defMqttWriteTimeout : UInt32 := 5

def SinkConfig.mqttWriteTimeout (self : SinkConfig) : UInt32 :=
  self.writeTimeout.getD defMqttWriteTimeout

structure Sink where
  pw : MQTTWrite
  timeout : Option ℕ
  packets : List Packet

/-- A socket, with what its writing half works on. -/
structure SinkSocket (ω : Type) where
  conn : Conn ω
  wt : Sink

namespace SinkSocket

/-- `time::Instant::now()`. -/
def now : Stateful (SinkSocket ω) Error ℕ := fun s =>
  let (time, stream) := IoWrite.now s.conn.stream
  (.ok time, { s with conn := { s.conn with stream := stream } })

/-- True as long as the timeout is ahead. -/
def writeElapsed : Stateful (SinkSocket ω) Error Bool := fun s =>
  match s.wt.timeout with
  | some timeout => (do
      let time ← now
      pure (decide (timeout > time))) s
  | none => (.ok false, s)

def setTimeout (timeout : Option ℕ) : Stateful (SinkSocket ω) Error Unit := fun s =>
  (.ok (), { s with wt := { s.wt with timeout := timeout } })

def setWriteTimeout (retry : Bool) (timeout : UInt32) : Stateful (SinkSocket ω) Error Unit :=
  fun s =>
    if retry && s.wt.timeout.isNone then (do
      let time ← now
      setTimeout (some (time + timeout.toNat * 10 ^ 9))) s
    else if retry = false then setTimeout none s
    else (.ok (), s)

/-- `mem::replace(&mut self.wt.pw, pw)`. -/
def replacePw (pw : MQTTWrite) : Stateful (SinkSocket ω) Error MQTTWrite := fun s =>
  (.ok s.wt.pw, { s with wt := { s.wt with pw := pw } })

/-- `pw.write(&self.conn)`. -/
def writeConn (pw : MQTTWrite) : Stateful (SinkSocket ω) Error (MQTTWrite × Bool) := fun s =>
  let (res, conn) := pw.write s.conn
  (res, { s with conn := conn })

/-- A status on its way out of `write_packet`, with the writer put back. -/
def putBack (pw : MQTTWrite) (res : QueueStatus Packet) :
    Stateful (SinkSocket ω) Error (QueueStatus Packet) := do
  let _pwNone ← replacePw pw
  pure res

/-- What `write_packet` does after the writer has returned. -/
def afterWrite (config : SinkConfig) (pw : MQTTWrite) :
    Stateful (SinkSocket ω) Error (QueueStatus Packet) := do
  let timeout := config.mqttWriteTimeout
  match pw with
  | .init .. | .remain .. =>
    let elapsed ← writeElapsed
    if !elapsed then
      setWriteTimeout true timeout
      putBack pw (.block [])
    else
      setWriteTimeout false timeout
      putBack pw (.disconnected [])
  | .fin .. =>
    setWriteTimeout false timeout
    putBack pw (.ok [])
  | .none => Stateful.inspect fun _ => .panic

def writePacket (config : SinkConfig) : Stateful (SinkSocket ω) Error (QueueStatus Packet) := do
  let pw ← replacePw .none
  match ← Stateful.attempt (writeConn pw) with
  | .ok (pw, _) => afterWrite config pw
  | .error e =>
    if e.kind = .disconnected then pure (.disconnected [])
    else Stateful.inspect fun _ => .panic

/-- The loop of `flush_packets`: `pw` is its own variable, and the packets are those still in the
iterator. A packet that cannot be encoded is skipped. -/
def flushLoop (config : SinkConfig) : List Packet → MQTTWrite →
    Stateful (SinkSocket ω) Error (QueueStatus Packet × List Packet × MQTTWrite)
  | [], pw => do
    let res ← writePacket config
    match res with
    | .ok _ => pure (.ok [], [], pw)
    | res => pure (res, [], pw)
  | packet :: iter, pw => do
    let res ← writePacket config
    match res with
    | .ok _ =>
      match (encode packet : Result (List UInt8)) with
      | .ok blob =>
        let pw ← Stateful.inspect fun _ => pw.reset blob
        flushLoop config iter pw
      | .err _ => flushLoop config iter pw
      | .panic => Stateful.inspect fun _ => .panic
    | res => pure (res, packet :: iter, pw)

/-- `self.wt.packets.drain(..)`. -/
def drainPackets : Stateful (SinkSocket ω) Error (List Packet) := fun s =>
  (.ok s.wt.packets, { s with wt := { s.wt with packets := [] } })

def extendPackets (packets : List Packet) : Stateful (SinkSocket ω) Error Unit := fun s =>
  (.ok (), { s with wt := { s.wt with packets := s.wt.packets ++ packets } })

def flushPackets (config : SinkConfig) : Stateful (SinkSocket ω) Error (QueueStatus Packet) := do
  let pw ← replacePw .none
  let packets ← drainPackets
  let (res, iter, pw) ← flushLoop config packets pw
  extendPackets iter
  let _pwNone ← replacePw pw
  pure res

/-- A write without a writer aborts. -/
theorem writePacket_none {config : SinkConfig} {s : SinkSocket ω} (h : s.wt.pw = .none) :
    writePacket config s = (.panic, s) := by
  have hreplace : replacePw .none s = (.ok .none, s) := by
    obtain ⟨conn, ⟨pw, timeout, packets⟩⟩ := s
    cases h
    rfl
  have hwrite : Stateful.attempt (writeConn .none) s = (.panic, s) := rfl
  rw [writePacket, Stateful.bind_of_ok hreplace, Stateful.bind_of_panic hwrite]

theorem flushLoop_none {config : SinkConfig} {s : SinkSocket ω} (h : s.wt.pw = .none)
    (packets : List Packet) (pw : MQTTWrite) : flushLoop config packets pw s = (.panic, s) := by
  cases packets with
  | nil => rw [flushLoop, Stateful.bind_of_panic (writePacket_none h)]
  | cons packet iter => rw [flushLoop, Stateful.bind_of_panic (writePacket_none h)]

/-- `flush_packets` moves the writer out of the socket, where its first write looks for it: it aborts,
whatever the writer holds, the queue is and the connection answers. -/
theorem flushPackets_panics (config : SinkConfig) (s : SinkSocket ω) :
    (flushPackets config s).1 = .panic := by
  have hreplace : replacePw .none s = (.ok s.wt.pw, { s with wt := { s.wt with pw := .none } }) := rfl
  rw [flushPackets, Stateful.bind_of_ok hreplace]
  have hdrain : drainPackets { s with wt := { s.wt with pw := .none } } =
      (.ok s.wt.packets, { s with wt := { s.wt with pw := .none, packets := [] } }) := rfl
  rw [Stateful.bind_of_ok hdrain, Stateful.bind_of_panic (flushLoop_none rfl _ _)]

/-- The frames of the packets that can be encoded and fit. -/
def frames (maxSize : ℕ) (packets : List Packet) : List UInt8 :=
  packets.flatMap fun packet =>
    match (encode packet : Result (List UInt8)) with
    | .ok blob => if blob.length > maxSize then [] else blob
    | .err _ | .panic => []

/-- The limit of a writer. -/
def maxSize (s : SinkSocket ω) : ℕ :=
  match s.wt.pw with
  | .init _ maxSize | .remain _ _ maxSize | .fin _ maxSize => maxSize
  | .none => 0

/-- A flush returns; what it writes is a beginning of the pending frame and the queued frames, and if
it is blocked the writer and the queue hold exactly the rest. -/
def FlushesInOrder (config : SinkConfig) (s : SinkSocket ω) : Prop :=
  ∃ status s' written, flushPackets config s = (.ok status, s') ∧
    s'.conn.sent = s.conn.sent ++ written ∧
    written <+: s.wt.pw.pending ++ frames s.maxSize s.wt.packets ∧
    ∀ vals, status = .block vals →
      written ++ (s'.wt.pw.pending ++ frames s.maxSize s'.wt.packets) =
        s.wt.pw.pending ++ frames s.maxSize s.wt.packets

/-- There is no socket on which a flush does that. -/
theorem not_flushesInOrder (config : SinkConfig) (s : SinkSocket ω) : ¬ FlushesInOrder config s := by
  rintro ⟨status, s', written, hflush, -⟩
  have hpanic := flushPackets_panics config s
  rw [hflush] at hpanic
  cases hpanic

/-- A connection that answers every write with one result, and a clock that stands still. -/
instance : IoWrite WriteResult := ⟨fun res _ => (res, res), fun res => (0, res)⟩

/-- The writer that the I/O thread makes for a new connection, an empty queue. -/
theorem flush_idle_aborts :
    ¬ ∀ (config : SinkConfig) (s : SinkSocket WriteResult),
      ((∃ data maxSize, s.wt.pw = .init data maxSize) ∨ ∃ data maxSize, s.wt.pw = .fin data maxSize) →
        FlushesInOrder config s := by
  intro h
  obtain ⟨status, s', written, hflush, -⟩ :=
    h {} ⟨⟨.ok 1, []⟩, ⟨.new [] 100, none, []⟩⟩ (.inl ⟨[], 100, rfl⟩)
  cases hflush

end SinkSocket
end Mqtr
