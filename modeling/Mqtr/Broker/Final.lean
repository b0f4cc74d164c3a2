import Mqtr.Broker.Sink
import Mqtr.Wire.Framing

/-! The last packet on a connection: the CONNACK that refuses it, or a DISCONNECT. Both are sent by a
loop over the packet writer, which takes every answer that is not `WouldBlock` for the end of its work. -/
namespace Mqtr
open Outcome

variable {ω : Type} [IoWrite ω]

def Disconnect.new (code : DisconnReasonCode) (props : Option DisconnProperties) : Disconnect :=
  ⟨code, props⟩

def ConnAck.fromReasonCode (code : ConnackReasonCode) : ConnAck := ⟨⟨0⟩, code, none⟩

/-- `time::Instant::now()`. -/
def Conn.now : Stateful (Conn ω) Error ℕ := fun conn =>
  let (time, stream) := IoWrite.now conn.stream
  (.ok time, { conn with stream := stream })

/-- The loop of `send_disconnect` and `send_connack`, cut after a number of passes: it returns `none` if
it would go on. A pass that has to wait sleeps, as long as the timeout is past. -/
def sendLoop (logPrefix name : String) (timeout : ℕ) :
    ℕ → MQTTWrite → Stateful (Conn ω) Error (Option Unit)
  | 0, _ => pure none
  | passes + 1, packetw => do
    let (packetw, wouldBlock) ← packetw.write
    if wouldBlock then do
      let time ← Conn.now
      if timeout < time then sendLoop logPrefix name timeout passes packetw
      else do
        let time ← Conn.now
        Stateful.inspect fun _ => errDesc .disconnected
          (logPrefix ++ " failed writing " ++ name ++ " after " ++ toString time)
    else pure (some ())

/-- A packet is encoded, which has to succeed, and sent. -/
def sendFinal (logPrefix name : String) (blob : Result (List UInt8)) (timeout : ℕ)
    (maxSize : UInt32) (passes : ℕ) : Stateful (Conn ω) Error (Option Unit) := do
  let blob ← Stateful.inspect fun _ => blob.unwrap
  sendLoop logPrefix name timeout passes (MQTTWrite.new blob maxSize)

def sendDisconnect (logPrefix : String) (code : DisconnReasonCode) (timeout : ℕ) (maxSize : UInt32)
    (passes : ℕ) : Stateful (Conn ω) Error (Option Unit) :=
  sendFinal logPrefix "disconnect" (encode (Disconnect.new code none)) timeout maxSize passes

def sendConnack (logPrefix : String) (code : ConnackReasonCode) (timeout : ℕ) (maxSize : UInt32)
    (passes : ℕ) : Stateful (Conn ω) Error (Option Unit) :=
  sendFinal logPrefix "connack" (encode (ConnAck.fromReasonCode code)) timeout maxSize passes

/-- The packets that these functions send. -/
inductive FinalPacket where
  | disconnect (code : DisconnReasonCode)
  | connAck (code : ConnackReasonCode)
  deriving DecidableEq, Repr

namespace FinalPacket

def packet : FinalPacket → Packet
  | .disconnect code => .disconnect (Disconnect.new code none)
  | .connAck code => .connAck (ConnAck.fromReasonCode code)

def send (self : FinalPacket) (logPrefix : String) (timeout : ℕ) (maxSize : UInt32) (passes : ℕ) :
    Stateful (Conn ω) Error (Option Unit) :=
  match self with
  | .disconnect code => sendDisconnect logPrefix code timeout maxSize passes
  | .connAck code => sendConnack logPrefix code timeout maxSize passes

/-- Both functions are one, up to the name in an error. -/
theorem send_eq (self : FinalPacket) (logPrefix : String) (timeout : ℕ) (maxSize : UInt32) :
    ∃ name, ∀ passes, self.send logPrefix timeout maxSize passes =
      (sendFinal logPrefix name (encode self.packet) timeout maxSize passes :
        Stateful (Conn ω) Error (Option Unit)) := by
  cases self with
  | disconnect code => exact ⟨"disconnect", fun _ => rfl⟩
  | connAck code => exact ⟨"connack", fun _ => rfl⟩

end FinalPacket

/-- The connection, offered the whole packet again and again, comes to an answer other than `WouldBlock`
before the loop gives up or is cut: that answer. -/
def decisive (blob : List UInt8) (timeout : ℕ) : ℕ → ω → Option WriteResult
  | 0, _ => none
  | passes + 1, stream =>
    match IoWrite.write stream blob with
    | (.wouldBlock, stream) =>
      let (time, stream) := IoWrite.now stream
      if timeout < time then decisive blob timeout passes stream else none
    | (res, _) => some res

namespace WriteResult

/-- The writer goes on after this answer to a frame of the size. -/
def Accepted (size : ℕ) : WriteResult → Prop
  | .ok n => 0 < n ∧ n ≤ size
  | .interrupted => True
  | .wouldBlock | .failed => False

/-- An answer that leaves bytes of the frame to be written, and is no reason to wait. -/
def StopsShort (size : ℕ) : WriteResult → Prop
  | .ok n => 0 < n ∧ n < size
  | .interrupted => True
  | .wouldBlock | .failed => False

/-- Of a frame that is not empty the whole is taken unless the answer stops short of it. -/
theorem taken_eq_iff {data : List UInt8} (hdata : data ≠ []) {res : WriteResult}
    (h : res.Accepted data.length) : res.taken data = data ↔ ¬ res.StopsShort data.length := by
  cases res with
  | ok n =>
    obtain ⟨hpos, hle⟩ := h
    rw [taken, List.take_eq_self_iff, StopsShort]
    omega
  | interrupted => simp [taken, StopsShort, hdata.symm]
  | wouldBlock => exact h.elim
  | failed => exact h.elim

theorem StopsShort.accepted {size : ℕ} {res : WriteResult} (h : res.StopsShort size) :
    res.Accepted size := by
  cases res with
  | ok n => exact ⟨h.1, h.2.le⟩
  | interrupted => trivial
  | wouldBlock => exact h.elim
  | failed => exact h.elim

end WriteResult

/-- How the writer deals with an answer to the whole frame: it waits, is done with the call, or fails. -/
structure Handles (blob : List UInt8) (maxSize : ℕ)
    (handle : WriteResult → Result (MQTTWrite × Bool)) : Prop where
  blocked : handle .wouldBlock = .ok (.remain blob 0 maxSize, true)
  accepted {res : WriteResult} : res.Accepted blob.length → ∃ pw, handle res = .ok (pw, false)
  refused {res : WriteResult} : res ≠ .wouldBlock → ¬ res.Accepted blob.length →
    ∀ r, handle res ≠ .ok r

section Loop
variable {blob sent : List UInt8} {maxSize timeout : ℕ} {pw : MQTTWrite} {stream stream' : ω}

theorem writeInit_handles (blob : List UInt8) (maxSize : ℕ) :
    Handles blob maxSize (MQTTWrite.writeInit blob maxSize) where
  blocked := rfl
  accepted {res} h := by
    cases res with
    | ok n =>
      obtain ⟨m, rfl⟩ := Nat.exists_eq_add_one.mpr h.1
      simp only [MQTTWrite.writeInit]
      split_ifs with heq hlt
      · exact ⟨_, rfl⟩
      · exact ⟨_, rfl⟩
      · exact absurd (lt_of_le_of_ne h.2 heq) hlt
    | interrupted => exact ⟨_, rfl⟩
    | wouldBlock => exact h.elim
    | failed => exact h.elim
  refused {res} hne hnot r hr := by
    rcases res with (_ | n) | _ | _ | _
    · cases hr
    · have hlarge : ¬ n + 1 ≤ blob.length := fun hle => hnot ⟨Nat.succ_pos n, hle⟩
      simp only [MQTTWrite.writeInit] at hr
      rw [if_neg (by omega), if_neg (by omega)] at hr
      cases hr
    · exact hnot trivial
    · exact hne rfl
    · cases hr

/-- At the start of the frame the two handlers differ in the text of an error only. -/
theorem writeRemain_handles (blob : List UInt8) (maxSize : ℕ) :
    Handles blob maxSize (MQTTWrite.writeRemain blob 0 maxSize) where
  blocked := rfl
  accepted {res} h := by
    obtain ⟨pw, hpw⟩ := (writeInit_handles blob maxSize).accepted h
    rcases res with (_ | n) | _ | _ | _
    · cases hpw
    · refine ⟨pw, ?_⟩
      simpa [MQTTWrite.writeInit, MQTTWrite.writeRemain] using hpw
    · exact ⟨_, rfl⟩
    · exact h.elim
    · cases hpw
  refused {res} hne hnot r hr := by
    refine (writeInit_handles blob maxSize).refused hne hnot r ?_
    rcases res with (_ | n) | _ | _ | _
    · cases hr
    · simpa [MQTTWrite.writeInit, MQTTWrite.writeRemain] using hr
    · exact (hnot trivial).elim
    · exact (hne rfl).elim
    · cases hr

/-- The writer of the loop before the connection has taken a byte. -/
inductive Waiting (blob : List UInt8) (maxSize : ℕ) : MQTTWrite → Prop
  | init (fits : blob.length ≤ maxSize) : Waiting blob maxSize (.init blob maxSize)
  | remain : Waiting blob maxSize (.remain blob 0 maxSize)

/-- A waiting writer offers the whole frame. -/
theorem Waiting.write (h : Waiting blob maxSize pw) (sent : List UInt8) {res : WriteResult}
    (hres : IoWrite.write stream blob = (res, stream')) :
    ∃ handle, Handles blob maxSize handle ∧
      pw.write ⟨stream, sent⟩ = (handle res, ⟨stream', sent ++ res.taken blob⟩) := by
  have hconn : Conn.write blob ⟨stream, sent⟩ = (.ok res, ⟨stream', sent ++ res.taken blob⟩) := by
    rw [Conn.write]
    dsimp only
    rw [hres]
  cases h with
  | init fits =>
    refine ⟨_, writeInit_handles blob maxSize, ?_⟩
    rw [MQTTWrite.write, if_neg (Nat.not_lt.mpr fits), Stateful.bind_of_ok hconn, Stateful.inspect]
  | remain =>
    refine ⟨_, writeRemain_handles blob maxSize, ?_⟩
    have hslice : Stateful.inspect (fun _ => (sliceFrom blob 0 : Result (List UInt8)))
        (Conn.mk stream sent) = (.ok blob, ⟨stream, sent⟩) := by
      rw [Stateful.inspect, sliceFrom_of_le (Nat.zero_le _), List.drop_zero]
    rw [MQTTWrite.write, Stateful.bind_of_ok hslice, Stateful.bind_of_ok hconn, Stateful.inspect]

theorem decisive_of_blocked (passes : ℕ) {next : ω} {time : ℕ}
    (hres : IoWrite.write stream blob = (.wouldBlock, stream'))
    (htime : IoWrite.now stream' = (time, next)) :
    decisive blob timeout (passes + 1) stream =
      if timeout < time then decisive blob timeout passes next else none := by
  rw [decisive, hres]
  dsimp only
  rw [htime]

theorem decisive_of_answer (passes : ℕ) {res : WriteResult} (hne : res ≠ .wouldBlock)
    (hres : IoWrite.write stream blob = (res, stream')) :
    decisive blob timeout (passes + 1) stream = some res := by
  rw [decisive, hres]
  cases res with
  | wouldBlock => exact absurd rfl hne
  | _ => rfl

/-- The loop returns exactly if the decisive answer is one that the writer accepts, and then the
connection has got what that answer took. -/
theorem sendLoop_returns_iff (logPrefix name : String) (h : Waiting blob maxSize pw) (passes : ℕ)
    (out : List UInt8) :
    (∃ conn, sendLoop logPrefix name timeout passes pw ⟨stream, sent⟩ = (.ok (some ()), conn) ∧
        conn.sent = out) ↔
      ∃ res, decisive blob timeout passes stream = some res ∧ res.Accepted blob.length ∧
        out = sent ++ res.taken blob := by
  induction passes generalizing pw stream with
  | zero =>
    constructor
    · rintro ⟨conn, hsend, -⟩
      cases hsend
    · rintro ⟨res, hres, -⟩
      cases hres
  | succ passes ih =>
    obtain ⟨res, stream', hres⟩ : ∃ res stream', IoWrite.write stream blob = (res, stream') :=
      ⟨_, _, rfl⟩
    obtain ⟨handle, hhandle, hwrite⟩ := h.write sent hres
    by_cases hblock : res = .wouldBlock
    · subst hblock
      obtain ⟨time, next, htime⟩ : ∃ time next, IoWrite.now stream' = (time, next) := ⟨_, _, rfl⟩
      rw [hhandle.blocked, WriteResult.taken, List.append_nil] at hwrite
      have hnow : Conn.now (Conn.mk stream' sent) = (.ok time, ⟨next, sent⟩) := by
        rw [Conn.now]
        dsimp only
        rw [htime]
      rw [sendLoop, Stateful.bind_of_ok hwrite, decisive_of_blocked passes hres htime]
      dsimp only
      rw [if_pos rfl, Stateful.bind_of_ok hnow]
      split_ifs
      · exact ih .remain
      · constructor
        · rintro ⟨conn, hsend, -⟩
          cases hsend
        · rintro ⟨res, hnone, -⟩
          cases hnone
    · rw [decisive_of_answer passes hblock hres]
      by_cases hacc : res.Accepted blob.length
      · obtain ⟨pw', hpw'⟩ := hhandle.accepted hacc
        rw [hpw'] at hwrite
        rw [sendLoop, Stateful.bind_of_ok hwrite]
        simp only [Bool.false_eq_true, ↓reduceIte]
        constructor
        · rintro ⟨conn, hsend, rfl⟩
          cases hsend
          exact ⟨res, rfl, hacc, rfl⟩
        · rintro ⟨_, ⟨⟩, -, rfl⟩
          exact ⟨_, rfl, rfl⟩
      · constructor
        · rintro ⟨conn, hsend, -⟩
          obtain ⟨r, t, hr, -⟩ := Stateful.bind_eq_ok.mp hsend
          rw [hwrite] at hr
          exact (hhandle.refused hblock hacc r (Prod.mk.inj hr).1).elim
        · rintro ⟨_, ⟨⟩, hacc', -⟩
          exact (hacc hacc').elim

end Loop

namespace FinalPacket

/-- Whenever the packet counts as sent, however long that takes, the connection has got every byte of
it. -/
def SentWhole (self : FinalPacket) (logPrefix : String) (timeout : ℕ) (maxSize : UInt32) (stream : ω) :
    Prop :=
  ∀ passes conn, self.send logPrefix timeout maxSize passes ⟨stream, []⟩ = (.ok (some ()), conn) →
    encode self.packet = .ok conn.sent

theorem send_returns_iff (self : FinalPacket) (logPrefix : String) (timeout : ℕ) {maxSize : UInt32}
    {blob : List UInt8} (hblob : encode self.packet = .ok blob)
    (hfits : blob.length ≤ maxSize.toNat) (stream : ω) (passes : ℕ) (out : List UInt8) :
    (∃ conn, self.send logPrefix timeout maxSize passes ⟨stream, []⟩ = (.ok (some ()), conn) ∧
        conn.sent = out) ↔
      ∃ res, decisive blob timeout passes stream = some res ∧ res.Accepted blob.length ∧
        out = res.taken blob := by
  obtain ⟨name, hsend⟩ := self.send_eq (ω := ω) logPrefix timeout maxSize
  have hunwrap : Stateful.inspect (fun _ => (encode self.packet : Result (List UInt8)).unwrap)
      (Conn.mk stream []) = (.ok blob, ⟨stream, []⟩) := by
    rw [Stateful.inspect, hblob, Outcome.unwrap_ok]
  rw [hsend, sendFinal, Stateful.bind_of_ok hunwrap]
  exact sendLoop_returns_iff logPrefix name (.init hfits) passes out

/-- A packet within the limit is written whole exactly on the connections whose decisive answer does not
stop short of it. -/
theorem sentWhole_iff (self : FinalPacket) (logPrefix : String) (timeout : ℕ) {maxSize : UInt32}
    {blob : List UInt8} (hblob : encode self.packet = .ok blob)
    (hfits : blob.length ≤ maxSize.toNat) (stream : ω) :
    self.SentWhole logPrefix timeout maxSize stream ↔
      ∀ passes res, decisive blob timeout passes stream = some res →
        ¬ res.StopsShort blob.length := by
  have hreturns := self.send_returns_iff logPrefix timeout hblob hfits stream
  have hne := (Packet.isFramed hblob).ne_nil
  constructor
  · intro hwhole passes res hres hshort
    obtain ⟨conn, hsend, hsent⟩ := (hreturns passes _).mpr ⟨res, hres, hshort.accepted, rfl⟩
    have henc := hwhole passes conn hsend
    rw [hblob, hsent] at henc
    exact (WriteResult.taken_eq_iff hne hshort.accepted).mp (Outcome.ok.inj henc).symm hshort
  · intro hdecisive passes conn hsend
    obtain ⟨res, hres, hacc, hsent⟩ := (hreturns passes _).mp ⟨conn, hsend, rfl⟩
    rw [hblob, hsent, (WriteResult.taken_eq_iff hne hacc).mpr (hdecisive passes res hres)]

theorem sentWhole_iff_taken_at_once :
    (disconnect .serverBusy).SentWhole "flush" 0 10 (MQTTWrite.Scripted.mk [.ok 10]) := by
  refine (sentWhole_iff (disconnect .serverBusy) "flush" 0 rfl (by decide) _).mpr ?_
  intro passes res hres
  cases passes with
  | zero => cases hres
  | succ passes =>
    cases hres
    exact fun hshort => absurd hshort.2 (by decide)

/-- The connection takes the first of the five bytes of a CONNACK. -/
theorem connack_counts_as_sent :
    ¬ ∀ (self : FinalPacket) (logPrefix : String) (timeout : ℕ) (maxSize : UInt32)
      (blob : List UInt8) (stream : MQTTWrite.Scripted), encode self.packet = .ok blob →
        blob.length ≤ maxSize.toNat → self.SentWhole logPrefix timeout maxSize stream := by
  intro h
  have hsent := h (connAck .malformedPacket) "handshake" 0 10 _ ⟨[.ok 1]⟩ rfl (by decide) 1 _ rfl
  cases hsent

end FinalPacket
end Mqtr
