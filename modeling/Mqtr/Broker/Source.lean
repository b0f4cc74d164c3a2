import Mqtr.Broker.Message
import Mqtr.Core.Stateful
import Mqtr.Core.Transition
import Mqtr.Reader.Parse

/-! The reading half of a socket. Packets are read from the connection one at a time, wait in the
socket, and are sent on to the queue of the session as far as it takes them. -/
namespace Mqtr
open Outcome

/-- The configuration, with what the source reads of it. -/
structure SourceConfig extends Config where
  readTimeout : Option UInt32 := none

def SourceConfig.defMqttReadTimeout : UInt32 := 5

def SourceConfig.mqttReadTimeout (self : SourceConfig) : UInt32 :=
  self.readTimeout.getD defMqttReadTimeout

/-- Answer of `mpsc::SyncSender::try_send`. -/
inductive SendResult where
  | ok
  | full
  | disconnected
  deriving DecidableEq, Repr

/-- What a socket reads from and sends to: the connection, the clock of its machine, which counts
nanoseconds, and the queue of the session. -/
class Peers (ρ : Type) extends IoRead ρ where
  now : ρ → ℕ × ρ
  trySend : ρ → Packet → SendResult × ρ

structure Source where
  pr : MQTTRead
  timeout : Option ℕ
  packets : List Packet

/-- A socket, with what its reading half works on. The last two fields are a record of the packets that
have been parsed and of those that the queue has taken; nothing depends on them. -/
structure SourceSocket (ρ : Type) where
  peers : ρ
  rd : Source
  parsed : List Packet
  accepted : List Packet

namespace SourceSocket

variable {ρ : Type} [Peers ρ]

/-- `self.tx.try_send(pkt)`. -/
def trySend (pkt : Packet) : Stateful (SourceSocket ρ) Error SendResult := fun s =>
  let (res, peers) := Peers.trySend s.peers pkt
  (.ok res, { s with
    peers := peers
    accepted := if res = .ok then s.accepted ++ [pkt] else s.accepted })

/-- `PktTx::try_sends`, on the sender of this socket. -/
def trySends : List Packet → Stateful (SourceSocket ρ) Error (QueueStatus Packet)
  | [] => pure (.ok [])
  | pkt :: iter => do
    match ← trySend pkt with
    | .ok => trySends iter
    | .full => pure (.block (pkt :: iter))
    | .disconnected => pure (.disconnected (pkt :: iter))

/-- `self.rd.packets.drain(..)`. -/
def drainPackets : Stateful (SourceSocket ρ) Error (List Packet) := fun s =>
  (.ok s.rd.packets, { s with rd := { s.rd with packets := [] } })

def setPackets (packets : List Packet) : Stateful (SourceSocket ρ) Error Unit := fun s =>
  (.ok (), { s with rd := { s.rd with packets := packets } })

def sendUpstream : Stateful (SourceSocket ρ) Error (QueueStatus Packet) := do
  let pkts ← drainPackets
  let status ← trySends pkts
  setPackets status.values
  pure status.emptied

/-- `time::Instant::now()`. -/
def now : Stateful (SourceSocket ρ) Error ℕ := fun s =>
  let (time, peers) := Peers.now s.peers
  (.ok time, { s with peers := peers })

/-- True as long as the timeout is ahead. -/
def readElapsed : Stateful (SourceSocket ρ) Error Bool := fun s =>
  match s.rd.timeout with
  | some timeout => (do
      let time ← now
      pure (decide (timeout > time))) s
  | none => (.ok false, s)

def setTimeout (timeout : Option ℕ) : Stateful (SourceSocket ρ) Error Unit := fun s =>
  (.ok (), { s with rd := { s.rd with timeout := timeout } })

def setReadTimeout (retry : Bool) (timeout : UInt32) : Stateful (SourceSocket ρ) Error Unit :=
  fun s =>
    if retry && s.rd.timeout.isNone then (do
      let time ← now
      setTimeout (some (time + timeout.toNat * 10 ^ 9))) s
    else if retry = false then setTimeout none s
    else (.ok (), s)

/-- `mem::replace(&mut self.rd.pr, pr)`. -/
def replacePr (pr : MQTTRead) : Stateful (SourceSocket ρ) Error MQTTRead := fun s =>
  (.ok s.rd.pr, { s with rd := { s.rd with pr := pr } })

/-- `pr.read(&self.conn)`. What the connection is after a failed read plays no part: the reader is gone
then. -/
def readConn (pr : MQTTRead) : Stateful (SourceSocket ρ) Error (MQTTRead × Bool) :=
  Stateful.lift fun s => do
    let (out, peers) ← pr.read s.peers
    .ok (out, { s with peers := peers })

def parsePacket (pr : MQTTRead) : Stateful (SourceSocket ρ) Error Packet :=
  Stateful.lift fun s => do
    let pkt ← pr.parse
    .ok (pkt, { s with parsed := s.parsed ++ [pkt] })

/-- A status on its way out of `read_packet`, with the reader put back. -/
def putBack (pr : MQTTRead) (status : QueueStatus Packet) :
    Stateful (SourceSocket ρ) Error (QueueStatus Packet) := do
  let _prNone ← replacePr pr
  pure status

/-- The arms of `read_packet` for a packet that is not complete. -/
def afterIncomplete (timeout : UInt32) (pr : MQTTRead) :
    Stateful (SourceSocket ρ) Error (QueueStatus Packet) := do
  let elapsed ← readElapsed
  if !elapsed then
    setReadTimeout true timeout
    putBack pr (.block [])
  else
    setReadTimeout false timeout
    putBack pr (.disconnected [])

/-- The arm of `read_packet` for a complete packet. -/
def afterFin (timeout : UInt32) (pr : MQTTRead) :
    Stateful (SourceSocket ρ) Error (QueueStatus Packet) := do
  setReadTimeout false timeout
  let pkt ← parsePacket pr
  let pr ← Stateful.inspect fun _ => pr.reset
  putBack pr (.ok [pkt])

/-- What `read_packet` does after the reader has returned. -/
def afterRead (config : SourceConfig) (pr : MQTTRead) :
    Stateful (SourceSocket ρ) Error (QueueStatus Packet) :=
  match pr with
  | .init .. | .header .. | .remain .. => afterIncomplete config.mqttReadTimeout pr
  | .fin .. => afterFin config.mqttReadTimeout pr
  | .none => Stateful.inspect fun _ => .panic

def readPacket (config : SourceConfig) : Stateful (SourceSocket ρ) Error (QueueStatus Packet) := do
  let pr ← replacePr .none
  match ← Stateful.attempt (readConn pr) with
  | .ok (pr, _) => afterRead config pr
  | .error e =>
    if e.kind = .disconnected then pure (.disconnected [])
    else Stateful.inspect fun _ => .err e

def extendPackets (packets : List Packet) : Stateful (SourceSocket ρ) Error Unit := fun s =>
  (.ok (), { s with rd := { s.rd with packets := s.rd.packets ++ packets } })

def packetsLen : Stateful (SourceSocket ρ) Error ℕ := Stateful.inspect fun s => .ok s.rd.packets.length

/-- The last `send_upstream` of a call. -/
def sendLast : Stateful (SourceSocket ρ) Error (Option (QueueStatus Packet)) := do
  let status ← sendUpstream
  pure (some status)

/-- The loop of `read_packets`, cut after a number of passes: it returns `none` if it would go on. -/
def readPasses (config : SourceConfig) (pktBatchSize : ℕ) :
    ℕ → Stateful (SourceSocket ρ) Error (Option (QueueStatus Packet))
  | 0 => pure none
  | passes + 1 => do
    match ← sendUpstream with
    | .ok _ => do
      let status ← readPacket config
      extendPackets status.values
      let len ← packetsLen
      match status.emptied with
      | .ok _ => if len < pktBatchSize then readPasses config pktBatchSize passes else sendLast
      | .block _ => sendLast
      | .disconnected vals => if len = 0 then pure (some (.disconnected vals)) else sendLast
    | status => pure (some status)

def readPackets (config : SourceConfig) (passes : ℕ) :
    Stateful (SourceSocket ρ) Error (Option (QueueStatus Packet)) := do
  let pktBatchSize ← Stateful.inspect fun _ => config.mqttPktBatchSize
  readPasses config pktBatchSize.toNat passes

/-- The packets parsed so far are those the queue has taken, then those that wait in the socket. -/
def InOrder (s : SourceSocket ρ) : Prop := s.parsed = s.accepted ++ s.rd.packets

/-- Nothing was parsed or sent on. -/
structure Kept (s t : SourceSocket ρ) : Prop where
  packets : t.rd.packets = s.rd.packets
  parsed : t.parsed = s.parsed
  accepted : t.accepted = s.accepted

omit [Peers ρ] in
theorem Kept.refl (s : SourceSocket ρ) : Kept s s := ⟨rfl, rfl, rfl⟩

omit [Peers ρ] in
theorem Kept.trans {s t u : SourceSocket ρ} (h : Kept s t) (h' : Kept t u) : Kept s u :=
  ⟨h'.packets.trans h.packets, h'.parsed.trans h.parsed, h'.accepted.trans h.accepted⟩

/-- Sending takes packets off the front. -/
structure Sends (s : SourceSocket ρ) (status : QueueStatus Packet) (t : SourceSocket ρ) : Prop where
  inOrder : s.InOrder → t.InOrder
  pr : t.rd.pr = s.rd.pr
  parsed : t.parsed = s.parsed
  emptied : ∀ vals, status = .ok vals → t.rd.packets = []

variable {s t u : SourceSocket ρ} {E : SourceSocket ρ → Prop}

theorem trySend_of_eq {pkt : Packet} {res : SendResult} {peers : ρ}
    (h : Peers.trySend s.peers pkt = (res, peers)) :
    trySend pkt s = (.ok res, { s with
      peers := peers
      accepted := if res = .ok then s.accepted ++ [pkt] else s.accepted }) := by
  rw [trySend, h]

/-- By induction on the packets: each is taken by the queue, or it and all after it are returned. -/
theorem trySends_ensures (pkts : List Packet) :
    Stateful.Ensures (trySends pkts) s
      (fun status t => s.accepted ++ pkts = t.accepted ++ status.values ∧ t.parsed = s.parsed ∧
        t.rd = s.rd ∧ ∀ vals, status = .ok vals → vals = []) E := by
  induction pkts generalizing s with
  | nil => exact ⟨rfl, rfl, rfl, by rintro vals ⟨⟩; rfl⟩
  | cons pkt iter ih =>
    rw [trySends]
    rcases hres : Peers.trySend s.peers pkt with ⟨_ | _ | _, peers⟩
    · refine Stateful.ensures_bind_of_ok (trySend_of_eq hres) (ih.mono ?_ fun _ h => h)
      rintro status t ⟨haccepted, hparsed, hrd, hok⟩
      refine ⟨?_, hparsed, hrd, hok⟩
      rw [← haccepted]
      simp
    · exact Stateful.ensures_bind_of_ok (trySend_of_eq hres) ⟨rfl, rfl, rfl, by rintro vals ⟨⟩⟩
    · exact Stateful.ensures_bind_of_ok (trySend_of_eq hres) ⟨rfl, rfl, rfl, by rintro vals ⟨⟩⟩

theorem sendUpstream_ensures :
    Stateful.Ensures sendUpstream s (fun status t => Sends s status t) E := by
  rw [sendUpstream]
  refine Stateful.ensures_bind_of_ok rfl ?_
  refine (trySends_ensures s.rd.packets).bind ?_
  rintro status t ⟨haccepted, hparsed, hrd, hok⟩
  refine Stateful.ensures_bind_of_ok rfl ?_
  refine ⟨?_, by simp [hrd], hparsed, ?_⟩
  · intro h
    change t.parsed = t.accepted ++ status.values
    rw [hparsed, ← haccepted]
    exact h
  · intro vals hvals
    cases status with
    | ok left => exact hok left rfl
    | block left => cases hvals
    | disconnected left => cases hvals

theorem readElapsed_of_none (h : s.rd.timeout = none) : readElapsed s = (.ok false, s) := by
  rw [readElapsed, h]

theorem readElapsed_of_some {deadline : ℕ} (h : s.rd.timeout = some deadline) :
    readElapsed s = (.ok (decide (deadline > (Peers.now s.peers).1)),
      { s with peers := (Peers.now s.peers).2 }) := by
  rw [readElapsed, h]
  rfl

/-- The first time a packet is left incomplete. -/
theorem afterIncomplete_of_none (timeout : UInt32) (pr : MQTTRead) (h : s.rd.timeout = none) :
    afterIncomplete timeout pr s = (.ok (.block []),
      { s with
        peers := (Peers.now s.peers).2
        rd := { s.rd with
          timeout := some ((Peers.now s.peers).1 + timeout.toNat * 10 ^ 9)
          pr := pr } }) := by
  rw [afterIncomplete, Stateful.bind_of_ok (readElapsed_of_none h)]
  change (setReadTimeout true timeout >>= fun _ => putBack pr (.block [])) s = _
  have harm : setReadTimeout true timeout s = (.ok (),
      { s with
        peers := (Peers.now s.peers).2
        rd := { s.rd with timeout := some ((Peers.now s.peers).1 + timeout.toNat * 10 ^ 9) } }) := by
    rw [setReadTimeout, h]
    rfl
  rw [Stateful.bind_of_ok harm]
  rfl

/-- A packet that is still incomplete while the deadline is ahead: the connection is given up. -/
theorem afterIncomplete_of_ahead (timeout : UInt32) (pr : MQTTRead) {deadline : ℕ}
    (h : s.rd.timeout = some deadline) (hlt : (Peers.now s.peers).1 < deadline) :
    afterIncomplete timeout pr s = (.ok (.disconnected []),
      { s with
        peers := (Peers.now s.peers).2
        rd := { s.rd with timeout := none, pr := pr } }) := by
  rw [afterIncomplete, Stateful.bind_of_ok (readElapsed_of_some h), decide_eq_true hlt]
  rfl

/-- After the deadline it is kept. -/
theorem afterIncomplete_of_passed (timeout : UInt32) (pr : MQTTRead) {deadline : ℕ}
    (h : s.rd.timeout = some deadline) (hle : deadline ≤ (Peers.now s.peers).1) :
    afterIncomplete timeout pr s = (.ok (.block []),
      { s with
        peers := (Peers.now s.peers).2
        rd := { s.rd with pr := pr } }) := by
  rw [afterIncomplete, Stateful.bind_of_ok (readElapsed_of_some h), decide_eq_false (not_lt.mpr hle)]
  have hkeep : setReadTimeout true timeout { s with peers := (Peers.now s.peers).2 } =
      (.ok (), { s with peers := (Peers.now s.peers).2 }) := by
    rw [setReadTimeout]
    simp [h]
  change (setReadTimeout true timeout >>= fun _ => putBack pr (.block []))
    { s with peers := (Peers.now s.peers).2 } = _
  rw [Stateful.bind_of_ok hkeep]
  rfl

/-- What `read_packet` did to the packets and to the reader. -/
structure Reads (s : SourceSocket ρ) (status : QueueStatus Packet) (t : SourceSocket ρ) : Prop where
  packets : t.rd.packets = s.rd.packets
  parsed : t.parsed = s.parsed ++ status.values
  accepted : t.accepted = s.accepted
  pr : t.rd.pr = .none → status = .disconnected []
  one : ∀ vals, status = .ok vals → vals.length = 1
  nothing : ∀ vals, status = .disconnected vals → vals = []

omit [Peers ρ] in
/-- A packet that is not complete brings nothing, and the reader is put back. -/
theorem Kept.reads_nothing {status : QueueStatus Packet} (h : Kept s t) (hpr : t.rd.pr ≠ .none)
    (hstatus : status = .block [] ∨ status = .disconnected []) : Reads s status t := by
  refine ⟨h.packets, ?_, h.accepted, fun hnone => absurd hnone hpr, ?_, ?_⟩
  · rcases hstatus with rfl | rfl <;> simp [QueueStatus.values, h.parsed]
  · rcases hstatus with rfl | rfl <;> simp
  · rcases hstatus with rfl | rfl <;> simp

theorem afterIncomplete_ensures (timeout : UInt32) {pr : MQTTRead} (hpr : pr ≠ .none) :
    Stateful.Ensures (afterIncomplete timeout pr) s (fun status t => Reads s status t) E := by
  unfold Stateful.Ensures
  cases htimeout : s.rd.timeout with
  | none =>
    rw [afterIncomplete_of_none timeout pr htimeout]
    exact Kept.reads_nothing ⟨rfl, rfl, rfl⟩ hpr (.inl rfl)
  | some deadline =>
    rcases lt_or_ge (Peers.now s.peers).1 deadline with hlt | hle
    · rw [afterIncomplete_of_ahead timeout pr htimeout hlt]
      exact Kept.reads_nothing ⟨rfl, rfl, rfl⟩ hpr (.inr rfl)
    · rw [afterIncomplete_of_passed timeout pr htimeout hle]
      exact Kept.reads_nothing ⟨rfl, rfl, rfl⟩ hpr (.inl rfl)

omit [Peers ρ] in
theorem parsePacket_ensures (pr : MQTTRead) :
    Stateful.Ensures (parsePacket pr) s
      (fun pkt t => t = { s with parsed := s.parsed ++ [pkt] }) (Kept s) := by
  refine Stateful.ensures_lift ?_ (Kept.refl s)
  intro pkt t h
  obtain ⟨pkt', -, h⟩ := bind_eq_ok.mp h
  cases h
  rfl

theorem afterFin_ensures (timeout : UInt32) (pr : MQTTRead) :
    Stateful.Ensures (afterFin timeout pr) s (fun status t => Reads s status t) (Kept s) := by
  rw [afterFin]
  refine Stateful.ensures_bind_of_ok rfl ?_
  refine ((parsePacket_ensures pr).mono (fun _ _ h => h) fun _ h => ?_).bind ?_
  · exact ⟨h.packets, h.parsed, h.accepted⟩
  rintro pkt t rfl
  cases pr with
  | fin data fh maxSize =>
    refine Stateful.ensures_bind_of_ok rfl ?_
    exact ⟨rfl, rfl, rfl, by simp, by simp, by simp⟩
  | none => trivial
  | init data maxSize => trivial
  | header byte1 data maxSize => trivial
  | remain data start fh maxSize => trivial

theorem afterRead_ensures (config : SourceConfig) (pr : MQTTRead) :
    Stateful.Ensures (afterRead config pr) s (fun status t => Reads s status t) (Kept s) := by
  cases pr with
  | none => trivial
  | init data maxSize => exact afterIncomplete_ensures _ (by simp)
  | header byte1 data maxSize => exact afterIncomplete_ensures _ (by simp)
  | remain data start fh maxSize => exact afterIncomplete_ensures _ (by simp)
  | fin data fh maxSize => exact afterFin_ensures _ _

theorem readConn_ensures (pr : MQTTRead) :
    Stateful.Ensures (readConn pr) s (fun _ t => Kept s t) (Kept s) := by
  refine Stateful.ensures_lift ?_ (Kept.refl s)
  intro r t h
  obtain ⟨⟨out, peers⟩, -, h⟩ := bind_eq_ok.mp h
  cases h
  exact ⟨rfl, rfl, rfl⟩

omit [Peers ρ] in
theorem Kept.reads {status : QueueStatus Packet} (h : Kept s t) (hr : Reads t status u) :
    Reads s status u where
  packets := hr.packets.trans h.packets
  parsed := by rw [hr.parsed, h.parsed]
  accepted := hr.accepted.trans h.accepted
  pr := hr.pr
  one := hr.one
  nothing := hr.nothing

theorem readPacket_ensures (config : SourceConfig) :
    Stateful.Ensures (readPacket config) s (fun status t => Reads s status t) (Kept s) := by
  rw [readPacket]
  refine Stateful.ensures_bind_of_ok rfl ?_
  refine (readConn_ensures s.rd.pr).attempt.bind ?_
  rintro (e | ⟨pr, wouldBlock⟩) t h
  · have hkept : Kept s t := ⟨h.packets, h.parsed, h.accepted⟩
    dsimp only
    split_ifs with hkind
    · exact ⟨h.packets, by simp [QueueStatus.values, hkept.parsed], h.accepted, fun _ => rfl,
        by simp, by simp⟩
    · exact hkept
  · have hkept : Kept s t := ⟨h.packets, h.parsed, h.accepted⟩
    exact (afterRead_ensures config pr).mono (fun _ _ hr => hkept.reads hr) fun _ hk => hkept.trans hk

omit [Peers ρ] in
/-- The packet that was read comes after all that were sent on, since those that waited are gone. -/
theorem Reads.inOrder {status : QueueStatus Packet} (h : Reads s status t) (hs : s.InOrder)
    (hempty : s.rd.packets = []) :
    InOrder { t with rd := { t.rd with packets := t.rd.packets ++ status.values } } := by
  unfold InOrder at hs ⊢
  simp only [h.parsed, h.accepted, h.packets, hempty, hs, List.append_nil, List.nil_append]

omit [Peers ρ] in
theorem Kept.inOrder (h : Kept s t) (hs : s.InOrder) : t.InOrder := by
  unfold InOrder at hs ⊢
  rw [h.parsed, h.accepted, h.packets, hs]

/-- What a call did that returned, or was cut after some passes of its loop. The reader is missing only
after the call has returned `Disconnected`, and the loop goes on only while packets come in. -/
structure Serves (passes : ℕ) (s : SourceSocket ρ) (out : Option (QueueStatus Packet))
    (t : SourceSocket ρ) : Prop where
  inOrder : t.InOrder
  pr : s.rd.pr ≠ .none → (∀ vals, out ≠ some (.disconnected vals)) → t.rd.pr ≠ .none
  parses : out = none → t.parsed.length = s.parsed.length + passes

theorem sendLast_ensures (passes : ℕ) (hs : s.InOrder) (hpr : s.rd.pr ≠ .none) :
    Stateful.Ensures sendLast s (fun out u => Serves passes t out u) E := by
  rw [sendLast]
  refine sendUpstream_ensures.bind fun status u h => ?_
  exact ⟨h.inOrder hs, fun _ _ => by rw [h.pr]; exact hpr, by simp⟩

/-- By induction on the passes. Each starts with an empty list of packets, or does not read. -/
theorem readPasses_ensures (config : SourceConfig) (pktBatchSize passes : ℕ) (hs : s.InOrder) :
    Stateful.Ensures (readPasses config pktBatchSize passes) s
      (fun out t => Serves passes s out t) InOrder := by
  induction passes generalizing s with
  | zero => exact ⟨hs, fun hpr _ => hpr, fun _ => rfl⟩
  | succ passes ih =>
    rw [readPasses]
    refine sendUpstream_ensures.bind fun status s₁ hsend => ?_
    have hs₁ := hsend.inOrder hs
    cases status with
    | ok vals =>
      have hempty := hsend.emptied vals rfl
      refine ((readPacket_ensures config).mono (fun _ _ h => h) fun t h => h.inOrder hs₁).bind ?_
      intro status s₂ hread
      have hs₃ := hread.inOrder hs₁ hempty
      refine Stateful.ensures_bind_of_ok rfl (Stateful.ensures_bind_of_ok rfl ?_)
      cases status with
      | ok vals =>
        have hpr : s₂.rd.pr ≠ .none := fun h => by simpa using hread.pr h
        simp only [QueueStatus.emptied]
        split_ifs
        · refine (ih hs₃).mono ?_ fun _ h => h
          intro out t hserves
          refine ⟨hserves.inOrder, fun _ => hserves.pr hpr, fun hout => ?_⟩
          have hlen := hserves.parses hout
          simp only [hread.parsed, hsend.parsed, QueueStatus.values, List.length_append,
            hread.one vals rfl] at hlen
          omega
        · exact sendLast_ensures _ hs₃ hpr
      | block vals =>
        exact sendLast_ensures _ hs₃ fun h => by simpa using hread.pr h
      | disconnected vals =>
        -- Nothing waits here: what was sent on is gone, and a lost connection brings no packet.
        have hnone : (s₂.rd.packets ++ (QueueStatus.disconnected vals).values).length = 0 := by
          rw [hread.packets, hempty, hread.nothing vals rfl]
          rfl
        simp only [QueueStatus.emptied]
        rw [if_pos hnone]
        exact ⟨hs₃, fun _ h => absurd rfl (h []), by simp⟩
    | block vals => exact ⟨hs₁, fun hpr _ => by rw [hsend.pr]; exact hpr, by simp⟩
    | disconnected vals => exact ⟨hs₁, fun hpr _ => by rw [hsend.pr]; exact hpr, by simp⟩

theorem readPackets_ensures (config : SourceConfig) (passes : ℕ) (hs : s.InOrder) :
    Stateful.Ensures (readPackets config passes) s (fun out t => Serves passes s out t) InOrder := by
  rw [readPackets]
  refine Stateful.Ensures.bind (Q := fun _ t => t = s) (Stateful.ensures_inspect ?_ hs) ?_
  · exact fun _ _ => rfl
  · rintro size t rfl
    exact readPasses_ensures config size.toNat passes hs

/-- The peers play no part in what a call keeps. -/
theorem serves_of_call {config : SourceConfig} {passes : ℕ} {peers : ρ}
    {out : Option (QueueStatus Packet)} (hs : s.InOrder)
    (hcall : readPackets config passes { s with peers := peers } = (.ok out, t)) :
    Serves passes s out t := by
  have hs' : InOrder { s with peers := peers } := hs
  have hserves := (readPackets_ensures config passes hs').of_ok hcall
  exact ⟨hserves.inOrder, hserves.pr, hserves.parses⟩

theorem inOrder_of_failed_call {config : SourceConfig} {passes : ℕ} {peers : ρ} {e : Error}
    (hs : s.InOrder)
    (hcall : readPackets config passes { s with peers := peers } = (.err e, t)) : t.InOrder := by
  have hs' : InOrder { s with peers := peers } := hs
  exact (readPackets_ensures config passes hs').of_err hcall

/-- A call of `read_packets`, with what it returned. Before it the connection, the clock and the queue
have moved on in any way. -/
inductive Called : SourceSocket ρ → Except Error (QueueStatus Packet) → SourceSocket ρ → Prop
  | ok {s t : SourceSocket ρ} {config : SourceConfig} {passes : ℕ} {peers : ρ}
      {status : QueueStatus Packet}
      (hcall : readPackets config passes { s with peers := peers } = (.ok (some status), t)) :
      Called s (.ok status) t
  | err {s t : SourceSocket ρ} {config : SourceConfig} {passes : ℕ} {peers : ρ} {e : Error}
      (hcall : readPackets config passes { s with peers := peers } = (.err e, t)) :
      Called s (.error e) t

/-- Calls one after another. -/
abbrev Calls : SourceSocket ρ → List (Except Error (QueueStatus Packet)) → SourceSocket ρ → Prop :=
  Transition.Steps Called

/-- A call that returned neither an error nor `Disconnected`. -/
def Continues : Except Error (QueueStatus Packet) → Prop
  | .ok (.ok _) => True
  | .ok (.block _) => True
  | .ok (.disconnected _) => False
  | .error _ => False

theorem Called.inOrder {out : Except Error (QueueStatus Packet)} (h : Called s out t)
    (hs : s.InOrder) : t.InOrder := by
  cases h with
  | ok hcall => exact (serves_of_call hs hcall).inOrder
  | err hcall => exact inOrder_of_failed_call hs hcall

theorem Called.pr {out : Except Error (QueueStatus Packet)} (h : Called s out t) (hs : s.InOrder)
    (hpr : s.rd.pr ≠ .none) (hcont : Continues out) : t.rd.pr ≠ .none := by
  cases h with
  | ok hcall =>
    refine (serves_of_call hs hcall).pr hpr fun vals hstatus => ?_
    obtain rfl := Option.some.inj hstatus
    exact hcont
  | err hcall => exact False.elim hcont

/-- After any run of calls the packets parsed are those the queue has taken followed by those that wait,
in order. As long as no call has returned an error or `Disconnected`, the next call finds the reader, and
so does every pass of its loop, which has parsed a packet in each pass before. -/
theorem calls_keep_order {outs : List (Except Error (QueueStatus Packet))} (h : Calls s outs u)
    (hs : s.InOrder) (hpr : s.rd.pr ≠ .none) :
    u.InOrder ∧ ((∀ out ∈ outs, Continues out) → u.rd.pr ≠ .none ∧
      ∀ config passes t, readPackets config passes u = (.ok none, t) →
        t.InOrder ∧ t.rd.pr ≠ .none ∧ t.parsed.length = u.parsed.length + passes) := by
  have hu : u.InOrder :=
    h.invariant (C := fun _ => True) (fun hs _ hcall => hcall.inOrder hs) hs fun _ _ => trivial
  refine ⟨hu, fun hcont => ?_⟩
  obtain ⟨-, hfound⟩ := h.invariant (P := fun s => s.InOrder ∧ s.rd.pr ≠ .none)
    (fun hs hcont hcall => ⟨hcall.inOrder hs.1, hcall.pr hs.1 hs.2 hcont⟩) ⟨hs, hpr⟩ hcont
  refine ⟨hfound, fun config passes t hcut => ?_⟩
  have hserves := (readPackets_ensures config passes hu).of_ok hcut
  exact ⟨hserves.inOrder, hserves.pr hfound (by simp), hserves.parses rfl⟩

/-- Answers written down in advance. Where they end, nothing comes in and the queue is full. -/
structure Scripted where
  reads : List ReadResult
  sends : List SendResult
  time : ℕ

instance : Peers Scripted where
  read p _ := (p.reads.headD .wouldBlock, { p with reads := p.reads.tail })
  now p := (p.time, p)
  trySend p _ := (p.sends.headD .full, { p with sends := p.sends.tail })

def acked (packetId : UInt16) : Packet := .pubAck ⟨.pubAck, packetId, .success, none⟩

/-- A PUBACK that waits and another of which the rest comes in, for a queue that takes one packet and is
full then, also at the next call. -/
theorem calls_keep_order_full_queue :
    let s : SourceSocket Scripted :=
      ⟨⟨[.ok [0x00, 0x02]], [.ok], 0⟩,
        ⟨.remain [0x40, 0x02, 0x00, 0x00] 2 ⟨0x40, ⟨2⟩⟩ 16, none, [acked 1]⟩, [acked 1], []⟩
    let u : SourceSocket Scripted :=
      ⟨⟨[], [], 0⟩, ⟨.init [] 16, none, [acked 2]⟩, [acked 1, acked 2], [acked 1]⟩
    Calls s [.ok (.block []), .ok (.block [])] u ∧ u.InOrder := by
  intro s u
  have hfirst : readPackets {} 3 s = (.ok (some (.block [])), u) := by rfl
  have hsecond : readPackets {} 3 u = (.ok (some (.block [])), u) := by rfl
  have hcalls : Calls s [.ok (.block []), .ok (.block [])] u :=
    .cons (.ok hfirst) (.cons (.ok hsecond) (.nil u))
  exact ⟨hcalls, (calls_keep_order hcalls rfl (by decide)).1⟩

end SourceSocket
end Mqtr
