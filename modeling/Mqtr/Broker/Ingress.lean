import Mqtr.Broker.ReadTimeout
import Mqtr.Reader.Stream

/-! From the bytes of a connection to the queue of the session: the calls of `read_packets` on a socket
whose remote has sent packets. The connection delivers the bytes in any pieces, the queue takes a packet
or refuses it as it likes, and the clock says anything. A call that returns `Disconnected` is the last: the
I/O thread then removes the connection. -/
namespace Mqtr
open Outcome Transition

/-- A connection with the bytes still to be delivered, and what it, the queue and the clock will do.
Where that ends, nothing comes in, the queue is full, and the clock stands still. -/
structure Line where
  unread : List UInt8
  deliveries : List Delivery
  answers : List SendResult
  times : List ℕ
  deriving DecidableEq, Repr

namespace Line

/-- What the connection does at the next read. -/
def delivery (self : Line) : Delivery := self.deliveries.headD .wouldBlock

/-- The line after a read that has left these bytes. -/
def afterRead (self : Line) (unread : List UInt8) : Line :=
  { self with unread := unread, deliveries := self.deliveries.tail }

instance : Peers Line where
  read self len :=
    let (res, conn) := IoRead.read (Connection.mk self.unread self.delivery) len
    (res, self.afterRead conn.unread)
  now self := (self.times.headD 0, { self with times := self.times.tail })
  trySend self _ := (self.answers.headD .full, { self with answers := self.answers.tail })

/-- A reader between two packets, or within one, reads from the line as from the connection. -/
theorem read_eq {pr : MQTTRead} (hpr : pr.isFin = false) (line : Line) :
    pr.read line = (pr.read (Connection.mk line.unread line.delivery) >>= fun r =>
      .ok (r.1, line.afterRead r.2.unread)) := by
  cases pr with
  | fin data fh maxSize => cases hpr
  | none => rfl
  | init data maxSize =>
    simp only [MQTTRead.read, bind_assoc, ok_bind]
    rfl
  | header byte1 data maxSize =>
    simp only [MQTTRead.read, bind_assoc, ok_bind]
    rfl
  | remain data start fh maxSize =>
    simp only [MQTTRead.read, bind_assoc, ok_bind]
    rfl

end Line

namespace PacketFeed

theorem step_eq_some {d d' : PacketFeed} {ev : Delivery} (h : d.step ev = some d') :
    ∃ reader block conn, d.reader.read (Connection.mk d.unread ev) = .ok ((reader, block), conn) ∧
      settle d.packets conn.unread reader = some d' := by
  unfold step at h
  cases hread : d.reader.read (Connection.mk d.unread ev) with
  | ok out =>
    rw [hread] at h
    exact ⟨out.1.1, out.1.2, out.2, rfl, h⟩
  | err e => simp [hread] at h
  | panic => simp [hread] at h

theorem settle_fin {packets : List Packet} {unread data : List UInt8} {fh : FixedHeader} {m : ℕ}
    {d : PacketFeed} (h : settle packets unread (.fin data fh m) = some d) :
    ∃ pkt, MQTTRead.parse (.fin data fh m) = .ok pkt ∧ d = ⟨.init [] m, unread, packets ++ [pkt]⟩ := by
  unfold settle at h
  cases hparse : MQTTRead.parse (.fin data fh m) with
  | ok pkt =>
    simp only [hparse, MQTTRead.reset] at h
    cases h
    exact ⟨pkt, rfl, rfl⟩
  | err e => simp [hparse] at h
  | panic => simp [hparse] at h

end PacketFeed

namespace Feed
variable {maxSize : ℕ} {frames : List Frame} {f : Feed}

theorem Synced.not_isFin (h : f.Synced maxSize frames) : f.reader.isFin = false := by
  obtain ⟨before, rest, -, -, hat⟩ := h
  cases hreader : f.reader with
  | fin data fh m =>
    rw [hreader] at hat
    exact hat.elim
  | _ => rfl

theorem Synced.ne_none (h : f.Synced maxSize frames) : f.reader ≠ .none := by
  obtain ⟨before, rest, -, -, hat⟩ := h
  intro hnone
  rw [hnone] at hat
  exact hat

end Feed

namespace SourceSocket
variable {maxSize : ℕ} {frames : List Frame} {ps : List Packet} {s t : SourceSocket Line}

/-- The reader of the socket is in step with the frames, and what it has parsed are the packets of the
frames that it has read. -/
def Carries (maxSize : ℕ) (frames : List Frame) (ps : List Packet) (s : SourceSocket Line) : Prop :=
  ∃ f : Feed, PacketFeed.Follows frames ps f ⟨s.rd.pr, s.peers.unread, s.parsed⟩ ∧
    f.Synced maxSize frames ∧ Along Feed.step (Feed.HeaderCut frames) f s.peers.deliveries

/-- Only the queue, the clock and the packets that wait have changed. -/
structure SameFeed (s t : SourceSocket Line) : Prop where
  pr : t.rd.pr = s.rd.pr
  unread : t.peers.unread = s.peers.unread
  deliveries : t.peers.deliveries = s.peers.deliveries
  parsed : t.parsed = s.parsed

theorem Carries.congr (h : s.Carries maxSize frames ps) (hsame : SameFeed s t) :
    t.Carries maxSize frames ps := by
  obtain ⟨f, hfollows, hsync, hcut⟩ := h
  refine ⟨f, ?_, hsync, ?_⟩
  · rw [hsame.pr, hsame.unread, hsame.parsed]
    exact hfollows
  · rw [hsame.deliveries]
    exact hcut

theorem trySends_returns (pkts : List Packet) (s : SourceSocket Line) :
    ∃ status t, trySends pkts s = (.ok status, t) ∧ SameFeed s t := by
  induction pkts generalizing s with
  | nil => exact ⟨_, s, rfl, rfl, rfl, rfl, rfl⟩
  | cons pkt iter ih =>
    rw [trySends]
    rcases hres : Peers.trySend s.peers pkt with ⟨_ | _ | _, line⟩
    · obtain ⟨status, t, ht, hsame⟩ := ih { s with
        peers := line
        accepted := s.accepted ++ [pkt] }
      refine ⟨status, t, (Stateful.bind_of_ok (trySend_of_eq hres)).trans ht, ?_⟩
      obtain rfl := (Prod.ext_iff.mp hres).2
      exact ⟨hsame.pr, hsame.unread, hsame.deliveries, hsame.parsed⟩
    · refine ⟨_, _, Stateful.bind_of_ok (trySend_of_eq hres), ?_⟩
      obtain rfl := (Prod.ext_iff.mp hres).2
      exact ⟨rfl, rfl, rfl, rfl⟩
    · refine ⟨_, _, Stateful.bind_of_ok (trySend_of_eq hres), ?_⟩
      obtain rfl := (Prod.ext_iff.mp hres).2
      exact ⟨rfl, rfl, rfl, rfl⟩

theorem sendUpstream_returns (s : SourceSocket Line) :
    ∃ status t, sendUpstream s = (.ok status, t) ∧ SameFeed s t := by
  obtain ⟨status, t, ht, hsame⟩ := trySends_returns s.rd.packets
    { s with rd := { s.rd with packets := [] } }
  refine ⟨status.emptied, { t with rd := { t.rd with packets := status.values } }, ?_,
    hsame.pr, hsame.unread, hsame.deliveries, hsame.parsed⟩
  have hdrain : drainPackets s =
      (.ok s.rd.packets, { s with rd := { s.rd with packets := [] } }) := rfl
  rw [sendUpstream, Stateful.bind_of_ok hdrain, Stateful.bind_of_ok ht]
  rfl

/-- The arms for a packet that is not complete put the reader back. -/
theorem afterIncomplete_returns (timeout : UInt32) (pr : MQTTRead) (s : SourceSocket Line) :
    ∃ status t, afterIncomplete timeout pr s = (.ok status, t) ∧
      SameFeed { s with rd := { s.rd with pr := pr } } t := by
  cases htimeout : s.rd.timeout with
  | none => exact ⟨_, _, afterIncomplete_of_none timeout pr htimeout, rfl, rfl, rfl, rfl⟩
  | some deadline =>
    rcases lt_or_ge (Peers.now s.peers).1 deadline with hlt | hle
    · exact ⟨_, _, afterIncomplete_of_ahead timeout pr htimeout hlt, rfl, rfl, rfl, rfl⟩
    · exact ⟨_, _, afterIncomplete_of_passed timeout pr htimeout hle, rfl, rfl, rfl, rfl⟩

theorem afterFin_returns (timeout : UInt32) {pr pr' : MQTTRead} {pkt : Packet}
    (hparse : pr.parse = .ok pkt) (hreset : pr.reset = .ok pr') (s : SourceSocket Line) :
    ∃ status t, afterFin timeout pr s = (.ok status, t) ∧
      SameFeed { s with rd := { s.rd with pr := pr' }, parsed := s.parsed ++ [pkt] } t := by
  refine ⟨.ok [pkt], { s with
    rd := { s.rd with timeout := none, pr := pr' }
    parsed := s.parsed ++ [pkt] }, ?_, rfl, rfl, rfl, rfl⟩
  have hdisarm : setReadTimeout false timeout s =
      (.ok (), { s with rd := { s.rd with timeout := none } }) := rfl
  have hpacket : parsePacket pr { s with rd := { s.rd with timeout := none } } =
      (.ok pkt, { s with rd := { s.rd with timeout := none }, parsed := s.parsed ++ [pkt] }) := by
    simp [parsePacket, Stateful.lift, hparse]
  have hinit : Stateful.inspect (fun _ => pr.reset)
      { s with rd := { s.rd with timeout := none }, parsed := s.parsed ++ [pkt] } =
      (.ok pr', { s with rd := { s.rd with timeout := none }, parsed := s.parsed ++ [pkt] }) := by
    simp [Stateful.inspect, hreset]
  rw [afterFin, Stateful.bind_of_ok hdisarm, Stateful.bind_of_ok hpacket, Stateful.bind_of_ok hinit]
  rfl

/-- What the connection does next, it does within the bounds. -/
theorem headerCut_delivery {f : Feed} {line : Line} (hsync : f.Synced maxSize frames)
    (hcut : Along Feed.step (Feed.HeaderCut frames) f line.deliveries) :
    f.HeaderCut frames line.delivery := by
  cases hline : line.deliveries with
  | nil =>
    rw [Line.delivery, hline]
    exact (Feed.call_blocked hsync (fun _ _ => rfl) (by simp [Feed.isChunk])).1
  | cons ev rest =>
    rw [hline] at hcut
    rw [Line.delivery, hline]
    exact hcut.1

theorem along_tail {f f' : Feed} {line : Line} (hs : f.step line.delivery = some f')
    (hcut : Along Feed.step (Feed.HeaderCut frames) f line.deliveries) :
    Along Feed.step (Feed.HeaderCut frames) f' line.deliveries.tail := by
  cases hline : line.deliveries with
  | nil => trivial
  | cons ev rest =>
    rw [Line.delivery, hline] at hs
    rw [hline] at hcut
    have hrest := hcut.2
    rw [show f.step ev = some f' from hs] at hrest
    exact hrest

/-- A call of `read_packet` returns, with the reader in step again. -/
theorem readPacket_carries (config : SourceConfig) (hmax : ∀ F ∈ frames, F.bytes.length ≤ maxSize)
    (hback : PacketFeed.ReadBack ps frames) (h : s.Carries maxSize frames ps) :
    ∃ status t, readPacket config s = (.ok status, t) ∧ t.Carries maxSize frames ps := by
  obtain ⟨f, hfollows, hsync, hcut⟩ := h
  have hc := headerCut_delivery hsync hcut
  obtain ⟨-, f', hstep, hsync', -⟩ : f.Advances maxSize frames s.peers.delivery :=
    (Feed.synced_call hmax hsync s.peers.delivery).resolve_right fun hderails => hderails.1 hc
  obtain ⟨d', hd', hfollows'⟩ :=
    PacketFeed.follows_step hmax hback hfollows hsync hc hstep hsync'
  obtain ⟨reader, block, conn, hread, hsettle⟩ := PacketFeed.step_eq_some hd'
  have hrest := along_tail hstep hcut
  have hpr : s.rd.pr.isFin = false := by
    rw [show s.rd.pr = f.reader from hfollows.reader]
    exact hsync.not_isFin
  have hline : s.rd.pr.read s.peers =
      .ok ((reader, block), s.peers.afterRead conn.unread) := by
    rw [Line.read_eq hpr, hread, ok_bind]
  -- the socket while the reader is out of it
  let s₁ : SourceSocket Line :=
    { s with peers := s.peers.afterRead conn.unread, rd := { s.rd with pr := .none } }
  have hcall : readPacket config s = SourceSocket.afterRead config reader s₁ := readPacket_of_read hline
  have hwait (hd : d' = ⟨reader, conn.unread, s.parsed⟩) : ∃ status t,
      afterIncomplete config.mqttReadTimeout reader s₁ = (.ok status, t) ∧
        t.Carries maxSize frames ps := by
    subst hd
    obtain ⟨status, t, ht, hsame⟩ := afterIncomplete_returns config.mqttReadTimeout reader s₁
    exact ⟨status, t, ht, Carries.congr ⟨f', hfollows', hsync', hrest⟩ hsame⟩
  rw [hcall]
  cases reader with
  | none =>
    cases hsettle
    exact absurd hfollows'.reader.symm hsync'.ne_none
  | init data m => exact hwait (Option.some.inj hsettle).symm
  | header b data m => exact hwait (Option.some.inj hsettle).symm
  | remain data start fh m => exact hwait (Option.some.inj hsettle).symm
  | fin data fh m =>
    obtain ⟨pkt, hparse, rfl⟩ := PacketFeed.settle_fin hsettle
    obtain ⟨status, t, ht, hsame⟩ := afterFin_returns config.mqttReadTimeout hparse rfl s₁
    exact ⟨status, t, ht, Carries.congr ⟨f', hfollows', hsync', hrest⟩ hsame⟩

theorem sendLast_carries (h : s.Carries maxSize frames ps) :
    ∃ out t, sendLast s = (.ok out, t) ∧ t.Carries maxSize frames ps := by
  obtain ⟨status, t, ht, hsame⟩ := sendUpstream_returns s
  refine ⟨some status, t, ?_, h.congr hsame⟩
  rw [sendLast, Stateful.bind_of_ok ht]
  rfl

/-- By induction on the passes: none of them fails. -/
theorem readPasses_carries (config : SourceConfig) (pktBatchSize passes : ℕ)
    (hmax : ∀ F ∈ frames, F.bytes.length ≤ maxSize) (hback : PacketFeed.ReadBack ps frames)
    (h : s.Carries maxSize frames ps) :
    ∃ out t, readPasses config pktBatchSize passes s = (.ok out, t) ∧
      t.Carries maxSize frames ps := by
  induction passes generalizing s with
  | zero => exact ⟨none, s, rfl, h⟩
  | succ passes ih =>
    obtain ⟨sent, s₁, hsend, hsame⟩ := sendUpstream_returns s
    have h₁ := h.congr hsame
    rw [readPasses, Stateful.bind_of_ok hsend]
    cases sent with
    | block vals => exact ⟨_, s₁, rfl, h₁⟩
    | disconnected vals => exact ⟨_, s₁, rfl, h₁⟩
    | ok vals =>
      obtain ⟨status, s₂, hread, h₂⟩ := readPacket_carries config hmax hback h₁
      let s₃ : SourceSocket Line :=
        { s₂ with rd := { s₂.rd with packets := s₂.rd.packets ++ status.values } }
      have h₃ : s₃.Carries maxSize frames ps := h₂.congr ⟨rfl, rfl, rfl, rfl⟩
      have hextend : extendPackets status.values s₂ = (.ok (), s₃) := rfl
      have hlen : packetsLen s₃ = (.ok s₃.rd.packets.length, s₃) := rfl
      dsimp only
      rw [Stateful.bind_of_ok hread, Stateful.bind_of_ok hextend, Stateful.bind_of_ok hlen]
      cases status with
      | ok pkts =>
        simp only [QueueStatus.emptied]
        split_ifs
        · exact ih h₃
        · exact sendLast_carries h₃
      | block pkts => exact sendLast_carries h₃
      | disconnected pkts =>
        simp only [QueueStatus.emptied]
        split_ifs
        · exact ⟨_, s₃, rfl, h₃⟩
        · exact sendLast_carries h₃

theorem Carries.parsed_prefix (h : s.Carries maxSize frames ps) : s.parsed <+: ps := by
  obtain ⟨f, hfollows, -⟩ := h
  rw [show s.parsed = _ from hfollows.packets]
  exact List.take_prefix _ _

/-- With more passes than packets are to come, a call returns. -/
theorem readPackets_carries {config : SourceConfig} {size : UInt32}
    (hsize : config.mqttPktBatchSize = .ok size) (hmax : ∀ F ∈ frames, F.bytes.length ≤ maxSize)
    (hback : PacketFeed.ReadBack ps frames) (h : s.Carries maxSize frames ps) (hs : s.InOrder) :
    ∃ status t, readPackets config (ps.length + 1) s = (.ok (some status), t) ∧
      t.Carries maxSize frames ps ∧ t.InOrder := by
  obtain ⟨out, t, ht, hcarries⟩ := readPasses_carries config size.toNat (ps.length + 1) hmax hback h
  have hcall : readPackets config (ps.length + 1) s = (.ok out, t) := by
    have hinspect : Stateful.inspect (fun _ : SourceSocket Line => config.mqttPktBatchSize) s =
        (.ok size, s) := by
      simp [Stateful.inspect, hsize]
    rw [readPackets, Stateful.bind_of_ok hinspect, ht]
  have hserves := (readPackets_ensures config (ps.length + 1) hs).of_ok hcall
  cases out with
  | none =>
    -- each pass would have parsed a packet
    have hlen := hserves.parses rfl
    have hle := hcarries.parsed_prefix.length_le
    omega
  | some status => exact ⟨status, t, hcall, hcarries, hserves.inOrder⟩

/-- A new socket on a line. -/
def onLine (maxSize : UInt32) (line : Line) : SourceSocket Line :=
  ⟨line, ⟨.new maxSize, none, []⟩, [], []⟩

/-- A call of `read_packets` after which the connection is kept. -/
def call (passes : ℕ) (s : SourceSocket Line) (config : SourceConfig) : Option (SourceSocket Line) :=
  match readPackets config passes s with
  | (.ok (some (.ok _)), t) | (.ok (some (.block _)), t) => some t
  | _ => none

theorem returns_of_call {passes : ℕ} {config : SourceConfig} (h : call passes s config = some t) :
    ∃ status, readPackets config passes s = (.ok (some status), t) := by
  unfold call at h
  split at h
  next vals t' hcall =>
    obtain rfl := Option.some.inj h
    exact ⟨_, hcall⟩
  next vals t' hcall =>
    obtain rfl := Option.some.inj h
    exact ⟨_, hcall⟩
  next => cases h

theorem size_of_returns {passes : ℕ} {config : SourceConfig} {out : Option (QueueStatus Packet)}
    (h : readPackets config passes s = (.ok out, t)) : ∃ size, config.mqttPktBatchSize = .ok size := by
  obtain ⟨size, s₁, hinspect, -⟩ := Stateful.bind_eq_ok.mp h
  exact ⟨size, (Stateful.inspect_eq_ok.mp hinspect).1⟩

theorem call_carries {config : SourceConfig} (hmax : ∀ F ∈ frames, F.bytes.length ≤ maxSize)
    (hback : PacketFeed.ReadBack ps frames) (h : s.Carries maxSize frames ps ∧ s.InOrder)
    (hs : call (ps.length + 1) s config = some t) : t.Carries maxSize frames ps ∧ t.InOrder := by
  obtain ⟨status, hcall⟩ := returns_of_call hs
  obtain ⟨size, hsize⟩ := size_of_returns hcall
  obtain ⟨status', t', hcall', hafter⟩ := readPackets_carries hsize hmax hback h.1 h.2
  rw [hcall] at hcall'
  cases hcall'
  exact hafter

/-- What has been parsed is everything once the bytes are used up. -/
theorem Carries.parsed_eq {m : UInt32} (h : s.Carries m.toNat frames ps)
    (hback : PacketFeed.ReadBack ps frames) (hu : s.peers.unread = []) : s.parsed = ps := by
  obtain ⟨f, hfollows, hsync, -⟩ := h
  have hdone : f = Feed.done m frames := Feed.synced_drained hsync (hfollows.unread.symm.trans hu)
  have hlen : ps.length = frames.length := hback.length_eq
  rw [show s.parsed = _ from hfollows.packets, hdone]
  simp [Feed.done, ← hlen]

/-- The packets that the queue has taken and those that wait in the socket are the first ones sent. -/
theorem Carries.in_order_prefix (h : s.Carries maxSize frames ps) (hs : s.InOrder) :
    s.accepted ++ s.rd.packets <+: ps := by
  rw [← show s.parsed = _ from hs]
  exact h.parsed_prefix

/-- Packets that can be sent and read back one by one reach the queue of the session in order, none
twice and none left out, whatever pieces their bytes come in (as long as the reads of each header stop
inside its frame and past the header) and whatever the queue takes. As long as no call of `read_packets` has
returned `Disconnected`, what the queue has taken and what waits in the socket are the first packets that
were sent, they are all of them once the bytes have been read, and the next call does not fail. -/
theorem packets_reach_queue {bs : List (List UInt8)} {m : UInt32}
    (hsent : List.Forall₂ (fun p b => encode p = .ok b ∧ decode b = .ok (p, b.length)) ps bs)
    (hmax : ∀ b ∈ bs, b.length ≤ m.toNat) :
    ∃ frames : List Frame, frames.map Frame.bytes = bs ∧
      ∀ (line : Line) (configs : List SourceConfig) (s : SourceSocket Line),
      line.unread = bs.flatten →
      Along Feed.step (Feed.HeaderCut frames) (Feed.start m frames) line.deliveries →
      run (call (ps.length + 1)) (onLine m line) configs = some s →
        s.accepted ++ s.rd.packets <+: ps ∧
        (s.peers.unread = [] → s.accepted ++ s.rd.packets = ps) ∧
        ∀ config size, config.mqttPktBatchSize = .ok size →
          ∃ status t, readPackets config (ps.length + 1) s = (.ok (some status), t) ∧
            t.accepted ++ t.rd.packets <+: ps := by
  obtain ⟨frames, rfl, hback⟩ := PacketFeed.exists_readBack hsent
  refine ⟨frames, rfl, fun line configs s hline hcut hrun => ?_⟩
  have hmax' : ∀ F ∈ frames, F.bytes.length ≤ m.toNat :=
    fun F hF => hmax F.bytes (List.mem_map_of_mem hF)
  have hstart : (onLine m line).Carries m.toNat frames ps := by
    refine ⟨Feed.start m frames, ⟨rfl, ?_, rfl, trivial⟩, Feed.start_synced m frames, hcut⟩
    exact hline.trans (List.flatMap_def ..).symm
  obtain ⟨hcarries, horder⟩ := run_invariant
    (P := fun s : SourceSocket Line => s.Carries m.toNat frames ps ∧ s.InOrder)
    (fun _ _ _ => call_carries hmax' hback) ⟨hstart, rfl⟩ hrun
  refine ⟨hcarries.in_order_prefix horder, fun hu => ?_, fun config size hsize => ?_⟩
  · rw [← show s.parsed = _ from horder]
    exact hcarries.parsed_eq hback hu
  · obtain ⟨status, t, hcall, hafter, hs⟩ := readPackets_carries hsize hmax' hback hcarries horder
    exact ⟨status, t, hcall, hafter.in_order_prefix hs⟩

/-- A PUBACK in two pieces, for a queue that refuses it once. -/
def pubAckLine : Line := ⟨[0x40, 4, 0, 7, 0, 0], [.chunk 4, .chunk 0], [.full, .ok], []⟩

theorem packets_reach_queue_pubAckLine :
    ∃ s, run (call 2) (onLine 16 pubAckLine) [{}, {}] = some s ∧
      s.accepted ++ s.rd.packets = [PacketFeed.pubAckPacket] := by
  have hone : encode PacketFeed.pubAckPacket = .ok [0x40, 4, 0, 7, 0, 0] ∧
      decode [0x40, 4, 0, 7, 0, 0] = .ok (PacketFeed.pubAckPacket, 6) := by decide
  obtain ⟨frames, hframes, hcalls⟩ :=
    packets_reach_queue (m := 16) (.cons hone .nil) (by decide)
  obtain rfl : frames = [PacketFeed.pubAckFrame] :=
    List.map_injective_iff.mpr Frame.bytes_injective hframes
  have hread : (run (call 2) (onLine 16 pubAckLine) [{}, {}]).map (fun s => s.peers.unread) =
      some [] := by
    decide +kernel
  obtain ⟨s, hrun, hempty⟩ := Option.map_eq_some_iff.mp hread
  obtain ⟨-, hall, -⟩ := hcalls pubAckLine [{}, {}] s rfl (by decide) hrun
  exact ⟨s, hrun, hall hempty⟩

end SourceSocket
end Mqtr
