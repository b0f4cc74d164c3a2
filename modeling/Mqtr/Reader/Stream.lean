import Mqtr.Reader.Reassembly
import Mqtr.Reader.Parse
import Mqtr.Wire.Framing

/-! Packets over a connection: encoded one after another, delivered in chunks, reassembled and parsed. -/
namespace Mqtr
open Outcome Transition

namespace Frame

/-- The fixed header that the reader makes of the frame. -/
def fixedHeader (F : Frame) : FixedHeader := ⟨F.byte1, ⟨.ofNat F.body.length⟩⟩

theorem isFrame (F : Frame) : IsFrame F.bytes F.fixedHeader := by
  refine ⟨F.field ++ F.body, F.field.length, rfl, F.decode_field F.body, ?_⟩
  rw [F.length_bytes]
  exact congrArg _ F.toNat_body_length.symm

/-- The length field says where it ends, so that a frame can be told from its bytes. -/
theorem bytes_injective : Function.Injective Frame.bytes := by
  rintro ⟨b, field, body, hends, _, _, _⟩ ⟨b', field', body', hends', _, _, _⟩ h
  simp only [bytes, header, List.cons_append, List.cons.injEq] at h
  obtain ⟨rfl, h⟩ := h
  have hwidth := Varint.width_append hends body
  rw [h, Varint.width_append hends' body'] at hwidth
  obtain ⟨rfl, rfl⟩ := List.append_inj h (Option.some.inj hwidth).symm
  rfl

end Frame

/-- A length field that the encoder writes is as short as possible. -/
theorem VarU32.encode_minimal {v : VarU32} {b : List UInt8} (h : encode v = .ok b) :
    b.length = 1 ∨ b.getLast? ≠ some 0 := by
  obtain ⟨hwidth, hvalue, -, hleast⟩ := VarU32.encode_eq_ok h
  rcases Nat.lt_or_ge 1 b.length with hlong | hone
  · right
    intro hlast
    obtain ⟨front, rfl⟩ := List.getLast?_eq_some_iff.mp hlast
    have hlt := Varint.value_lt front
    rw [Varint.value_append] at hvalue
    have hge := hleast hlong
    simp [Varint.value] at hvalue hge
    omega
  · left
    have hpos := (Varint.width_bounds hwidth).1
    omega

/-- What the encoder writes is a well-formed frame. -/
theorem IsFramed.exists_frame {b : List UInt8} (h : IsFramed b) : ∃ F : Frame, F.bytes = b := by
  obtain ⟨fh, head, data, hhead, rfl, hlen⟩ := h
  obtain ⟨-, field, hfield, rfl⟩ := FixedHeader.encode_eq_ok.mp hhead
  obtain ⟨hwidth, hvalue, hshort, -⟩ := VarU32.encode_eq_ok hfield
  exact ⟨⟨fh.byte1, field, data, hwidth, hshort, VarU32.encode_minimal hfield,
    hvalue.trans hlen⟩, rfl⟩

namespace MQTTRead

/-- A complete frame is parsed to the packet that it decodes to. -/
theorem parse_frame {F : Frame} {p : Packet} (h : decode F.bytes = .ok (p, F.bytes.length))
    (maxSize : ℕ) : parse (.fin F.bytes F.fixedHeader maxSize) = .ok p := by
  obtain ⟨k, hheader, hlen⟩ := F.isFrame.decode_header
  have hvalid := F.fixedHeader.validate_sat
  cases hv : F.fixedHeader.validate with
  | panic => exact absurd hv hvalid.ne_panic
  | err e =>
    rw [hv, err_bind] at hheader
    have herr : (decode F.bytes : Result (Packet × ℕ)) = .err e := by
      change ((decode F.bytes : Result (FixedHeader × ℕ)) >>= _) = _
      rw [hheader, err_bind]
    rw [herr] at h
    cases h
  | ok u =>
    rw [hv, ok_bind] at hheader
    obtain ⟨t, flags, hu⟩ := FixedHeader.unwrap_of_unwraps (hvalid.of_ok hv)
    rcases agrees_of_valid hu hheader hlen maxSize with ⟨p', hparse, hdec⟩ | ⟨-, hnone⟩
    · rw [hdec] at h
      cases h
      exact hparse
    · exact absurd h (hnone p)

end MQTTRead

/-- A reader that is fed from a connection, with the packets it has parsed. -/
structure PacketFeed where
  reader : MQTTRead
  unread : List UInt8
  packets : List Packet
  deriving DecidableEq

namespace PacketFeed

/-- After a call: parse the packet and `reset` when it is complete, as `Socket::read_packet` does. -/
def settle (packets : List Packet) (unread : List UInt8) (reader : MQTTRead) : Option PacketFeed :=
  match reader with
  | .fin .. =>
    match reader.parse, reader.reset with
    | .ok pkt, .ok reader => some ⟨reader, unread, packets ++ [pkt]⟩
    | _, _ => none
  | _ => some ⟨reader, unread, packets⟩

/-- One call of `read`, on a connection that behaves as told. -/
def step (d : PacketFeed) (ev : Delivery) : Option PacketFeed :=
  match d.reader.read (Connection.mk d.unread ev) with
  | .ok ((reader, _), conn) => settle d.packets conn.unread reader
  | _ => none

def start (maxSize : UInt32) (unread : List UInt8) : PacketFeed := ⟨.new maxSize, unread, []⟩

end PacketFeed

namespace Feed
variable {maxSize : ℕ} {frames : List Frame} {d d' : Feed} {ev : Delivery}

/-- A reader past the header of the next frame has read that header. -/
def Headed (frames : List Frame) (d : Feed) : MQTTRead → Prop
  | .remain _ _ fh _ | .fin _ fh _ => ∃ F, frames[d.out.length]? = some F ∧ fh = F.fixedHeader
  | .none | .init _ _ | .header _ _ _ => True

/-- What a connection hands over is the beginning of what it has. -/
theorem read_eq_ok {unread bytes : List UInt8} {len : ℕ}
    (h : (IoRead.read (Connection.mk unread ev) len).1 = .ok bytes) : ∃ n, bytes = unread.take n := by
  cases ev with
  | wouldBlock => cases h
  | chunk extra =>
    simp only [IoRead.read] at h
    split_ifs at h with hlen hnil
    · cases h
      exact ⟨0, rfl⟩
    · cases h
      exact ⟨_, rfl⟩

/-- A list that begins a frame and what follows it, and is no shorter than the header, begins with the
header. -/
theorem take_eq_append {xs ys : List UInt8} {n : ℕ} (h : xs.length ≤ ((xs ++ ys).take n).length) :
    (xs ++ ys).take n = xs ++ ys.take (n - xs.length) := by
  have hn : xs.length ≤ n := by
    rw [List.length_take] at h
    omega
  rw [List.take_append, List.take_of_length_le hn]

section Headed
variable {unread : List UInt8} {out : List (List UInt8)} {reader : MQTTRead} {block : Bool} {m : ℕ}

theorem headed_init (hmax : ∀ F ∈ frames, F.bytes.length ≤ maxSize)
    (h : Synced maxSize frames ⟨.init [] m, unread, out⟩)
    (hcut : HeaderCut frames ⟨.init [] m, unread, out⟩ ev)
    (hread : MQTTRead.readInit [] m (IoRead.read (Connection.mk unread ev) 5).1 =
      .ok (reader, block)) : Headed frames ⟨.init [] m, unread, out⟩ reader := by
  obtain ⟨before, rest, rfl, ho, -, rfl, hu⟩ := h
  cases hres : (IoRead.read (Connection.mk unread ev) 5).1 with
  | wouldBlock =>
    rw [hres] at hread
    cases hread
    trivial
  | failed =>
    rw [hres] at hread
    cases hread
  | ok bytes =>
    rw [hres] at hread
    obtain ⟨n, hn⟩ := read_eq_ok hres
    rcases bytes with _ | ⟨b, _ | ⟨c, bytes⟩⟩
    · cases hread
    · cases hread
      trivial
    · cases rest with
      | nil =>
        simp only [List.flatMap_nil] at hu
        rw [hu, List.take_nil] at hn
        cases hn
      | cons F tl =>
        have hnext : (before ++ F :: tl)[out.length]? = some F := next_frame rfl ho
        have hc := ((headerCut_init hnext hres).mp hcut (by simp)).1
        have hsplit : unread = F.header ++ (F.body ++ tl.flatMap Frame.bytes) := by
          change unread = _ at hu
          rw [hu, List.flatMap_cons, Frame.bytes, List.append_assoc]
        rw [hn, hsplit] at hc
        rw [hn, hsplit, take_eq_append hc,
          MQTTRead.readInit_frame F _ (hmax F (by simp))] at hread
        cases hread
        exact ⟨F, hnext, rfl⟩

theorem headed_header {b : UInt8} {data : List UInt8}
    (hmax : ∀ F ∈ frames, F.bytes.length ≤ maxSize)
    (h : Synced maxSize frames ⟨.header b data m, unread, out⟩)
    (hcut : HeaderCut frames ⟨.header b data m, unread, out⟩ ev)
    (hread : MQTTRead.readHeader b data m (IoRead.read (Connection.mk unread ev) 5).1 =
      .ok (reader, block)) : Headed frames ⟨.header b data m, unread, out⟩ reader := by
  obtain ⟨before, rest, rfl, ho, F, tl, rfl, rfl, rfl, rfl, hu⟩ := h
  obtain rfl : unread = _ := hu
  have hnext : (before ++ F :: tl)[out.length]? = some F := next_frame rfl ho
  cases hres : (IoRead.read (Connection.mk _ ev) 5).1 with
  | wouldBlock =>
    rw [hres] at hread
    cases hread
    trivial
  | failed =>
    rw [hres] at hread
    cases hread
  | ok bytes =>
    rw [hres] at hread
    obtain ⟨n, hn⟩ := read_eq_ok hres
    have hc := ((headerCut_header hnext hres).mp hcut).1
    have hfield : F.field.length ≤ ((F.field ++ (F.body ++ tl.flatMap Frame.bytes)).take n).length := by
      rw [F.length_header, hn, List.length_singleton] at hc
      omega
    rw [hn, take_eq_append hfield, MQTTRead.readHeader_frame F _ (hmax F (by simp))] at hread
    cases hread
    exact ⟨F, hnext, rfl⟩

end Headed

/-- A call leaves the reader with the right header, if it cuts the header in the right place. -/
theorem headed_read {reader : MQTTRead} {block : Bool} {conn : Connection}
    (hmax : ∀ F ∈ frames, F.bytes.length ≤ maxSize) (h : Synced maxSize frames d)
    (hhead : Headed frames d d.reader) (hcut : HeaderCut frames d ev)
    (hread : d.reader.read (Connection.mk d.unread ev) = .ok ((reader, block), conn)) :
    Headed frames d reader := by
  obtain ⟨pr, unread, out⟩ := d
  cases pr with
  | none => cases hread
  | init data m =>
    obtain ⟨⟨reader', block'⟩, hout, hok⟩ := bind_eq_ok.mp hread
    cases hok
    obtain rfl : data = [] := by
      obtain ⟨before, rest, -, -, hdata, -⟩ := h
      exact hdata
    exact headed_init hmax h hcut hout
  | header b data m =>
    obtain ⟨⟨reader', block'⟩, hout, hok⟩ := bind_eq_ok.mp hread
    cases hok
    exact headed_header hmax h hcut hout
  | remain data start fh m =>
    obtain ⟨window, -, hread⟩ := bind_eq_ok.mp hread
    obtain ⟨⟨reader', block'⟩, hout, hok⟩ := bind_eq_ok.mp hread
    cases hok
    obtain ⟨data', start', rfl, -⟩ | ⟨data', rfl, -⟩ := MQTTRead.readRemain_length hout
    · exact hhead
    · exact hhead
  | fin data fh m =>
    cases hread
    exact hhead

end Feed

namespace PacketFeed
variable {maxSize : ℕ} {frames : List Frame} {ps : List Packet} {f f' : Feed} {d : PacketFeed}
  {ev : Delivery}

/-- The same reader, with the packets of the frames that it has handed out. -/
structure Follows (frames : List Frame) (ps : List Packet) (f : Feed) (d : PacketFeed) : Prop where
  reader : d.reader = f.reader
  unread : d.unread = f.unread
  packets : d.packets = ps.take f.out.length
  headed : Feed.Headed frames f f.reader

/-- Each frame is read back as its packet. -/
def ReadBack (ps : List Packet) (frames : List Frame) : Prop :=
  List.Forall₂ (fun p F => decode F.bytes = .ok (p, F.bytes.length)) ps frames

theorem ReadBack.at (h : ReadBack ps frames) {i : ℕ} {F : Frame} (hF : frames[i]? = some F) :
    ∃ p, ps[i]? = some p ∧ decode F.bytes = .ok (p, F.bytes.length) := by
  induction h generalizing i with
  | nil => simp at hF
  | @cons p G ps frames hp _ ih =>
    cases i with
    | zero =>
      cases hF
      exact ⟨p, rfl, hp⟩
    | succ i => exact ih hF

/-- Packets that can be sent and read back are those of frames. -/
theorem exists_readBack {bs : List (List UInt8)}
    (h : List.Forall₂ (fun p b => encode p = .ok b ∧ decode b = .ok (p, b.length)) ps bs) :
    ∃ frames : List Frame, frames.map Frame.bytes = bs ∧ ReadBack ps frames := by
  induction h with
  | nil => exact ⟨[], rfl, .nil⟩
  | cons hp _ ih =>
    obtain ⟨F, rfl⟩ := (Packet.isFramed hp.1).exists_frame
    obtain ⟨frames, rfl, hback⟩ := ih
    exact ⟨F :: frames, rfl, .cons hp.2 hback⟩

theorem follows_step (hmax : ∀ F ∈ frames, F.bytes.length ≤ maxSize) (hback : ReadBack ps frames)
    (h : Follows frames ps f d) (hsync : f.Synced maxSize frames) (hcut : f.HeaderCut frames ev)
    (hs : f.step ev = some f') (hsync' : f'.Synced maxSize frames) :
    ∃ d', d.step ev = some d' ∧ Follows frames ps f' d' := by
  obtain ⟨reader, block, conn, hread, hsettle⟩ := Feed.step_eq_some hs
  have hheaded := Feed.headed_read hmax hsync h.headed hcut hread
  have hstep : d.step ev = settle d.packets conn.unread reader := by
    rw [step, h.reader, h.unread, hread]
  rw [hstep]
  cases reader with
  | fin data fh m =>
    cases hsettle
    obtain ⟨F, hF, rfl⟩ := hheaded
    -- what was handed out is the next frame
    obtain ⟨before, rest, rfl, ho, -⟩ := hsync'
    obtain rfl : data = F.bytes := by
      have hlast : (before.map Frame.bytes)[f.out.length]? = some data := by
        rw [← ho]
        simp
      rw [List.getElem?_map] at hlast
      obtain ⟨G, hG, rfl⟩ := Option.map_eq_some_iff.mp hlast
      obtain ⟨hlt, -⟩ := List.getElem?_eq_some_iff.mp hG
      rw [List.getElem?_append_left hlt, hG] at hF
      cases hF
      rfl
    obtain ⟨p, hp, hdec⟩ := hback.at hF
    refine ⟨⟨.init [] m, conn.unread, d.packets ++ [p]⟩, ?_, rfl, rfl, ?_, trivial⟩
    · simp only [settle, MQTTRead.parse_frame hdec]
      rfl
    · rw [h.packets, List.length_append, List.length_singleton, List.take_add_one, hp]
      rfl
  | remain data start fh m =>
    cases hsettle
    exact ⟨_, rfl, rfl, rfl, h.packets, hheaded⟩
  | _ =>
    cases hsettle
    exact ⟨_, rfl, rfl, rfl, h.packets, trivial⟩

/-- With every header cut in the right place, the parsing reader goes along with the plain one. -/
theorem run_follows (hmax : ∀ F ∈ frames, F.bytes.length ≤ maxSize) (hback : ReadBack ps frames)
    {events : List Delivery} (h : Follows frames ps f d) (hsync : f.Synced maxSize frames)
    (hcut : Along Feed.step (Feed.HeaderCut frames) f events) :
    ∃ f' d', run Feed.step f events = some f' ∧ run step d events = some d' ∧
      Follows frames ps f' d' := by
  induction events generalizing f d with
  | nil => exact ⟨f, d, rfl, rfl, h⟩
  | cons ev events ih =>
    rcases Feed.synced_call hmax hsync ev with ⟨hc, f₁, hstep, hsync₁, -⟩ | ⟨hno, -⟩
    · obtain ⟨d₁, hd₁, h₁⟩ := follows_step hmax hback h hsync hc hstep hsync₁
      have hrest := hcut.2
      rw [hstep] at hrest
      obtain ⟨f', d', hf', hd', h'⟩ := ih h₁ hsync₁ hrest
      exact ⟨f', d', run_cons.mpr ⟨f₁, hstep, hf'⟩, run_cons.mpr ⟨d₁, hd₁, hd'⟩, h'⟩
    · exact absurd hcut.1 hno

/-- Packets that can be sent and read back one by one come through together, however their bytes are
delivered, as long as the reads of each header stop inside its frame and past the header: at any time the
packets that have been parsed are the first ones that were sent, and after enough chunks they are all of
them. -/
theorem packets_come_through {ps : List Packet} {bs : List (List UInt8)} {m : UInt32}
    (hsent : List.Forall₂ (fun p b => encode p = .ok b ∧ decode b = .ok (p, b.length)) ps bs)
    (hmax : ∀ b ∈ bs, b.length ≤ m.toNat) :
    ∃ frames : List Frame, frames.map Frame.bytes = bs ∧ ∀ events : List Delivery,
      Along Feed.step (Feed.HeaderCut frames) (Feed.start m frames) events →
      ∃ d, run step (start m bs.flatten) events = some d ∧ d.packets <+: ps ∧
        (bs.flatten.length ≤ events.countP Feed.isChunk → d = ⟨.new m, [], ps⟩) := by
  obtain ⟨frames, rfl, hback⟩ := exists_readBack hsent
  refine ⟨frames, rfl, fun events hcut => ?_⟩
  have hmax' : ∀ F ∈ frames, F.bytes.length ≤ m.toNat :=
    fun F hF => hmax F.bytes (List.mem_map_of_mem hF)
  have hstart : Follows frames ps (Feed.start m frames)
      (start m (frames.map Frame.bytes).flatten) :=
    ⟨rfl, (List.flatMap_def ..).symm, rfl, trivial⟩
  obtain ⟨f, d, hf, hd, h⟩ :=
    run_follows hmax' hback hstart (Feed.start_synced m frames) hcut
  refine ⟨d, hd, ?_, fun hlen => ?_⟩
  · rw [h.packets]
    exact List.take_prefix _ _
  · have hdone := Feed.run_of_along hmax' (Feed.start_synced m frames)
      (by simpa [Feed.start, List.flatMap_def] using hlen) hcut
    rw [hf] at hdone
    cases hdone
    obtain ⟨reader, unread, packets⟩ := d
    obtain rfl : reader = _ := h.reader
    obtain rfl : unread = _ := h.unread
    obtain rfl : packets = _ := h.packets
    have hlength : ps.length = frames.length := hback.length_eq
    simp [Feed.done, ← hlength]

def pubAckPacket : Packet := .pubAck ⟨.pubAck, 7, .success, none⟩

def pubAckFrame : Frame := ⟨0x40, [0x04], [0, 7, 0, 0], rfl, by decide, .inl rfl, rfl⟩

/-- Two PUBACK packets, of which the first comes byte by byte. -/
def pubAckChunks : List Delivery :=
  [.chunk 0, .chunk 0, .wouldBlock, .chunk 0, .chunk 0, .chunk 0, .chunk 0, .chunk 2, .chunk 1,
    .chunk 9, .chunk 0, .chunk 0, .chunk 0, .chunk 0, .chunk 0]

theorem packets_come_through_pubAck :
    run step (start 16 [0x40, 4, 0, 7, 0, 0, 0x40, 4, 0, 7, 0, 0]) pubAckChunks =
      some ⟨.new 16, [], [pubAckPacket, pubAckPacket]⟩ := by
  have hone : encode pubAckPacket = .ok [0x40, 4, 0, 7, 0, 0] ∧
      decode [0x40, 4, 0, 7, 0, 0] = .ok (pubAckPacket, 6) := by decide
  have hsent : List.Forall₂ (fun p b => encode p = .ok b ∧ decode b = .ok (p, b.length))
      [pubAckPacket, pubAckPacket] [[0x40, 4, 0, 7, 0, 0], [0x40, 4, 0, 7, 0, 0]] :=
    .cons hone (.cons hone .nil)
  obtain ⟨frames, hframes, hrun⟩ := packets_come_through (m := 16) hsent (by decide)
  obtain rfl : frames = [pubAckFrame, pubAckFrame] :=
    List.map_injective_iff.mpr Frame.bytes_injective hframes
  obtain ⟨d, hd, -, hall⟩ := hrun pubAckChunks (by decide)
  rw [← hall (by decide)]
  exact hd

end PacketFeed
end Mqtr
