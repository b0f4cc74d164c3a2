import Mqtr.Reader.Frame

/-! Frames delivered in chunks. A frame comes through exactly if the reads of its header end between
the end of the header and the last byte of the frame. -/
namespace Mqtr
open Outcome

/-- What the connection does on one call: nothing yet, or up to `extra + 1` bytes. -/
inductive Delivery where
  | wouldBlock
  | chunk (extra : ℕ)
  deriving DecidableEq, Repr

/-- A connection with the bytes still to be delivered and its behaviour on the next call. A request
for no bytes is answered with none. -/
structure Connection where
  unread : List UInt8
  delivery : Delivery
  deriving DecidableEq, Repr

instance : IoRead Connection where
  read conn len :=
    match conn.delivery with
    | .wouldBlock => (.wouldBlock, conn)
    | .chunk extra =>
      if len = 0 then (.ok [], conn)
      else if conn.unread = [] then (.wouldBlock, conn)
      else
        let n := min (extra + 1) len
        (.ok (conn.unread.take n), { conn with unread := conn.unread.drop n })

/-- A reader that is fed from a connection, with the packets it has completed. -/
structure Feed where
  reader : MQTTRead
  unread : List UInt8
  out : List (List UInt8)
  deriving DecidableEq, Repr

namespace Feed

/-- After a call: take the packet and `reset` when it is complete. -/
def settle (out : List (List UInt8)) (unread : List UInt8) (reader : MQTTRead) : Option Feed :=
  match reader with
  | .fin data _ _ =>
    match reader.reset with
    | .ok reader => some ⟨reader, unread, out ++ [data]⟩
    | _ => none
  | _ => some ⟨reader, unread, out⟩

/-- One call of `read`, on a connection that behaves as told. -/
def step (d : Feed) (ev : Delivery) : Option Feed :=
  match d.reader.read (Connection.mk d.unread ev) with
  | .ok ((reader, _), conn) => settle d.out conn.unread reader
  | _ => none

def start (maxSize : UInt32) (frames : List Frame) : Feed :=
  ⟨.new maxSize, frames.flatMap Frame.bytes, []⟩

/-- Everything delivered, every frame handed out, the reader ready for more. -/
def done (maxSize : UInt32) (frames : List Frame) : Feed :=
  ⟨.new maxSize, [], frames.map Frame.bytes⟩

/-- The header reads of the frame that comes next stop inside that frame, past its header. -/
def HeaderCut (frames : List Frame) (d : Feed) (ev : Delivery) : Prop :=
  match frames[d.out.length]?, d.reader, (IoRead.read (Connection.mk d.unread ev) 5).1 with
  | some F, .init _ _, .ok bytes => 2 ≤ bytes.length → F.CutAt bytes.length
  | some F, .header _ data _, .ok bytes => F.CutAt (data.length + bytes.length)
  | _, _, _ => True

instance (frames : List Frame) (d : Feed) (ev : Delivery) : Decidable (HeaderCut frames d ev) := by
  unfold HeaderCut
  split <;> infer_instance

def isChunk : Delivery → Bool
  | .wouldBlock => false
  | .chunk _ => true

section Equations
variable {unread : List UInt8} {ev : Delivery} {res : ReadResult} {conn : Connection}
  {reader : MQTTRead} {block : Bool} {m : ℕ} {data : List UInt8} (out : List (List UInt8))

theorem step_init (hread : IoRead.read (Connection.mk unread ev) 5 = (res, conn))
    (hr : MQTTRead.readInit data m res = .ok (reader, block)) :
    step ⟨.init data m, unread, out⟩ ev = settle out conn.unread reader := by
  simp only [step, MQTTRead.read_init, hread, hr, ok_bind]

theorem step_header {b : UInt8}
    (hread : IoRead.read (Connection.mk unread ev) 5 = (res, conn))
    (hr : MQTTRead.readHeader b data m res = .ok (reader, block)) :
    step ⟨.header b data m, unread, out⟩ ev = settle out conn.unread reader := by
  simp only [step, MQTTRead.read_header, hread, hr, ok_bind]

theorem step_remain {start : ℕ} {fh : FixedHeader} (hs : start ≤ data.length)
    (hread : IoRead.read (Connection.mk unread ev) (data.length - start) = (res, conn))
    (hr : MQTTRead.readRemain data start fh m res = .ok (reader, block)) :
    step ⟨.remain data start fh m, unread, out⟩ ev = settle out conn.unread reader := by
  simp only [step, MQTTRead.read_remain hs, hread, hr, ok_bind]

end Equations

theorem step_eq_some {d d' : Feed} {ev : Delivery} (h : step d ev = some d') :
    ∃ reader block conn, d.reader.read (Connection.mk d.unread ev) = .ok ((reader, block), conn) ∧
      settle d.out conn.unread reader = some d' := by
  unfold step at h
  split at h
  · rename_i reader block conn hread
    exact ⟨reader, block, conn, hread, h⟩
  · simp at h

/-- The answer of a connection that has bytes, to a request for some. -/
theorem read_chunk {unread : List UInt8} (hne : unread ≠ []) (extra : ℕ) {len : ℕ}
    (hlen : 0 < len) :
    IoRead.read (Connection.mk unread (.chunk extra)) len =
      (.ok (unread.take (min (extra + 1) len)),
        ⟨unread.drop (min (extra + 1) len), .chunk extra⟩) := by
  simp [IoRead.read, hne, hlen.ne']

theorem read_drained (extra : ℕ) {len : ℕ} (hlen : 0 < len) :
    IoRead.read (Connection.mk [] (.chunk extra)) len = (.wouldBlock, ⟨[], .chunk extra⟩) := by
  simp [IoRead.read, hlen.ne']

/-- Where a reader stands that has the frames of `rest` still to hand out. -/
def At (maxSize : ℕ) (rest : List Frame) (unread : List UInt8) : MQTTRead → Prop
  | .none => False
  | .init data m => data = [] ∧ m = maxSize ∧ unread = rest.flatMap Frame.bytes
  | .header b data m => ∃ F tl, rest = F :: tl ∧ b = F.byte1 ∧ data = [b] ∧ m = maxSize ∧
      unread = F.field ++ (F.body ++ tl.flatMap Frame.bytes)
  | .remain data start _ m => ∃ F tl, rest = F :: tl ∧ data.length = F.bytes.length ∧
      start < F.bytes.length ∧ data.take start = F.bytes.take start ∧ m = maxSize ∧
      unread = F.bytes.drop start ++ tl.flatMap Frame.bytes
  | .fin _ _ _ => False

/-- The frames so far have been handed out, and the reader stands at the next one. -/
def Synced (maxSize : ℕ) (frames : List Frame) (d : Feed) : Prop :=
  ∃ before rest, frames = before ++ rest ∧ d.out = before.map Frame.bytes ∧
    At maxSize rest d.unread d.reader

/-- The reader can no longer hand out the right frames: it is past the end of its buffer, or fills a
buffer of the wrong length, or has already handed out something else. -/
def Doomed (frames : List Frame) (d : Feed) : Prop :=
  (∃ data start fh m, d.reader = .remain data start fh m ∧
    (data.length ≤ start ∨ ∀ F, frames[d.out.length]? = some F → data.length ≠ F.bytes.length)) ∨
  ¬ d.out <+: frames.map Frame.bytes

/-- Where the reads of a header have taken the frame's header and `t` more bytes, the reader is in
step if that is less than the frame, and doomed otherwise. -/
theorem at_remain {F : Frame} {tl : List Frame} {t : ℕ} {fh : FixedHeader} {maxSize : ℕ}
    (hcut : (F.header ++ (F.body ++ tl.flatMap Frame.bytes).take t).length < F.bytes.length) :
    At maxSize (F :: tl) ((F.body ++ tl.flatMap Frame.bytes).drop t)
      (.remain (resize (F.header ++ (F.body ++ tl.flatMap Frame.bytes).take t) F.bytes.length)
        (F.header ++ (F.body ++ tl.flatMap Frame.bytes).take t).length fh maxSize) := by
  have ht : t < F.body.length := by
    simp only [List.length_append, List.length_take, Frame.bytes] at hcut
    omega
  have htake : (F.body ++ tl.flatMap Frame.bytes).take t = F.body.take t :=
    List.take_append_of_le_length ht.le
  have hlen : (F.header ++ F.body.take t).length = F.header.length + t := by
    simp [List.length_take_of_le ht.le]
  rw [htake] at hcut ⊢
  refine ⟨F, tl, rfl, MQTTRead.length_resize _ _, hcut, ?_, rfl, ?_⟩
  · rw [resize, List.take_of_length_le hcut.le, List.take_left', hlen, Frame.bytes, List.take_append]
    · simp
    · rfl
  · rw [hlen, Frame.bytes, List.drop_append_of_le_length ht.le, List.drop_append]
    simp

/-- A call that keeps the reader in step; a chunk makes the rest of the stream shorter. -/
def Advances (maxSize : ℕ) (frames : List Frame) (d : Feed) (ev : Delivery) : Prop :=
  HeaderCut frames d ev ∧ ∃ d', step d ev = some d' ∧ Synced maxSize frames d' ∧
    d'.unread.length ≤ d.unread.length - if isChunk ev then 1 else 0

/-- A call that cuts a header in the wrong place, and after which nothing can be right. -/
def Derails (frames : List Frame) (d : Feed) (ev : Delivery) : Prop :=
  ¬ HeaderCut frames d ev ∧ ∀ d', step d ev = some d' → Doomed frames d'

theorem next_frame {frames before rest : List Frame} {out : List (List UInt8)}
    (hf : frames = before ++ rest) (ho : out = before.map Frame.bytes) :
    frames[out.length]? = rest.head? := by
  rw [hf, ho, List.length_map, List.getElem?_append_right le_rfl, Nat.sub_self,
    List.head?_eq_getElem?]

section Calls
open MQTTRead (read_init read_header read_remain readInit_frame readInit_cut readHeader_frame
  readHeader_cut)
variable {maxSize : ℕ} {before tl : List Frame} {F : Frame} {unread : List UInt8}

/-- Both ways of reading the header end here: `t` bytes past the header have been taken. -/
theorem call_past_header {d : Feed} {extra t : ℕ} {fh : FixedHeader} {out : List (List UInt8)}
    (ho : out = before.map Frame.bytes)
    (hstep : step d (.chunk extra) = settle out ((F.body ++ tl.flatMap Frame.bytes).drop t)
      (.remain (resize (F.header ++ (F.body ++ tl.flatMap Frame.bytes).take t) F.bytes.length)
        (F.header ++ (F.body ++ tl.flatMap Frame.bytes).take t).length fh maxSize))
    (hcut : HeaderCut (before ++ F :: tl) d (.chunk extra) ↔
      F.CutAt (F.header ++ (F.body ++ tl.flatMap Frame.bytes).take t).length)
    (hlen : (F.body ++ tl.flatMap Frame.bytes).length - t < d.unread.length) :
    Advances maxSize (before ++ F :: tl) d (.chunk extra) ∨
      Derails (before ++ F :: tl) d (.chunk extra) := by
  by_cases hc : F.CutAt (F.header ++ (F.body ++ tl.flatMap Frame.bytes).take t).length
  · refine .inl ⟨hcut.mpr hc, _, hstep, ⟨before, F :: tl, rfl, ho, at_remain hc.2⟩, ?_⟩
    simp only [isChunk, if_true, List.length_drop]
    omega
  · refine .inr ⟨fun h => hc (hcut.mp h), fun d' hd' => .inl ?_⟩
    obtain rfl := Option.some.inj (hstep.symm.trans hd')
    refine ⟨_, _, _, _, rfl, .inl ?_⟩
    rw [MQTTRead.length_resize]
    by_contra hlt
    exact hc ⟨by simp, not_le.mp hlt⟩

theorem headerCut_init {frames : List Frame} {data bytes : List UInt8} {out : List (List UInt8)}
    {ev : Delivery} (hnext : frames[out.length]? = some F)
    (hans : (IoRead.read (Connection.mk unread ev) 5).1 = .ok bytes) :
    HeaderCut frames ⟨.init data maxSize, unread, out⟩ ev ↔
      (2 ≤ bytes.length → F.CutAt bytes.length) := by
  simp only [HeaderCut, hnext, hans]

theorem headerCut_header {frames : List Frame} {b : UInt8} {data bytes : List UInt8}
    {out : List (List UInt8)} {ev : Delivery} (hnext : frames[out.length]? = some F)
    (hans : (IoRead.read (Connection.mk unread ev) 5).1 = .ok bytes) :
    HeaderCut frames ⟨.header b data maxSize, unread, out⟩ ev ↔
      F.CutAt (data.length + bytes.length) := by
  simp only [HeaderCut, hnext, hans]

/-- A first read: one byte, a header cut short, or the whole header and more. -/
theorem call_init {out : List (List UInt8)} (hmax : F.bytes.length ≤ maxSize)
    (ho : out = before.map Frame.bytes) (extra : ℕ) :
    let d : Feed := ⟨.init [] maxSize, F.header ++ (F.body ++ tl.flatMap Frame.bytes), out⟩
    Advances maxSize (before ++ F :: tl) d (.chunk extra) ∨
      Derails (before ++ F :: tl) d (.chunk extra) := by
  intro d
  have hne : d.unread ≠ [] := by simp [d, Frame.header]
  have hread := read_chunk hne extra (by decide : 0 < 5)
  have hans := congrArg Prod.fst hread
  have hnext : (before ++ F :: tl)[out.length]? = some F := next_frame rfl ho
  generalize hn : min (extra + 1) 5 = n at hread hans
  have hn0 : 0 < n := by omega
  rcases Nat.lt_or_ge n F.header.length with hlt | hge
  · obtain ⟨j, rfl⟩ : ∃ j, n = j + 1 := ⟨n - 1, by omega⟩
    have hj : j < F.field.length := by
      rw [F.length_header] at hlt
      omega
    have htake : d.unread.take (j + 1) = F.byte1 :: F.field.take j := by
      rw [List.take_append_of_le_length hlt.le, Frame.header, List.take_succ_cons]
    rw [htake] at hread hans
    rcases Nat.eq_zero_or_pos j with rfl | hj0
    · left
      refine ⟨(headerCut_init hnext hans).mpr (by simp),
        ⟨.header F.byte1 [F.byte1] maxSize, d.unread.drop 1, out⟩, ?_, ?_, ?_⟩
      · exact step_init out hread rfl
      · exact ⟨before, F :: tl, rfl, ho, F, tl, rfl, rfl, rfl, rfl, rfl⟩
      · simp [isChunk]
    · right
      have hlen : (F.byte1 :: F.field.take j).length = j + 1 := by
        simp [List.length_take_of_le hj.le]
      refine ⟨fun hc => ?_, fun d' hd' => ?_⟩
      · have hcut := (headerCut_init hnext hans).mp hc (by omega)
        exact absurd hcut.1 (by omega)
      · obtain ⟨reader, block, conn, hr, hsettle⟩ := step_eq_some hd'
        rw [read_init, hread] at hr
        obtain ⟨out', hout, hok⟩ := bind_eq_ok.mp hr
        obtain ⟨rfl, -⟩ := Prod.mk.inj (Outcome.ok.inj hok)
        obtain ⟨data, start, fh, rfl, hshort⟩ := readInit_cut F hj0 hj hout
        obtain rfl := Option.some.inj hsettle
        refine .inl ⟨data, start, fh, _, rfl, .inr fun G hG => ?_⟩
        obtain rfl : F = G := Option.some.inj (hnext.symm.trans hG)
        exact hshort.ne
  · have htake : d.unread.take n =
        F.header ++ (F.body ++ tl.flatMap Frame.bytes).take (n - F.header.length) := by
      rw [List.take_append, List.take_of_length_le hge]
    have hdrop : d.unread.drop n =
        (F.body ++ tl.flatMap Frame.bytes).drop (n - F.header.length) := by
      rw [List.drop_append, List.drop_eq_nil_of_le hge, List.nil_append]
    rw [htake] at hread hans
    have hstep := step_init out hread (readInit_frame F _ hmax)
    rw [hdrop] at hstep
    have hpos := F.field_pos
    have hfive := F.length_header
    refine call_past_header ho hstep ((headerCut_init hnext hans).trans ?_) ?_
    · simp only [List.length_append]
      exact ⟨fun h => h (by omega), fun h _ => h⟩
    · simp only [d, List.length_append]
      omega

/-- A later header read: a length field cut short, or the whole field and more. -/
theorem call_header {out : List (List UInt8)} (hmax : F.bytes.length ≤ maxSize)
    (ho : out = before.map Frame.bytes) (extra : ℕ) :
    let d : Feed := ⟨.header F.byte1 [F.byte1] maxSize,
      F.field ++ (F.body ++ tl.flatMap Frame.bytes), out⟩
    Advances maxSize (before ++ F :: tl) d (.chunk extra) ∨
      Derails (before ++ F :: tl) d (.chunk extra) := by
  intro d
  have hpos := F.field_pos
  have hne : d.unread ≠ [] := by
    rw [← List.length_pos_iff]
    simp only [d, List.length_append]
    omega
  have hread := read_chunk hne extra (by decide : 0 < 5)
  have hans := congrArg Prod.fst hread
  have hnext : (before ++ F :: tl)[out.length]? = some F := next_frame rfl ho
  generalize hn : min (extra + 1) 5 = n at hread hans
  have hn0 : 0 < n := by omega
  rcases Nat.lt_or_ge n F.field.length with hlt | hge
  · have htake : d.unread.take n = F.field.take n := List.take_append_of_le_length hlt.le
    rw [htake] at hread hans
    refine .inr ⟨fun hc => ?_, fun d' hd' => ?_⟩
    · have hcut := ((headerCut_header hnext hans).mp hc).1
      simp only [F.length_header, List.length_take_of_le hlt.le, List.length_singleton] at hcut
      omega
    · obtain ⟨reader, block, conn, hr, -⟩ := step_eq_some hd'
      rw [read_header, hread, readHeader_cut F hn0 hlt] at hr
      simp [errCode] at hr
  · have htake : d.unread.take n =
        F.field ++ (F.body ++ tl.flatMap Frame.bytes).take (n - F.field.length) := by
      rw [List.take_append, List.take_of_length_le hge]
    have hdrop : d.unread.drop n =
        (F.body ++ tl.flatMap Frame.bytes).drop (n - F.field.length) := by
      rw [List.drop_append, List.drop_eq_nil_of_le hge, List.nil_append]
    rw [htake] at hread hans
    have hstep := step_header out hread (readHeader_frame F _ hmax)
    rw [hdrop] at hstep
    refine call_past_header ho hstep ((headerCut_header hnext hans).trans ?_) ?_
    · simp only [List.length_append, F.length_header, List.length_singleton, add_assoc]
    · simp only [d, List.length_append]
      omega

/-- A read of the rest: the frame is completed, or brought forward. -/
theorem call_remain {data : List UInt8} {start : ℕ} {fh : FixedHeader} {out : List (List UInt8)}
    (ho : out = before.map Frame.bytes) (hlen : data.length = F.bytes.length)
    (hstart : start < F.bytes.length) (hdata : data.take start = F.bytes.take start) (extra : ℕ) :
    Advances maxSize (before ++ F :: tl)
      ⟨.remain data start fh maxSize, F.bytes.drop start ++ tl.flatMap Frame.bytes, out⟩
      (.chunk extra) := by
  have hne : F.bytes.drop start ++ tl.flatMap Frame.bytes ≠ [] := by
    rw [← List.length_pos_iff, List.length_append, List.length_drop]
    omega
  have hread := read_chunk hne extra (by omega : 0 < data.length - start)
  generalize hn : min (extra + 1) (data.length - start) = n at hread
  have hn0 : 0 < n := by omega
  have hnle : n ≤ (F.bytes.drop start).length := by
    rw [List.length_drop]
    omega
  rw [List.take_append_of_le_length hnle, List.drop_append_of_le_length hnle, List.drop_drop]
    at hread
  have hbytes : ((F.bytes.drop start).take n).length = n := List.length_take_of_le hnle
  have hfill : data.take start ++ (F.bytes.drop start).take n = F.bytes.take (start + n) := by
    rw [hdata, List.take_add]
  obtain ⟨b, bs, hbs⟩ := List.exists_cons_of_length_pos (hbytes.symm ▸ hn0)
  refine ⟨by simp [HeaderCut], ?_⟩
  by_cases hfull : start + n = data.length
  · have hr : MQTTRead.readRemain data start fh maxSize (.ok ((F.bytes.drop start).take n)) =
        .ok (.fin F.bytes fh maxSize, false) := by
      have hall : F.bytes.take (start + n) ++ data.drop (start + n) = F.bytes := by
        rw [List.take_of_length_le (by omega), List.drop_eq_nil_of_le (by omega), List.append_nil]
      rw [hbs] at hbytes hfill ⊢
      simp only [MQTTRead.readRemain, hbytes, if_pos hfull, hfill, hall]
    refine ⟨_, step_remain out (by omega) hread hr, ⟨before ++ [F], tl, by simp, by simp [ho],
      rfl, rfl, ?_⟩, ?_⟩
    · rw [List.drop_eq_nil_of_le (by omega), List.nil_append]
    · simp only [List.length_append, List.length_drop, isChunk, if_true]
      omega
  · have hr : MQTTRead.readRemain data start fh maxSize (.ok ((F.bytes.drop start).take n)) =
        .ok (.remain (F.bytes.take (start + n) ++ data.drop (start + n)) (start + n) fh maxSize,
          false) := by
      rw [hbs] at hbytes hfill ⊢
      have hless : start + n < data.length := by omega
      simp only [MQTTRead.readRemain, hbytes, if_neg hfull, if_pos hless, hfill]
    have hlt : start + n < F.bytes.length := by omega
    have hfront : (F.bytes.take (start + n)).length = start + n :=
      List.length_take_of_le hlt.le
    refine ⟨_, step_remain out (by omega) hread hr, ⟨before, F :: tl, rfl, ho, F, tl, rfl, ?_, hlt,
      ?_, rfl, rfl⟩, ?_⟩
    · rw [List.length_append, hfront, List.length_drop]
      omega
    · rw [List.take_append_of_le_length hfront.ge, List.take_of_length_le hfront.le]
    · simp only [List.length_append, List.length_drop, isChunk, if_true]
      omega

end Calls

section Runs
variable {maxSize : ℕ} {frames : List Frame} {d d' : Feed} {ev : Delivery}

/-- A call that gets no bytes changes nothing. -/
theorem call_blocked (h : Synced maxSize frames d)
    (hb : ∀ len, 0 < len → (IoRead.read (Connection.mk d.unread ev) len) =
      (.wouldBlock, ⟨d.unread, ev⟩)) (hev : isChunk ev → d.unread = []) :
    Advances maxSize frames d ev := by
  have hcut : HeaderCut frames d ev := by
    have h5 := hb 5 (by decide)
    unfold HeaderCut
    rw [h5]
    split <;> simp_all
  have hprog : d.unread.length ≤ d.unread.length - if isChunk ev then 1 else 0 := by
    split_ifs with hc
    · simp [hev hc]
    · exact le_rfl
  refine ⟨hcut, d, ?_, h, hprog⟩
  obtain ⟨before, rest, -, -, hat⟩ := h
  obtain ⟨reader, unread, out⟩ := d
  cases reader with
  | none => exact hat.elim
  | fin => exact hat.elim
  | init data m => exact step_init out (hb 5 (by decide)) rfl
  | header b data m => exact step_header out (hb 5 (by decide)) rfl
  | remain data start fh m =>
    obtain ⟨F, tl, -, hlen, hlt, -⟩ := hat
    exact step_remain out (by omega) (hb _ (by omega)) rfl

/-- From a reader that is in step, every call advances or derails. -/
theorem synced_call (hmax : ∀ F ∈ frames, F.bytes.length ≤ maxSize)
    (h : Synced maxSize frames d) (ev : Delivery) :
    Advances maxSize frames d ev ∨ Derails frames d ev := by
  cases ev with
  | wouldBlock => exact .inl (call_blocked h (fun _ _ => rfl) (by simp [isChunk]))
  | chunk extra =>
    have hsync := h
    obtain ⟨before, rest, rfl, ho, hat⟩ := h
    obtain ⟨reader, unread, out⟩ := d
    cases reader with
    | none => exact hat.elim
    | fin => exact hat.elim
    | init data m =>
      obtain ⟨rfl, rfl, hu⟩ := hat
      cases rest with
      | nil =>
        obtain rfl : unread = [] := by simpa using hu
        exact .inl (call_blocked hsync (fun _ hlen => read_drained extra hlen) fun _ => rfl)
      | cons F tl =>
        obtain rfl : unread = F.header ++ (F.body ++ tl.flatMap Frame.bytes) := by
          simpa [Frame.bytes] using hu
        exact call_init (hmax F (by simp)) ho extra
    | header b data m =>
      obtain ⟨F, tl, rfl, rfl, rfl, rfl, hu⟩ := hat
      obtain rfl : unread = _ := hu
      exact call_header (hmax F (by simp)) ho extra
    | remain data start fh m =>
      obtain ⟨F, tl, rfl, hlen, hlt, hdata, rfl, hu⟩ := hat
      obtain rfl : unread = _ := hu
      exact .inl (call_remain ho hlen hlt hdata extra)

/-- What has been handed out stays. -/
theorem settle_out {out : List (List UInt8)} {unread : List UInt8} {reader : MQTTRead}
    (h : settle out unread reader = some d) : ∃ more, d.out = out ++ more := by
  cases reader with
  | fin data fh m =>
    obtain rfl := Option.some.inj h
    exact ⟨[data], rfl⟩
  | _ =>
    obtain rfl := Option.some.inj h
    exact ⟨[], (List.append_nil _).symm⟩

/-- A frame of the wrong length cannot be taken back. -/
theorem not_prefix_append {out : List (List UInt8)} {data : List UInt8}
    (h : ∀ F, frames[out.length]? = some F → data.length ≠ F.bytes.length) :
    ¬ out ++ [data] <+: frames.map Frame.bytes := by
  rintro ⟨more, hmore⟩
  have hget : (frames.map Frame.bytes)[out.length]? = some data := by
    rw [← hmore]
    simp
  rw [List.getElem?_map] at hget
  obtain ⟨F, hF, rfl⟩ := Option.map_eq_some_iff.mp hget
  exact h F hF rfl

theorem doomed_step (h : Doomed frames d) (hs : step d ev = some d') : Doomed frames d' := by
  obtain ⟨reader, block, conn, hread, hsettle⟩ := step_eq_some hs
  rcases h with ⟨data, start, fh, m, hreader, hbad⟩ | hpre
  · rw [hreader] at hread
    by_cases hstart : start ≤ data.length
    · rw [MQTTRead.read_remain hstart] at hread
      obtain ⟨o, hout, hok⟩ := bind_eq_ok.mp hread
      obtain ⟨rfl, -⟩ := Prod.mk.inj (Outcome.ok.inj hok)
      rcases hbad with hstuck | hwrong
      · -- the buffer is full: a request for no bytes is answered with none, which is an error
        have hzero : data.length - start = 0 := by omega
        rw [hzero] at hout
        cases ev with
        | wouldBlock =>
          obtain ⟨rfl, rfl⟩ := Prod.mk.inj (Outcome.ok.inj hout)
          obtain rfl := Option.some.inj hsettle
          exact .inl ⟨data, start, fh, m, rfl, .inl hstuck⟩
        | chunk extra => simp [IoRead.read, MQTTRead.readRemain, errDesc] at hout
      · obtain ⟨data', start', rfl, hlen⟩ | ⟨data', rfl, hlen⟩ := MQTTRead.readRemain_length hout
        · obtain rfl := Option.some.inj hsettle
          exact .inl ⟨data', start', fh, m, rfl, .inr fun F hF => hlen ▸ hwrong F hF⟩
        · obtain rfl := Option.some.inj hsettle
          exact .inr (not_prefix_append fun F hF => hlen ▸ hwrong F hF)
    · simp [MQTTRead.read, sliceFrom, hstart] at hread
  · obtain ⟨more, hmore⟩ := settle_out hsettle
    refine .inr fun hp => hpre (List.IsPrefix.trans ?_ hp)
    exact ⟨more, hmore.symm⟩

theorem doomed_ne_done {m : UInt32} (h : Doomed frames d) : d ≠ done m frames := by
  rintro rfl
  rcases h with ⟨_, _, _, _, hreader, -⟩ | hpre
  · simp [done, MQTTRead.new] at hreader
  · exact hpre (List.prefix_refl _)

/-- Once the stream is used up, a reader in step has handed out everything. -/
theorem synced_drained {m : UInt32} (h : Synced m.toNat frames d) (hu : d.unread = []) :
    d = done m frames := by
  obtain ⟨before, rest, rfl, ho, hat⟩ := h
  obtain ⟨reader, unread, out⟩ := d
  obtain rfl : unread = [] := hu
  obtain rfl : out = _ := ho
  cases reader with
  | none => exact hat.elim
  | fin => exact hat.elim
  | init data n =>
    obtain ⟨rfl, rfl, hnil⟩ := hat
    cases rest with
    | nil => simp [done, MQTTRead.new]
    | cons F tl => simp [Frame.bytes, Frame.header] at hnil
  | header b data n =>
    obtain ⟨F, tl, -, -, -, -, hnil⟩ := hat
    have hpos := F.field_pos
    have hlen := congrArg List.length hnil
    simp only [List.length_nil, List.length_append] at hlen
    omega
  | remain data start fh n =>
    obtain ⟨F, tl, -, -, hlt, -, -, hnil⟩ := hat
    have hlen := congrArg List.length hnil
    simp only [List.length_nil, List.length_append, List.length_drop] at hlen
    omega

/-- With every header cut in the right place and enough chunks, the run completes. -/
theorem run_of_along {m : UInt32} (hmax : ∀ F ∈ frames, F.bytes.length ≤ m.toNat)
    {events : List Delivery} (h : Synced m.toNat frames d)
    (hlen : d.unread.length ≤ events.countP isChunk)
    (hc : Transition.Along step (HeaderCut frames) d events) :
    Transition.run step d events = some (done m frames) := by
  induction events generalizing d with
  | nil =>
    have hu : d.unread = [] := List.eq_nil_of_length_eq_zero (by simpa using hlen)
    exact congrArg some (synced_drained h hu)
  | cons ev events ih =>
    rcases synced_call hmax h ev with ⟨-, d₁, hstep, hsync, hprog⟩ | ⟨hno, -⟩
    · have hrest := hc.2
      rw [hstep] at hrest
      refine Transition.run_cons.mpr ⟨d₁, hstep, ih hsync ?_ hrest⟩
      rw [List.countP_cons] at hlen
      omega
    · exact absurd hc.1 hno

/-- A run that completes has cut every header in the right place. -/
theorem along_of_run {m : UInt32} (hmax : ∀ F ∈ frames, F.bytes.length ≤ m.toNat)
    {events : List Delivery} (h : Synced m.toNat frames d)
    (hr : Transition.run step d events = some (done m frames)) :
    Transition.Along step (HeaderCut frames) d events := by
  induction events generalizing d with
  | nil => trivial
  | cons ev events ih =>
    obtain ⟨d₁, hstep, hrest⟩ := Transition.run_cons.mp hr
    rcases synced_call hmax h ev with ⟨hcut, d₂, hstep', hsync, -⟩ | ⟨-, hdoom⟩
    · obtain rfl := Option.some.inj (hstep.symm.trans hstep')
      refine ⟨hcut, ?_⟩
      rw [hstep]
      exact ih hsync hrest
    · have hend : Doomed frames (done m frames) :=
        Transition.run_invariant (fun _ _ _ => doomed_step) (hdoom d₁ hstep) hrest
      exact absurd rfl (doomed_ne_done hend)

theorem start_synced (m : UInt32) (frames : List Frame) :
    Synced m.toNat frames (start m frames) :=
  ⟨[], frames, rfl, rfl, rfl, rfl, rfl⟩

/-- The frames come out in order and complete, under a delivery with enough chunks, exactly if the
reads of every header stop inside the frame and past its header. -/
theorem reassembles_iff {m : UInt32} {frames : List Frame}
    (hmax : ∀ F ∈ frames, F.bytes.length ≤ m.toNat) {events : List Delivery}
    (hlen : (frames.flatMap Frame.bytes).length ≤ events.countP isChunk) :
    Transition.run step (start m frames) events = some (done m frames) ↔
      Transition.Along step (HeaderCut frames) (start m frames) events :=
  ⟨along_of_run hmax (start_synced m frames), run_of_along hmax (start_synced m frames) hlen⟩

end Runs

def pubAckFrame : Frame := ⟨0x40, [0x02], [0x00, 0x01], rfl, by decide, .inl rfl, rfl⟩

def pingReqFrame : Frame := ⟨0xC0, [0x00], [], rfl, by decide, .inl rfl, rfl⟩

def pubAckChunks : List Delivery :=
  [.chunk 0, .wouldBlock, .chunk 1, .chunk 0, .chunk 2, .chunk 3, .chunk 3, .chunk 0, .chunk 0]

/-- Two PUBACK packets come through when the header reads of each end at its third byte. -/
theorem reassembles_iff_pubAck :
    Transition.run step (start 16 [pubAckFrame, pubAckFrame]) pubAckChunks =
      some (done 16 [pubAckFrame, pubAckFrame]) :=
  (reassembles_iff (by decide) (by decide)).mpr (by decide)

/-- A PINGREQ is two bytes long: its header cannot be complete before the frame is, and no chunking
brings it through. -/
theorem pingReq_not_reassembled :
    ¬ ∀ (m : UInt32) (frames : List Frame) (events : List Delivery),
      (∀ F ∈ frames, F.bytes.length ≤ m.toNat) →
      (frames.flatMap Frame.bytes).length ≤ events.countP isChunk →
      Transition.run step (start m frames) events = some (done m frames) := by
  intro hall
  have hrun := hall 16 [pingReqFrame] [.chunk 0, .chunk 0, .chunk 0] (by decide) (by decide)
  have herr : Transition.run step (start 16 [pingReqFrame]) [.chunk 0, .chunk 0, .chunk 0] =
      none := by decide
  rw [herr] at hrun
  simp at hrun

end Feed
end Mqtr
