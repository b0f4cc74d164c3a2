import Mqtr.Reader.Parse
import Mqtr.Wire.Failure

/-! The handshake on a new connection. It reads until a packet is complete or time is out, and answers
whatever is not a CONNECT with the reason code of the error. The codes of the reader and of the decoders
all have a place in a CONNACK. -/
namespace Mqtr
open Outcome Trace

namespace Handshake

/-- What the loop is left with: a code for the CONNACK, or the packet that is handed over. -/
inductive Verdict where
  | connack (code : ReasonCode)
  | connect (pkt : Connect)
  deriving DecidableEq, Repr

inductive Answer where
  | connack (code : ConnackReasonCode)
  | addConnection (pkt : Connect)
  deriving DecidableEq, Repr

/-- The arms for an error, after `read` and after `parse` alike. The last one is `unreachable!`. -/
def onError (err : Error) : Result Verdict :=
  if err.kind = .malformedPacket then .ok (.connack err.reasonCode)
  else if err.kind = .protocolError then .ok (.connack err.reasonCode)
  else .panic

def onParse : Result Packet → Result Verdict
  | .ok (.connect val) => .ok (.connect val)
  | .ok _ => .ok (.connack .protocolError)
  | .err e => onError e
  | .panic => .panic

/-- One pass of the loop up to the question of time, which is asked if the packet is not complete. -/
def attempt {ρ : Type} [IoRead ρ] (packetr : MQTTRead) (stream : ρ) :
    Result (Verdict ⊕ MQTTRead × ρ) :=
  match packetr.read stream with
  | .ok ((.fin data fh maxSize, _), _) => do
    let verdict ← onParse (MQTTRead.parse (.fin data fh maxSize))
    .ok (.inl verdict)
  | .ok ((.none, _), _) => .ok (.inl (.connack .unspecifiedError))
  | .ok ((packetr, _), stream) => .ok (.inr (packetr, stream))
  | .err e => do
    let verdict ← onError e
    .ok (.inl verdict)
  | .panic => .panic

/-- The loop. The clock only matters through `ticks`, the number of passes that find it before the
timeout. -/
def loop {ρ : Type} [IoRead ρ] (ticks : ℕ) (packetr : MQTTRead) (stream : ρ) : Result Verdict := do
  match ← attempt packetr stream with
  | .inl verdict => .ok verdict
  | .inr (packetr, stream) =>
    match ticks with
    | 0 => .ok (.connack .unspecifiedError)
    | ticks + 1 => loop ticks packetr stream

def mainLoop {ρ : Type} [IoRead ρ] (maxSize : UInt32) (stream : ρ) (ticks : ℕ) : Result Answer := do
  match ← loop ticks (.new maxSize) stream with
  | .connack code => do
    let code ← (ConnackReasonCode.tryFrom code.toU8).unwrap
    .ok (.connack code)
  | .connect pkt => .ok (.addConnection pkt)

end Handshake

/-- The codes with which a connection is refused. -/
def ReasonCode.Refusal (code : ReasonCode) : Prop :=
  code ∈ [malformedPacket, protocolError, payloadFormatInvalid, unsupportedProtocolVersion,
    packetTooLarge, unspecifiedError]

instance : DecidablePred ReasonCode.Refusal := fun _ => inferInstanceAs (Decidable (_ ∈ _))

/-- Each of them has a place in a CONNACK, where it says that the connection failed. -/
theorem ReasonCode.Refusal.connack {code : ReasonCode} (h : code.Refusal) :
    ∃ c, ConnackReasonCode.tryFrom code.toU8 = .ok c ∧ c ≠ .success := by
  simp only [Refusal, List.mem_cons, List.not_mem_nil, or_false] at h
  rcases h with rfl | rfl | rfl | rfl | rfl | rfl <;> exact ⟨_, rfl, nofun⟩

def Error.Refusal (e : Error) : Prop := e.reasonCode.Refusal

theorem Error.Coded.refusal {e : Error} (h : e.Coded) : e.Refusal := by
  rcases h with (h | h | h) | h <;> rw [Refusal, reasonCode, h] <;> decide

/-- The remote is still there: no end of the stream, and no failure. -/
def ReadResult.Lives : ReadResult → Prop
  | .ok [] | .failed => False
  | .ok (_ :: _) | .wouldBlock => True

/-- The errors have codes of refusal, and are ordinary exactly if the remote is there at every read. -/
abbrev Hears {α : Type} (x : Result α) (answers : List ReadResult) : Prop :=
  Traced Error.Refusal Error.Ordinary ReadResult.Lives x answers

section Rules
variable {α : Type}

theorem gone_hears (d : String) {res : ReadResult} (h : ¬ res.Lives) :
    Hears (errDesc .disconnected d : Result α) [res] := by
  refine ⟨fun he => ?_, ?_⟩
  · cases he
    exact (by decide : ReasonCode.Refusal .unspecifiedError)
  · have hodd : ¬ Error.Ordinary ⟨.disconnected, d, none⟩ := by simp [Error.Ordinary]
    constructor
    · intro hall
      exact absurd (hall res (by simp)) h
    · intro hall
      exact absurd (hall _ rfl) hodd

theorem lives_hears {x : Result α} {res : ReadResult} (h : res.Lives) (hx : Hears x []) :
    Hears x [res] := by
  refine ⟨hx.known, ?_⟩
  rw [← hx.fits_iff]
  simpa using h

theorem slice_hears (s : List α) (a b : ℕ) : Hears (slice s a b) [] := by
  unfold slice
  split_ifs
  · exact .ok _
  · exact .panic

theorem sliceFrom_hears (s : List α) (a : ℕ) : Hears (sliceFrom s a) [] := by
  unfold sliceFrom
  split_ifs
  · exact .ok _
  · exact .panic

end Rules

namespace MQTTRead

theorem startRemain_hears (byte1 : UInt8) (field data : List UInt8) (start maxSize : ℕ) :
    Hears (startRemain byte1 field data start maxSize) [] := by
  have hlen : Hears (decode field : Result (VarU32 × ℕ)) [] := by
    rw [VarU32.decode_eq]
    split
    · exact .err (by decide : ReasonCode.Refusal .malformedPacket) (.inl rfl)
    · exact .ok _
  refine hlen.bind_done fun r _ => Traced.bind_done ?_ fun _ _ => .ok _
  unfold readPacketLimit
  split_ifs
  · exact .err (by decide : ReasonCode.Refusal .packetTooLarge) (.inl rfl)
  · exact .ok ()

theorem readInit_hears (data : List UInt8) (maxSize : ℕ) (res : ReadResult) :
    Hears (readInit data maxSize res) [res] := by
  unfold readInit
  split
  · exact gone_hears _ nofun
  · exact lives_hears trivial (.ok _)
  · refine lives_hears trivial ((slice_hears _ _ _).bind_done fun taken _ => ?_)
    dsimp only
    split_ifs
    · exact startRemain_hears _ _ _ _ _
    · exact .ok _
  · exact lives_hears trivial (.ok _)
  · exact gone_hears _ nofun

theorem readHeader_hears (byte1 : UInt8) (data : List UInt8) (maxSize : ℕ) (res : ReadResult) :
    Hears (readHeader byte1 data maxSize res) [res] := by
  unfold readHeader
  split
  · exact gone_hears _ nofun
  next bytes hne =>
    cases bytes with
    | nil => exact absurd rfl hne
    | cons b bytes =>
      refine lives_hears trivial ((slice_hears _ _ _).bind_done fun taken _ => ?_)
      dsimp only
      split_ifs
      · exact (sliceFrom_hears _ _).bind_done fun _ _ => startRemain_hears _ _ _ _ _
      · exact .ok _
  · exact lives_hears trivial (.ok _)
  · exact gone_hears _ nofun

theorem readRemain_hears (data : List UInt8) (start : ℕ) (fh : FixedHeader) (maxSize : ℕ)
    (res : ReadResult) : Hears (readRemain data start fh maxSize res) [res] := by
  unfold readRemain
  split
  · exact gone_hears _ nofun
  next bytes hne =>
    cases bytes with
    | nil => exact absurd rfl hne
    | cons b bytes =>
      refine lives_hears trivial ?_
      dsimp only
      split_ifs
      · exact .ok _
      · exact .ok _
      · exact .panic
  · exact lives_hears trivial (.ok _)
  · exact gone_hears _ nofun

/-- What the stream answers to the reader, if it is asked. -/
def answers {ρ : Type} [IoRead ρ] (self : MQTTRead) (stream : ρ) : List ReadResult :=
  match self with
  | .init _ _ | .header _ _ _ => [(IoRead.read stream 5).1]
  | .remain data start _ _ =>
    after (sliceFrom data start : Result (List UInt8)) fun window =>
      [(IoRead.read stream window.length).1]
  | .fin _ _ _ | .none => []

theorem read_hears {ρ : Type} [IoRead ρ] (self : MQTTRead) (stream : ρ) :
    Hears (self.read stream) (self.answers stream) := by
  cases self with
  | none => exact .panic
  | init data maxSize => exact (readInit_hears _ _ _).bind_done fun _ _ => .ok _
  | header byte1 data maxSize => exact (readHeader_hears _ _ _ _).bind_done fun _ _ => .ok _
  | remain data start fh maxSize =>
    refine (sliceFrom_hears _ _).bind_after fun window _ => ?_
    exact (readRemain_hears _ _ _ _ _).bind_done fun _ _ => .ok _
  | fin data fh maxSize => exact .ok _

/-- The fields that the parser of a complete packet comes to. -/
def reads : MQTTRead → List FieldRead
  | .fin data fh _ => after fh.unwrap fun r => Packet.typeReads r.1 data
  | _ => []

theorem parse_traced (self : MQTTRead) : Reports Error.Coded self.parse self.reads := by
  cases self with
  | fin data fh maxSize =>
    refine (fh.unwrap_traced.mono fun _ => .inl).bind_after fun r _ => ?_
    dsimp only
    rw [parseType_eq, bind_assoc]
    refine (Packet.decodeType_traced r.1 data).bind_done fun p _ => ?_
    rw [ok_bind]
    dsimp only
    split_ifs
    · exact (malformed_traced _).mono fun _ => .inl
    · exact .ok _
  | _ => exact .panic

theorem parse_connect {self : MQTTRead} {pkt : Connect} (h : self.parse = .ok (.connect pkt)) :
    ∃ data : List UInt8, decode data = .ok (pkt, data.length) := by
  cases self with
  | fin data fh maxSize =>
    obtain ⟨⟨t, flags⟩, hu, -⟩ := bind_eq_ok.mp h
    rw [parse_of_unwrap hu] at h
    obtain ⟨⟨p, n⟩, hdec, h⟩ := bind_eq_ok.mp h
    dsimp only at h
    split_ifs at h with hn
    · exact absurd h (errCode_ne_ok _ _ _ _)
    obtain rfl := Outcome.ok.inj h
    refine ⟨data, ?_⟩
    rw [ne_eq, not_not] at hn
    subst hn
    cases t with
    | connect =>
      obtain ⟨⟨pkt', n⟩, hpkt, hdec⟩ := bind_eq_ok.mp hdec
      cases hdec
      exact hpkt
    | _ =>
      obtain ⟨⟨_, n⟩, -, hdec⟩ := bind_eq_ok.mp hdec
      cases hdec
  | _ => cases h

end MQTTRead

namespace Handshake

/-- A CONNACK that is sent here refuses the connection, and a CONNECT that is handed over is a packet
that was decoded. -/
def Verdict.Proper : Verdict → Prop
  | .connack code => code.Refusal
  | .connect pkt => ∃ data : List UInt8, decode data = .ok (pkt, data.length)

theorem onError_proper {e : Error} {verdict : Verdict} (he : e.Refusal)
    (h : onError e = .ok verdict) : verdict.Proper := by
  unfold onError at h
  split_ifs at h
  · obtain rfl := Outcome.ok.inj h
    exact he
  · obtain rfl := Outcome.ok.inj h
    exact he

theorem onParse_proper {packetr : MQTTRead} {verdict : Verdict}
    (h : onParse packetr.parse = .ok verdict) : verdict.Proper := by
  cases hparse : packetr.parse with
  | ok pkt =>
    rw [hparse] at h
    cases pkt with
    | connect pkt =>
      obtain rfl := Outcome.ok.inj h
      exact MQTTRead.parse_connect hparse
    | _ =>
      obtain rfl := Outcome.ok.inj h
      exact (by decide : ReasonCode.Refusal .protocolError)
  | err e =>
    rw [hparse] at h
    exact onError_proper (packetr.parse_traced.known hparse).refusal h
  | panic =>
    rw [hparse] at h
    exact absurd h nofun

theorem attempt_proper {ρ : Type} [IoRead ρ] {packetr : MQTTRead} {stream : ρ} {verdict : Verdict}
    (h : attempt packetr stream = .ok (.inl verdict)) : verdict.Proper := by
  unfold attempt at h
  split at h
  · obtain ⟨v, hv, h⟩ := bind_eq_ok.mp h
    obtain rfl := Sum.inl.inj (Outcome.ok.inj h)
    exact onParse_proper hv
  · obtain rfl := Sum.inl.inj (Outcome.ok.inj h)
    exact (by decide : ReasonCode.Refusal .unspecifiedError)
  · exact absurd h nofun
  next he =>
    obtain ⟨v, hv, h⟩ := bind_eq_ok.mp h
    obtain rfl := Sum.inl.inj (Outcome.ok.inj h)
    exact onError_proper ((packetr.read_hears stream).known he) hv
  · exact absurd h nofun

/-- Induction on the passes that are left: each ends the loop or hands on a reader. -/
theorem loop_proper {ρ : Type} [IoRead ρ] {ticks : ℕ} {packetr : MQTTRead} {stream : ρ}
    {verdict : Verdict} (h : loop ticks packetr stream = .ok verdict) : verdict.Proper := by
  induction ticks generalizing packetr stream with
  | zero =>
    unfold loop at h
    obtain ⟨v | ⟨packetr', stream'⟩, hv, h⟩ := bind_eq_ok.mp h
    · obtain rfl := Outcome.ok.inj h
      exact attempt_proper hv
    · obtain rfl := Outcome.ok.inj h
      exact (by decide : ReasonCode.Refusal .unspecifiedError)
  | succ ticks ih =>
    unfold loop at h
    obtain ⟨v | ⟨packetr', stream'⟩, hv, h⟩ := bind_eq_ok.mp h
    · obtain rfl := Outcome.ok.inj h
      exact attempt_proper hv
    · exact ih h

/-- An error CONNACK, or the hand-over of a CONNECT that was decoded. -/
def Answer.Proper : Answer → Prop
  | .connack code => code ≠ .success
  | .addConnection pkt => ∃ data : List UInt8, decode data = .ok (pkt, data.length)

/-- Once the loop is left, the handshake answers: the code of a CONNACK can be unwrapped. -/
theorem mainLoop_of_loop {ρ : Type} [IoRead ρ] {maxSize : UInt32} {stream : ρ} {ticks : ℕ}
    {verdict : Verdict} (h : loop ticks (.new maxSize) stream = .ok verdict) :
    ∃ answer, mainLoop maxSize stream ticks = .ok answer ∧ answer.Proper := by
  have hproper := loop_proper h
  rw [mainLoop, h, ok_bind]
  cases verdict with
  | connack code =>
    obtain ⟨c, hc, hfail⟩ := ReasonCode.Refusal.connack hproper
    exact ⟨.connack c, by simp [hc], hfail⟩
  | connect pkt => exact ⟨.addConnection pkt, rfl, hproper⟩

theorem codes_in_connack {ρ : Type} [IoRead ρ] (packetr : MQTTRead) (stream : ρ) :
    (∀ e, packetr.read stream = .err e ∨ packetr.parse = .err e →
      (ConnackReasonCode.tryFrom e.reasonCode.toU8).isOk) ∧
    ∀ maxSize ticks verdict, loop ticks (.new maxSize) stream = .ok verdict →
      ∃ answer, mainLoop maxSize stream ticks = .ok answer := by
  have hplace (e : Error) (he : e.Refusal) :
      (ConnackReasonCode.tryFrom e.reasonCode.toU8).isOk := by
    obtain ⟨c, hc, -⟩ := he.connack
    rw [hc]
    rfl
  constructor
  · rintro e (he | he)
    · exact hplace e ((packetr.read_hears stream).known he)
    · exact hplace e (packetr.parse_traced.known he).refusal
  · intro maxSize ticks verdict h
    obtain ⟨answer, hanswer, -⟩ := mainLoop_of_loop h
    exact ⟨answer, hanswer⟩

/-- A packet that is too large, met by a reader that takes one byte. -/
theorem codes_in_connack_too_large :
    (MQTTRead.new 1).read (ReadResult.ok [0x10, 0x7f]) =
        .err ⟨.malformedPacket, "MQTTRead::read packet_len:129", some .packetTooLarge⟩ ∧
      (ConnackReasonCode.tryFrom ReasonCode.packetTooLarge.toU8).isOk := by
  have h : (MQTTRead.new 1).read (ReadResult.ok [0x10, 0x7f]) =
      .err ⟨.malformedPacket, "MQTTRead::read packet_len:129", some .packetTooLarge⟩ := by decide
  exact ⟨h, (codes_in_connack (MQTTRead.new 1) (ReadResult.ok [0x10, 0x7f])).1 _ (.inl h)⟩

section Totality
variable {ρ : Type} [IoRead ρ]

/-- The passes of the loop: with which reader and which stream each one begins. -/
def passes (ticks : ℕ) (packetr : MQTTRead) (stream : ρ) : List (MQTTRead × ρ) :=
  (packetr, stream) ::
    match ticks with
    | 0 => []
    | ticks + 1 =>
      match attempt packetr stream with
      | .ok (.inr (packetr, stream)) => passes ticks packetr stream
      | _ => []

/-- In the pass, neither `read` nor `parse` aborts. -/
def Returns (pass : MQTTRead × ρ) : Prop :=
  pass.1.read pass.2 ≠ .panic ∧
    ∀ data fh maxSize block stream,
      pass.1.read pass.2 = .ok ((.fin data fh maxSize, block), stream) →
        MQTTRead.parse (.fin data fh maxSize) ≠ .panic

/-- In the pass the remote is there, and a packet that is completed ends in none of its fields. -/
def Orderly (pass : MQTTRead × ρ) : Prop :=
  (∀ res ∈ pass.1.answers pass.2, res.Lives) ∧
    ∀ reader block stream, pass.1.read pass.2 = .ok ((reader, block), stream) →
      ∀ r ∈ reader.reads, r.Fits

theorem onError_returns_iff (e : Error) : (∃ verdict, onError e = .ok verdict) ↔ e.Ordinary := by
  unfold onError Error.Ordinary
  split_ifs with hm hp
  · simp [hm]
  · simp [hp]
  · simp [hm, hp]

theorem onParse_returns_iff {x : Result Packet} (hx : x ≠ .panic) :
    (∃ verdict, onParse x = .ok verdict) ↔ ∀ e, x = .err e → e.Ordinary := by
  cases x with
  | ok pkt => cases pkt <;> simp [onParse]
  | err e => simp [onParse, onError_returns_iff]
  | panic => exact absurd rfl hx

/-- A pass comes to an end exactly if it is orderly. -/
theorem attempt_returns_iff {packetr : MQTTRead} {stream : ρ} (h : Returns (packetr, stream)) :
    (∃ next, attempt packetr stream = .ok next) ↔ Orderly (packetr, stream) := by
  obtain ⟨hpanic, hparse⟩ := h
  unfold Orderly
  rw [(packetr.read_hears stream).fits_iff]
  unfold attempt
  dsimp only at hpanic hparse ⊢
  cases hread : packetr.read stream with
  | panic => exact absurd hread hpanic
  | err e => simp [bind_eq_ok, onError_returns_iff]
  | ok out =>
    obtain ⟨⟨reader, block⟩, stream'⟩ := out
    cases reader with
    | fin data fh maxSize =>
      have hret := onParse_returns_iff (hparse data fh maxSize block stream' hread)
      rw [← (MQTTRead.parse_traced _).fits_iff] at hret
      simp [bind_eq_ok, hret]
    | _ => simp [MQTTRead.reads]

/-- The loop comes to an end exactly if each of its passes is orderly. -/
theorem loop_returns_iff {ticks : ℕ} {packetr : MQTTRead} {stream : ρ}
    (h : ∀ pass ∈ passes ticks packetr stream, Returns pass) :
    (∃ verdict, loop ticks packetr stream = .ok verdict) ↔
      ∀ pass ∈ passes ticks packetr stream, Orderly pass := by
  induction ticks generalizing packetr stream with
  | zero =>
    unfold passes at h ⊢
    rw [List.forall_mem_singleton, ← attempt_returns_iff (h _ (by simp))]
    unfold loop
    simp only [bind_eq_ok]
    constructor
    · rintro ⟨_, next, hnext, -⟩
      exact ⟨next, hnext⟩
    · rintro ⟨verdict | _, hnext⟩
      · exact ⟨_, _, hnext, rfl⟩
      · exact ⟨_, _, hnext, rfl⟩
  | succ ticks ih =>
    unfold passes at h ⊢
    rw [List.forall_mem_cons, ← attempt_returns_iff (h _ (by simp))]
    unfold loop
    cases hnext : attempt packetr stream with
    | ok next =>
      rw [hnext] at h
      rcases next with verdict | ⟨packetr', stream'⟩
      · simp
      · simpa using ih fun pass hpass => h pass (List.mem_cons_of_mem _ hpass)
    | err e => simp
    | panic => simp

theorem returns_of_attempt {packetr : MQTTRead} {stream : ρ} {next : Verdict ⊕ MQTTRead × ρ}
    (h : attempt packetr stream = .ok next) : Returns (packetr, stream) := by
  constructor
  · intro hpanic
    simp [attempt, hpanic] at h
  · intro data fh maxSize block stream' hread hparse
    simp [attempt, hread, hparse, onParse] at h

/-- A loop that comes to an end has had no pass that aborts. -/
theorem returns_of_loop {ticks : ℕ} {packetr : MQTTRead} {stream : ρ} {verdict : Verdict}
    (h : loop ticks packetr stream = .ok verdict) :
    ∀ pass ∈ passes ticks packetr stream, Returns pass := by
  induction ticks generalizing packetr stream with
  | zero =>
    unfold loop at h
    obtain ⟨next, hnext, -⟩ := bind_eq_ok.mp h
    unfold passes
    rw [List.forall_mem_singleton]
    exact returns_of_attempt hnext
  | succ ticks ih =>
    unfold loop at h
    obtain ⟨next, hnext, h⟩ := bind_eq_ok.mp h
    unfold passes
    rw [List.forall_mem_cons, hnext]
    refine ⟨returns_of_attempt hnext, ?_⟩
    rcases next with verdict' | ⟨packetr', stream'⟩
    · simp
    · exact ih h

/-- The handshake ends in an error CONNACK or in a hand-over exactly if the remote is there at every
read and the packet it sends is not cut off inside a field. -/
theorem mainLoop_answers_iff {maxSize : UInt32} {stream : ρ} {ticks : ℕ}
    (h : ∀ pass ∈ passes ticks (.new maxSize) stream, Returns pass) :
    (∃ answer, mainLoop maxSize stream ticks = .ok answer ∧ answer.Proper) ↔
      ∀ pass ∈ passes ticks (.new maxSize) stream, Orderly pass := by
  rw [← loop_returns_iff h]
  constructor
  · rintro ⟨answer, hanswer, -⟩
    obtain ⟨verdict, hverdict, -⟩ := bind_eq_ok.mp hanswer
    exact ⟨verdict, hverdict⟩
  · rintro ⟨verdict, hverdict⟩
    exact mainLoop_of_loop hverdict

end Totality

/-- A remote that gives these answers one after another, and is silent then. -/
instance : IoRead (List ReadResult) := ⟨fun answers _ => (answers.headD .wouldBlock, answers.tail)⟩

/-- A CONNECT in four pieces, with a wait between the first two. -/
def connectInPieces : List ReadResult :=
  [.ok [0x10, 14, 0, 4], .wouldBlock, .ok [77, 81], .ok [84, 84, 5, 0, 0, 0], .ok [0, 0, 1, 97]]

def plainConnect : Connect := ⟨"MQTT", .v5, ⟨0⟩, 0, none, ⟨⟨"a"⟩, none, none, none, none, none⟩⟩

theorem mainLoop_answers_iff_pieces :
    mainLoop 64 connectInPieces 9 = .ok (.addConnection plainConnect) ∧
      ∀ pass ∈ passes 9 (.new 64) connectInPieces, Orderly pass := by
  have hloop : loop 9 (.new 64) connectInPieces = .ok (.connect plainConnect) := by decide +kernel
  refine ⟨by rw [mainLoop, hloop, ok_bind], ?_⟩
  exact (mainLoop_answers_iff (returns_of_loop hloop)).mp (mainLoop_of_loop hloop)

/-- A remote that closes the connection at once: `read` reports it with an error that the loop takes
for impossible. -/
theorem mainLoop_aborts_on_close :
    ¬ ∀ (maxSize : UInt32) (stream : ReadResult) (ticks : ℕ),
      (∀ pass ∈ passes ticks (.new maxSize) stream, Returns pass) →
        ∃ answer, mainLoop maxSize stream ticks = .ok answer ∧ answer.Proper := by
  intro hall
  have hreturns : ∀ pass ∈ passes 0 (.new 16) (ReadResult.ok []), Returns pass := by
    unfold passes
    rw [List.forall_mem_singleton]
    exact ⟨by decide, fun data fh maxSize block stream h => by cases h⟩
  obtain ⟨answer, hanswer, -⟩ := hall 16 (.ok []) 0 hreturns
  have hpanic : mainLoop 16 (ReadResult.ok []) 0 = .panic := by
    unfold mainLoop loop
    rfl
  rw [hpanic] at hanswer
  cases hanswer

end Handshake
end Mqtr
