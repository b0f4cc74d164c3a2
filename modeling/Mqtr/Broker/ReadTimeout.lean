import Mqtr.Broker.Source

/-! The timeout of the reading half of a socket. The calls of `read_packet` are compared with a deadline
that the calls so far determine. -/
namespace Mqtr
open Outcome

/-- The read timeout in nanoseconds. -/
def SourceConfig.readSpan (self : SourceConfig) : ℕ := self.mqttReadTimeout.toNat * 10 ^ 9

def MQTTRead.isFin : MQTTRead → Bool
  | .fin .. => true
  | _ => false

/-- A call of `read_packet`: its instant, whether the packet was complete after it, whether it returned
`Disconnected`, and the timeout it left. -/
structure ReadCall where
  instant : ℕ
  complete : Bool
  disconnected : Bool
  armed : Option ℕ
  deriving DecidableEq, Repr

namespace ReadCall

/-- The deadline after some calls: the first that leaves a packet incomplete sets it. -/
def deadline (span : ℕ) (hist : List ReadCall) : Option ℕ :=
  hist.foldl (fun deadline call =>
    if call.complete then none else some (deadline.getD (call.instant + span))) none

theorem deadline_concat (span : ℕ) (hist : List ReadCall) (call : ReadCall) :
    deadline span (hist ++ [call]) =
      if call.complete then none
      else some ((deadline span hist).getD (call.instant + span)) := by
  simp [deadline]

/-- The law of the timeout: a call that leaves a packet incomplete returns `Disconnected` exactly if the
deadline has passed, and a connection that is kept has the deadline of the calls so far. -/
def Timely (span : ℕ) (hist : List ReadCall) (call : ReadCall) : Prop :=
  (call.complete = false →
    (call.disconnected = true ↔ ∃ d, deadline span hist = some d ∧ d < call.instant)) ∧
  (call.disconnected = false → call.armed = deadline span (hist ++ [call]))

/-- A call that leaves a packet incomplete again is made at the very instant of the deadline. -/
def OnTheDot (span : ℕ) (hist : List ReadCall) (call : ReadCall) : Prop :=
  call.complete = false → ∀ d, deadline span hist = some d → call.instant = d

/-- All that a call can do about the timeout that it finds. -/
inductive Acts (span : ℕ) : Option ℕ → ReadCall → Prop
  | disarms (before : Option ℕ) (instant : ℕ) : Acts span before ⟨instant, true, false, none⟩
  | arms (instant : ℕ) : Acts span none ⟨instant, false, false, some (instant + span)⟩
  | expires {d instant : ℕ} (h : instant < d) (armed : Option ℕ) :
      Acts span (some d) ⟨instant, false, true, armed⟩
  | waits {d instant : ℕ} (h : d ≤ instant) : Acts span (some d) ⟨instant, false, false, some d⟩

/-- A call that finds the deadline of the calls so far keeps the law exactly if it is complete, the first
one, or made at that deadline. -/
theorem Acts.timely_iff {span : ℕ} {hist : List ReadCall} {call : ReadCall}
    (h : Acts span (deadline span hist) call) : Timely span hist call ↔ OnTheDot span hist call := by
  unfold Timely OnTheDot
  rw [deadline_concat]
  generalize deadline span hist = before at h
  cases h with
  | disarms before instant => simp
  | arms instant => simp
  | @expires d instant h armed =>
    constructor
    · intro htimely
      obtain ⟨e, he, hlt⟩ := (htimely.1 rfl).mp rfl
      obtain rfl := Option.some.inj he
      exact absurd hlt h.not_gt
    · intro hdot
      exact absurd (hdot rfl d rfl) h.ne
  | @waits d instant h =>
    constructor
    · intro htimely _ e he
      obtain rfl := Option.some.inj he
      refine le_antisymm (not_lt.mp fun hlt => ?_) h
      exact absurd ((htimely.1 rfl).mpr ⟨d, rfl, hlt⟩) (by simp)
    · intro hdot
      refine ⟨fun _ => ⟨by simp, ?_⟩, fun _ => rfl⟩
      rintro ⟨e, he, hlt⟩
      exact absurd (hdot rfl e he) hlt.ne'

/-- Then it leaves the deadline as well. -/
theorem Acts.armed_eq {span : ℕ} {hist : List ReadCall} {call : ReadCall}
    (h : Acts span (deadline span hist) call) (hdot : OnTheDot span hist call) :
    call.armed = deadline span (hist ++ [call]) := by
  unfold OnTheDot at hdot
  rw [deadline_concat]
  generalize deadline span hist = before at h hdot
  cases h with
  | disarms before instant => rfl
  | arms instant => rfl
  | expires h armed => exact absurd (hdot rfl _ rfl) h.ne
  | waits h => rfl

/-- The second call of a packet, at the deadline that the first has set. -/
theorem each_onTheDot_pair (span instant : ℕ) :
    Transition.Each (OnTheDot span) []
      [⟨instant, false, false, some (instant + span)⟩,
        ⟨instant + span, false, false, some (instant + span)⟩] := by
  refine ⟨?_, ?_, trivial⟩
  · intro _ d hd
    cases hd
  · intro _ d hd
    exact Option.some.inj hd

/-- The second call of a packet, before that deadline: to disconnect then is against the law. -/
theorem not_timely_early {span instant early : ℕ} (h : early < instant + span) :
    ¬ Timely span ([] ++ [⟨instant, false, false, some (instant + span)⟩])
      ⟨early, false, true, none⟩ := by
  intro htimely
  obtain ⟨d, hd, hlt⟩ := (htimely.1 rfl).mp rfl
  obtain rfl := Option.some.inj hd
  exact absurd hlt (not_lt.mpr h.le)

end ReadCall

namespace SourceSocket

variable {ρ : Type} [Peers ρ] {s t u : SourceSocket ρ}

/-- The call returned `Disconnected`. -/
def disconnects : Outcome Error (QueueStatus Packet) → Bool
  | .ok (.disconnected _) => true
  | _ => false

/-- One call of `read_packet` for which the connection, which has moved on since the last one, has no read
error. Its instant is what the clock says after the read; the call looks at the clock at most once. -/
inductive PacketRead (config : SourceConfig) : SourceSocket ρ → ReadCall → SourceSocket ρ → Prop
  | intro {s t : SourceSocket ρ} {pr : MQTTRead} {wouldBlock : Bool} {peers peers' : ρ}
      {out : Outcome Error (QueueStatus Packet)}
      (hread : s.rd.pr.read peers = .ok ((pr, wouldBlock), peers'))
      (hcall : readPacket config { s with peers := peers } = (out, t)) (hreturns : out ≠ .panic) :
      PacketRead config s ⟨(Peers.now peers').1, pr.isFin, disconnects out, t.rd.timeout⟩ t

/-- Such calls one after another. -/
abbrev PacketReads (config : SourceConfig) :
    SourceSocket ρ → List ReadCall → SourceSocket ρ → Prop :=
  Transition.Steps (PacketRead config)

theorem readPacket_of_read {config : SourceConfig} {pr : MQTTRead} {wouldBlock : Bool}
    {peers peers' : ρ} (h : s.rd.pr.read peers = .ok ((pr, wouldBlock), peers')) :
    readPacket config { s with peers := peers } =
      afterRead config pr { s with peers := peers', rd := { s.rd with pr := .none } } := by
  have hread : Stateful.attempt (readConn s.rd.pr)
      { s with peers := peers, rd := { s.rd with pr := .none } } =
      (.ok (.ok (pr, wouldBlock)), { s with peers := peers', rd := { s.rd with pr := .none } }) := by
    simp only [Stateful.attempt, readConn, Stateful.lift, h, ok_bind]
  have hreplace : replacePr .none { s with peers := peers } =
      (.ok s.rd.pr, { s with peers := peers, rd := { s.rd with pr := .none } }) := rfl
  rw [readPacket, Stateful.bind_of_ok hreplace, Stateful.bind_of_ok hread]

theorem afterFin_disarms (timeout : UInt32) (pr : MQTTRead) :
    Stateful.Ensures (afterFin timeout pr) s
      (fun status t => (∃ vals, status = .ok vals) ∧ t.rd.timeout = none)
      (fun t => t.rd.timeout = none) := by
  rw [afterFin]
  refine Stateful.ensures_bind_of_ok rfl ?_
  refine Stateful.Ensures.bind (Q := fun _ t => t.rd.timeout = none)
    (Stateful.ensures_lift ?_ rfl) ?_
  · intro pkt t h
    obtain ⟨pkt', -, h⟩ := bind_eq_ok.mp h
    cases h
    rfl
  · intro pkt t ht
    refine Stateful.Ensures.bind (Q := fun _ t => t.rd.timeout = none)
      (Stateful.ensures_inspect (fun _ _ => ht) ht) ?_
    intro pr' t' ht'
    exact ⟨⟨_, rfl⟩, ht'⟩

theorem afterRead_of_isFin {pr : MQTTRead} (config : SourceConfig) (h : pr.isFin = true) :
    afterRead (ρ := ρ) config pr = afterFin config.mqttReadTimeout pr := by
  cases pr with
  | fin data fh maxSize => rfl
  | none => cases h
  | init data maxSize => cases h
  | header byte1 data maxSize => cases h
  | remain data start fh maxSize => cases h

theorem afterRead_of_not_isFin {pr : MQTTRead} (config : SourceConfig) (h : pr.isFin = false)
    (hreturns : (afterRead config pr s).1 ≠ .panic) :
    afterRead config pr s = afterIncomplete config.mqttReadTimeout pr s := by
  cases pr with
  | fin data fh maxSize => cases h
  | none => exact absurd rfl hreturns
  | init data maxSize => rfl
  | header byte1 data maxSize => rfl
  | remain data start fh maxSize => rfl

theorem PacketRead.acts {config : SourceConfig} {call : ReadCall} (h : PacketRead config s call t) :
    ReadCall.Acts config.readSpan s.rd.timeout call := by
  obtain ⟨hread, hcall, hreturns⟩ := h
  rename_i pr wouldBlock peers peers' out
  rw [readPacket_of_read hread] at hcall
  generalize hs₁ : ({ s with peers := peers', rd := { s.rd with pr := .none } } : SourceSocket ρ) = s₁
    at hcall
  obtain ⟨hpeers, htimeout⟩ : s₁.peers = peers' ∧ s₁.rd.timeout = s.rd.timeout := by
    rw [← hs₁]
    exact ⟨rfl, rfl⟩
  rw [← hpeers, ← htimeout]
  cases hfin : pr.isFin with
  | true =>
    rw [afterRead_of_isFin config hfin] at hcall
    have hdisarms := afterFin_disarms config.mqttReadTimeout pr (s := s₁)
    cases out with
    | ok status =>
      obtain ⟨⟨vals, rfl⟩, hnone⟩ := hdisarms.of_ok hcall
      rw [hnone]
      exact .disarms _ _
    | err e =>
      rw [hdisarms.of_err hcall]
      exact .disarms _ _
    | panic => exact absurd rfl hreturns
  | false =>
    rw [afterRead_of_not_isFin config hfin (by rw [hcall]; exact hreturns)] at hcall
    cases harmed : s₁.rd.timeout with
    | none =>
      rw [afterIncomplete_of_none _ _ harmed] at hcall
      cases hcall
      exact .arms _
    | some d =>
      rcases lt_or_ge (Peers.now s₁.peers).1 d with hlt | hle
      · rw [afterIncomplete_of_ahead _ _ harmed hlt] at hcall
        cases hcall
        exact .expires hlt _
      · rw [afterIncomplete_of_passed _ _ harmed hle] at hcall
        cases hcall
        dsimp only
        rw [harmed]
        exact .waits hle

theorem PacketRead.timeout_eq {config : SourceConfig} {call : ReadCall}
    (h : PacketRead config s call t) : t.rd.timeout = call.armed := by
  cases h
  rfl

/-- A call that finds the deadline of the calls so far: it keeps the law only at that deadline, and then it
leaves the deadline as well. -/
theorem PacketRead.timely_iff {config : SourceConfig} {call : ReadCall} {hist : List ReadCall}
    (h : PacketRead config s call t)
    (hs : s.rd.timeout = ReadCall.deadline config.readSpan hist) :
    (ReadCall.Timely config.readSpan hist call ↔ ReadCall.OnTheDot config.readSpan hist call) ∧
      (ReadCall.OnTheDot config.readSpan hist call →
        t.rd.timeout = ReadCall.deadline config.readSpan (hist ++ [call])) := by
  have hacts := h.acts
  rw [hs] at hacts
  refine ⟨hacts.timely_iff, fun hdot => ?_⟩
  rw [h.timeout_eq, hacts.armed_eq hdot]

/-- A run keeps the law of the timeout exactly if every call that leaves a packet incomplete again is made
at the very instant of the deadline: before it the connection is given up, after it it is kept. -/
theorem packetReads_timely_iff {config : SourceConfig} {calls : List ReadCall}
    (h : PacketReads config s calls u) (hs : s.rd.timeout = none) :
    Transition.Each (ReadCall.Timely config.readSpan) [] calls ↔
      Transition.Each (ReadCall.OnTheDot config.readSpan) [] calls := by
  refine h.each_iff (P := fun hist s => s.rd.timeout = ReadCall.deadline config.readSpan hist) ?_ hs
  intro hist s call t hs hcall
  exact hcall.timely_iff hs

/-- A socket on which nothing comes in. -/
def stalled (time : ℕ) (timeout : Option ℕ) : SourceSocket Scripted :=
  ⟨⟨[], [], time⟩, ⟨.init [] 16, timeout, []⟩, [], []⟩

/-- A call at `time`, by what it does after the read. -/
theorem stalled_call {config : SourceConfig} {timeout : Option ℕ} {t : SourceSocket Scripted}
    {out : Outcome Error (QueueStatus Packet)} (before time : ℕ)
    (h : afterIncomplete config.mqttReadTimeout (.init [] 16)
      ⟨⟨[], [], time⟩, ⟨.none, timeout, []⟩, [], []⟩ = (out, t)) (hreturns : out ≠ .panic) :
    PacketRead config (stalled before timeout) ⟨time, false, disconnects out, t.rd.timeout⟩ t := by
  have hread : (stalled before timeout).rd.pr.read (Scripted.mk [] [] time) =
      .ok ((.init [] 16, true), Scripted.mk [] [] time) := rfl
  exact .intro hread ((readPacket_of_read hread).trans h) hreturns

theorem stalled_arms (config : SourceConfig) (time : ℕ) :
    PacketRead config (stalled time none) ⟨time, false, false, some (time + config.readSpan)⟩
      (stalled time (some (time + config.readSpan))) :=
  stalled_call time time (afterIncomplete_of_none _ _ rfl) (by simp)

theorem stalled_waits (config : SourceConfig) (before : ℕ) {d time : ℕ} (h : d ≤ time) :
    PacketRead config (stalled before (some d)) ⟨time, false, false, some d⟩
      (stalled time (some d)) :=
  stalled_call before time (afterIncomplete_of_passed _ _ rfl h) (by simp)

theorem stalled_expires (config : SourceConfig) (before : ℕ) {d time : ℕ} (h : time < d) :
    PacketRead config (stalled before (some d)) ⟨time, false, true, none⟩ (stalled time none) :=
  stalled_call before time (afterIncomplete_of_ahead _ _ rfl h) (by simp)

/-- Two calls on a connection that stalls, the second at the deadline. -/
theorem stalled_until_deadline (config : SourceConfig) (time : ℕ) :
    PacketReads config (stalled time none)
      [⟨time, false, false, some (time + config.readSpan)⟩,
        ⟨time + config.readSpan, false, false, some (time + config.readSpan)⟩]
      (stalled (time + config.readSpan) (some (time + config.readSpan))) :=
  .cons (stalled_arms config time) (.cons (stalled_waits config time le_rfl) (.nil _))

/-- The second before the deadline. -/
theorem stalled_early (config : SourceConfig) {time early : ℕ} (h : early < time + config.readSpan) :
    PacketReads config (stalled time none)
      [⟨time, false, false, some (time + config.readSpan)⟩, ⟨early, false, true, none⟩]
      (stalled early none) :=
  .cons (stalled_arms config time) (.cons (stalled_expires config time h) (.nil _))

/-- The second call comes exactly at the deadline, and waits. -/
theorem packetReads_timely_iff_at_deadline :
    PacketReads {} (stalled 0 none)
        [⟨0, false, false, some (0 + SourceConfig.readSpan {})⟩,
          ⟨0 + SourceConfig.readSpan {}, false, false, some (0 + SourceConfig.readSpan {})⟩]
        (stalled (0 + SourceConfig.readSpan {}) (some (0 + SourceConfig.readSpan {}))) ∧
      Transition.Each (ReadCall.Timely (SourceConfig.readSpan {})) []
        [⟨0, false, false, some (0 + SourceConfig.readSpan {})⟩,
          ⟨0 + SourceConfig.readSpan {}, false, false, some (0 + SourceConfig.readSpan {})⟩] := by
  have hcalls := stalled_until_deadline {} 0
  refine ⟨hcalls, (packetReads_timely_iff hcalls rfl).mpr ?_⟩
  exact ReadCall.each_onTheDot_pair _ 0

/-- One second after the first call the client has four more, and is disconnected. -/
theorem early_read_disconnects :
    ¬ ∀ (config : SourceConfig) (s u : SourceSocket Scripted) (calls : List ReadCall),
      s.rd.timeout = none → (calls.map ReadCall.instant).Pairwise (· ≤ ·) →
      PacketReads config s calls u → Transition.Each (ReadCall.Timely config.readSpan) [] calls := by
  intro hall
  have hfive : (5 : UInt32).toNat = 5 := rfl
  have hspan : 10 ^ 9 < 0 + SourceConfig.readSpan {} := by
    change 10 ^ 9 < 0 + (5 : UInt32).toNat * 10 ^ 9
    rw [hfive]
    norm_num
  have htimely := hall {} (stalled 0 none) _ _ rfl (by simp) (stalled_early {} hspan)
  exact ReadCall.not_timely_early hspan htimely.2.1

end SourceSocket
end Mqtr
