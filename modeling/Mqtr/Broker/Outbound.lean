import Mqtr.Broker.Session
import Mqtr.Core.Transition

/-! Messages on their way to a client: the back log of the session, the queue to the I/O thread, and
the index of the messages in flight. -/
namespace Mqtr
open Outcome Std

namespace Message

/-- The identifier under which a message is booked as in flight, if it is. -/
def bookedId : Message → Option UInt16
  | .packet _ _ _ packetId _ _ => some packetId
  | .clientAck _ | .localAck _ _ => none

/-- The message has a packet to send. -/
def Sendable : Message → Prop
  | .packet _ _ _ _ _ _ | .clientAck _ => True
  | .localAck _ _ => False

/-- The last of the messages that is booked under an identifier. -/
def latest (msgs : List Message) (id : UInt16) : Option Message :=
  msgs.reverse.find? fun m => m.bookedId = some id

theorem mapM_intoPacket {msgs : List Message} (h : ∀ m ∈ msgs, m.Sendable) :
    ∃ pkts, msgs.mapM intoPacket = .ok pkts ∧ pkts.length = msgs.length := by
  induction msgs with
  | nil => exact ⟨[], rfl, rfl⟩
  | cons m msgs ih =>
    obtain ⟨hm, hmsgs⟩ := List.forall_mem_cons.mp h
    obtain ⟨pkts, hpkts, hlen⟩ := ih hmsgs
    rw [List.mapM_cons, hpkts]
    cases m with
    | localAck => exact hm.elim
    | packet _ _ _ _ _ pkt => exact ⟨pkt :: pkts, rfl, by simp [hlen]⟩
    | clientAck pkt => exact ⟨pkt :: pkts, rfl, by simp [hlen]⟩

theorem sendable_of_mapM {msgs : List Message} {pkts : List Packet}
    (h : msgs.mapM intoPacket = .ok pkts) : ∀ m ∈ msgs, m.Sendable := by
  induction msgs generalizing pkts with
  | nil => simp
  | cons m msgs ih =>
    rw [List.mapM_cons] at h
    obtain ⟨pkt, hpkt, h⟩ := bind_eq_ok.mp h
    obtain ⟨rest, hrest, -⟩ := bind_eq_ok.mp h
    refine List.forall_mem_cons.mpr ⟨?_, ih hrest⟩
    cases m with
    | localAck => cases hpkt
    | packet => trivial
    | clientAck => trivial

end Message

theorem SendQueue.values_trySends {α : Type} (queue : SendQueue) (vals : List α) :
    (queue.trySends vals).values = vals.drop queue.room := by
  unfold trySends
  split_ifs with hroom hclosed
  · exact (List.drop_eq_nil_of_le hroom).symm
  · rfl
  · rfl

namespace Session

/-- What is found in the index after booking a list of messages. -/
theorem getElem?_bookInflight (msgs : List Message) (index : ExtTreeMap UInt16 Message)
    (id : UInt16) :
    (msgs.foldl bookInflight index)[id]? = (Message.latest msgs id).or index[id]? := by
  induction msgs generalizing index with
  | nil => rfl
  | cons m msgs ih =>
    have hone : (bookInflight index m)[id]? = ((Message.latest [m] id).or index[id]?) := by
      cases m with
      | packet _ _ _ packetId _ _ =>
        by_cases hid : packetId = id
        · simp [bookInflight, Message.latest, Message.bookedId, hid]
        · simp [bookInflight, Message.latest, Message.bookedId, hid, ExtTreeMap.getElem?_insert]
      | clientAck | localAck => simp [bookInflight, Message.latest, Message.bookedId]
    have hsplit : Message.latest (m :: msgs) id =
        (Message.latest msgs id).or (Message.latest [m] id) := by
      simp [Message.latest]
    rw [List.foldl_cons, ih, hone, hsplit, Option.or_assoc]

theorem size_bookInflight_le (msgs : List Message) (index : ExtTreeMap UInt16 Message) :
    (msgs.foldl bookInflight index).size ≤ index.size + (msgs.filterMap Message.bookedId).length := by
  induction msgs generalizing index with
  | nil => simp
  | cons m msgs ih =>
    have hrest := ih (bookInflight index m)
    cases m with
    | packet _ _ _ packetId _ _ =>
      have hinsert := ExtTreeMap.size_insert_le (t := index) (k := packetId)
        (v := .packet ‹_› ‹_› ‹_› packetId ‹_› ‹_›)
      simp only [bookInflight] at hrest
      simp only [List.foldl_cons, bookInflight, Message.bookedId, List.filterMap_cons,
        List.length_cons]
      omega
    | clientAck | localAck =>
      simpa [bookInflight, Message.bookedId, List.filterMap_cons] using hrest

variable {s s' : Session} {queue : SendQueue}

/-- The session after a flush that is not blocked: what the queue takes stays in the back log, and
what it refuses is booked. -/
def afterFlush (s : Session) (queue : SendQueue) : Session :=
  { s with cout := { s.cout with
    index := (s.cout.backLog.drop queue.room).foldl bookInflight s.cout.index
    backLog := s.cout.backLog.take queue.room } }

theorem flushMessages_eq (queue : SendQueue)
    (hopen : s.cout.index.size ≤ s.clientReceiveMaximum.toNat)
    (hsend : ∀ m ∈ s.cout.backLog, m.Sendable) :
    ∃ status, s.flushMessages queue = .ok (s.afterFlush queue, status) := by
  obtain ⟨pkts, hpkts, hlen⟩ := Message.mapM_intoPacket hsend
  refine ⟨(queue.trySends pkts).emptied, ?_⟩
  -- as many messages are cut off as the queue refused
  have hcut : s.cout.backLog.length - (queue.trySends pkts).values.length =
      min queue.room s.cout.backLog.length := by
    rw [SendQueue.values_trySends, List.length_drop, hlen]
    omega
  have htake : s.cout.backLog.take (min queue.room s.cout.backLog.length) =
      s.cout.backLog.take queue.room := by
    rw [← List.take_take, List.take_length]
  have hdrop : s.cout.backLog.drop (min queue.room s.cout.backLog.length) =
      s.cout.backLog.drop queue.room := by
    rcases Nat.le_total queue.room s.cout.backLog.length with hle | hle
    · rw [Nat.min_eq_left hle]
    · rw [Nat.min_eq_right hle, List.drop_length, List.drop_eq_nil_of_le hle]
  unfold flushMessages
  rw [if_neg (by omega)]
  dsimp only
  rw [hpkts, ok_bind, List.splitAt_eq, hcut, htake, hdrop]
  rfl

/-- A flush that returns was blocked, or every message of the back log could be sent. -/
theorem flushMessages_cases {status : QueueStatus Packet}
    (h : s.flushMessages queue = .ok (s', status)) :
    s.clientReceiveMaximum.toNat < s.cout.index.size ∧ s' = s ∨
      (∀ m ∈ s.cout.backLog, m.Sendable) ∧ s' = s.afterFlush queue := by
  by_cases hopen : s.cout.index.size ≤ s.clientReceiveMaximum.toNat
  · right
    have hloop := h
    unfold flushMessages at hloop
    rw [if_neg (by omega)] at hloop
    obtain ⟨pkts, hpkts, -⟩ := bind_eq_ok.mp hloop
    have hsend := Message.sendable_of_mapM hpkts
    obtain ⟨status', heq⟩ := flushMessages_eq queue hopen hsend
    rw [heq] at h
    cases h
    exact ⟨hsend, rfl⟩
  · left
    unfold flushMessages at h
    rw [if_pos (by omega)] at h
    cases h
    exact ⟨by omega, rfl⟩

/-- What the queue takes of the back log is booked as in flight, each message under its identifier, and
the rest stays in the back log. -/
def Conserves (s : Session) (queue : SendQueue) : Prop :=
  ∃ s' status accepted rest, s.flushMessages queue = .ok (s', status) ∧
    s.cout.backLog = accepted ++ rest ∧ accepted = s.cout.backLog.take queue.room ∧
    (∀ id : UInt16, s'.cout.index[id]? = (Message.latest accepted id).or s.cout.index[id]?) ∧
    s'.cout.backLog = rest

/-- A flush conserves the messages exactly if what the queue takes and what it refuses are the same:
the one is treated as the other. -/
theorem flushMessages_conserves_iff
    (hopen : s.cout.index.size ≤ s.clientReceiveMaximum.toNat) :
    s.Conserves queue ↔ (∀ m ∈ s.cout.backLog, m.Sendable) ∧
      s.cout.backLog.take queue.room = s.cout.backLog.drop queue.room := by
  constructor
  · rintro ⟨s', status, accepted, rest, hflush, hsplit, haccepted, -, hrest⟩
    have hkept : rest = s.cout.backLog.drop queue.room := by
      have hboth : accepted ++ rest = accepted ++ s.cout.backLog.drop queue.room := by
        rw [← hsplit, haccepted, List.take_append_drop]
      exact List.append_cancel_left hboth
    rcases flushMessages_cases hflush with ⟨hblocked, -⟩ | ⟨hsend, rfl⟩
    · omega
    · exact ⟨hsend, hrest.trans hkept⟩
  · rintro ⟨hsend, hsame⟩
    obtain ⟨status, heq⟩ := flushMessages_eq queue hopen hsend
    refine ⟨_, status, _, _, heq, (List.take_append_drop queue.room _).symm, rfl, ?_, hsame⟩
    intro id
    rw [afterFlush, getElem?_bookInflight, hsame]

/-- A session that has just been started for a client with this receive maximum. -/
def started (receiveMaximum : UInt16) : Session :=
  { idle "alice" with clientReceiveMaximum := receiveMaximum }

/-- A PUBLISH for the client, with its identifier. -/
def outgoing (packetId : UInt16) : Message :=
  .packet ⟨"bob"⟩ 0 1 packetId [] (.publish ⟨false, .atMostOnce, false, ⟨"news"⟩, some packetId, none,
    none⟩)

/-- The back log has one message twice, and the queue has room for one. -/
theorem flushMessages_conserves_iff_twice :
    ((started 1).pushBackLog [outgoing 1, outgoing 1]).Conserves ⟨1, false⟩ :=
  (flushMessages_conserves_iff (by decide)).mpr
    ⟨by simp [started, idle, pushBackLog, outgoing, Message.Sendable], rfl⟩

/-- The queue takes the only message of the back log, and the message stays there. -/
theorem flushMessages_keeps_sent :
    ¬ ∀ (s : Session) (queue : SendQueue), s.cout.index.size ≤ s.clientReceiveMaximum.toNat →
      (∀ m ∈ s.cout.backLog, m.Sendable) → s.Conserves queue := by
  intro hall
  obtain ⟨s', status, accepted, rest, hflush, hsplit, haccepted, -, hrest⟩ :=
    hall ((started 1).pushBackLog [outgoing 1]) ⟨1, false⟩ (by decide)
      (by simp [started, idle, pushBackLog, outgoing, Message.Sendable])
  rcases flushMessages_cases hflush with ⟨hblocked, -⟩ | ⟨-, rfl⟩
  · exact absurd hblocked (by decide)
  · have hsent : accepted = [outgoing 1] := haccepted
    have hkept : rest = [outgoing 1] := hrest.symm
    rw [hsent, hkept] at hsplit
    exact absurd hsplit (by simp [started, idle, pushBackLog])

/-- Of the other session only what is not in flight has changed. -/
def SameWindow (s s' : Session) : Prop :=
  s'.cout.index = s.cout.index ∧ s'.clientReceiveMaximum = s.clientReceiveMaximum

theorem coutPublish_sameWindow {msg : Message} {msgs : List Message}
    (h : s.coutPublish msg = .ok (msgs, s')) : s.SameWindow s' := by
  unfold coutPublish at h
  split at h
  · obtain ⟨serverQos, -, h⟩ := bind_eq_ok.mp h
    change s.SameWindow (msgs, s').2
    rw [← Outcome.ok.inj h]
    refine List.foldlRecOn (motive := fun (out : List Message × Session) => s.SameWindow out.2)
      _ _ ⟨rfl, rfl⟩ ?_
    intro out hout subscr _
    exact hout
  · cases h

theorem inMessage_sameWindow {msg : Message} (h : s.inMessage msg = .ok s') : s.SameWindow s' := by
  cases msg with
  | clientAck =>
    cases h
    exact ⟨rfl, rfl⟩
  | packet =>
    obtain ⟨⟨msgs, s₁⟩, hout, h⟩ := bind_eq_ok.mp h
    have hsame := coutPublish_sameWindow hout
    cases h
    exact hsame
  | localAck => cases h

theorem inMessages_sameWindow {msgs : List Message} {status : QueueStatus Message}
    (h : s.inMessages msgs = .ok (s', status)) : s.SameWindow s' := by
  obtain ⟨s₁, hfold, h⟩ := bind_eq_ok.mp h
  obtain ⟨size, -, h⟩ := bind_eq_ok.mp h
  have hsame : s.SameWindow s₁ := by
    refine foldlM_invariant (P := s.SameWindow) ?_ ⟨rfl, rfl⟩ hfold
    intro t msg _ t' ht hmsg
    have hstep := inMessage_sameWindow hmsg
    exact ⟨hstep.1.trans ht.1, hstep.2.trans ht.2⟩
  split_ifs at h
  · cases h
    exact hsame
  · cases h
    exact hsame

inductive OutEvent where
  | inMessages (msgs : List Message)
  | flushMessages (queue : SendQueue)
  deriving DecidableEq

/-- A call that aborts has no outcome. -/
def outStep (s : Session) : OutEvent → Option Session
  | .inMessages msgs => (s.inMessages msgs).toOption.map Prod.fst
  | .flushMessages queue => (s.flushMessages queue).toOption.map Prod.fst

/-- The messages in flight fit the receive maximum of the client. -/
def WithinWindow (s : Session) : Prop := s.cout.index.size ≤ s.clientReceiveMaximum.toNat

/-- A flush is refused no more PUBLISH messages than the window has left. -/
def RefusedFit (s : Session) : OutEvent → Prop
  | .inMessages _ => True
  | .flushMessages queue =>
    s.cout.index.size + ((s.cout.backLog.drop queue.room).filterMap Message.bookedId).length ≤
      s.clientReceiveMaximum.toNat

instance (s : Session) : Decidable s.WithinWindow := inferInstanceAs (Decidable (_ ≤ _))

instance (s : Session) : DecidablePred s.RefusedFit
  | .inMessages _ => inferInstanceAs (Decidable True)
  | .flushMessages _ => inferInstanceAs (Decidable (_ ≤ _))

theorem outStep_withinWindow {e : OutEvent} (h : s.WithinWindow) (hfit : s.RefusedFit e)
    (hs : s.outStep e = some s') : s'.WithinWindow := by
  cases e with
  | inMessages msgs =>
    obtain ⟨⟨s₁, status⟩, hin, rfl⟩ := Option.map_eq_some_iff.mp hs
    obtain ⟨hindex, hmax⟩ := inMessages_sameWindow (toOption_eq_some.mp hin)
    rw [WithinWindow, hindex, hmax]
    exact h
  | flushMessages queue =>
    obtain ⟨⟨s₁, status⟩, hflush, rfl⟩ := Option.map_eq_some_iff.mp hs
    rcases flushMessages_cases (toOption_eq_some.mp hflush) with ⟨-, heq⟩ | ⟨-, heq⟩
    · rw [heq]
      exact h
    · rw [heq]
      exact (size_bookInflight_le _ _).trans hfit

/-- Along any run in which no flush is refused more PUBLISH messages than the window has left, the
messages in flight stay within the receive maximum. -/
theorem run_withinWindow {events : List OutEvent} (hs : s.WithinWindow)
    (hfit : Transition.Along outStep RefusedFit s events)
    (hrun : Transition.run outStep s events = some s') : s'.WithinWindow :=
  Transition.run_invariant_of_along (fun _ _ _ => outStep_withinWindow) hs hfit hrun

/-- A PUBLISH for two subscriptions of the client. -/
def forTwoSubscriptions : Message :=
  .packet ⟨"bob"⟩ 0 1 0
    [⟨⟨"news"⟩, ⟨"alice"⟩, 0, none, .atMostOnce, false, false, .onEverySubscribe⟩,
      ⟨⟨"#"⟩, ⟨"alice"⟩, 0, none, .atMostOnce, false, false, .onEverySubscribe⟩]
    (.publish ⟨false, .atMostOnce, false, ⟨"news"⟩, none, none, none⟩)

/-- A full queue refuses two messages, and both are booked for a client that allows two. -/
theorem run_withinWindow_refused : ∃ s',
    Transition.run outStep (started 2)
      [.inMessages [forTwoSubscriptions], .flushMessages ⟨0, false⟩] = some s' ∧
      s'.cout.index.size = 2 ∧ s'.WithinWindow := by
  have heval : (Transition.run outStep (started 2)
      [.inMessages [forTwoSubscriptions], .flushMessages ⟨0, false⟩]).map
        (fun s => s.cout.index.size) = some 2 := by rfl
  obtain ⟨s', hrun, hsize⟩ := Option.map_eq_some_iff.mp heval
  exact ⟨s', hrun, hsize, run_withinWindow (by decide) (by decide) hrun⟩

/-- A full queue refuses two messages, and both are booked for a client that allows one. -/
theorem window_exceeded :
    ¬ ∀ (s s' : Session) (events : List OutEvent), s.WithinWindow →
      Transition.run outStep s events = some s' → s'.WithinWindow := by
  intro hall
  have heval : (Transition.run outStep (started 1)
      [.inMessages [forTwoSubscriptions], .flushMessages ⟨0, false⟩]).any
        fun s => s.cout.index.size == 2 && s.clientReceiveMaximum == 1 := by decide
  obtain ⟨s', hrun, hs'⟩ := (Option.any_eq_true _ _).mp heval
  simp only [Bool.and_eq_true, beq_iff_eq] at hs'
  have hwithin := hall (started 1) s' _ (by decide) hrun
  rw [WithinWindow, hs'.1, hs'.2] at hwithin
  exact absurd hwithin (by decide)

end Session
end Mqtr
