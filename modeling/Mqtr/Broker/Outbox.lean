import Mqtr.Broker.Outbound

/-! What becomes of the messages for a client over the life of its session. A flush keeps in the back
log what the queue of the I/O thread takes, and books as in flight what it refuses; nothing takes a
message out of the index. -/
namespace Mqtr
open Outcome Transition Std

namespace Session
variable {s s' : Session}

theorem flushMessages_of_closed (h : ¬ s.WithinWindow) (queue : SendQueue) :
    s.flushMessages queue = .ok (s, .block []) :=
  if_pos (Nat.not_le.mp h)

theorem afterFlush_of_room {queue : SendQueue} (h : s.cout.backLog.length ≤ queue.room) :
    s.afterFlush queue = s := by
  rw [afterFlush, List.drop_eq_nil_of_le h, List.take_of_length_le h]
  rfl

theorem coutPublish_sendable {msg : Message} {msgs : List Message}
    (h : s.coutPublish msg = .ok (msgs, s')) :
    s'.cout.backLog = s.cout.backLog ∧ s'.config = s.config ∧ ∀ m ∈ msgs, m.Sendable := by
  unfold coutPublish at h
  split at h
  · obtain ⟨serverQos, -, h⟩ := bind_eq_ok.mp h
    have hout := Outcome.ok.inj h
    change (msgs, s').2.cout.backLog = _ ∧ (msgs, s').2.config = _ ∧ ∀ m ∈ (msgs, s').1, m.Sendable
    rw [← hout]
    refine List.foldlRecOn (motive := fun (out : List Message × Session) =>
      out.2.cout.backLog = s.cout.backLog ∧ out.2.config = s.config ∧ ∀ m ∈ out.1, m.Sendable)
      _ _ ⟨rfl, rfl, by simp⟩ ?_
    intro out hout subscr _
    obtain ⟨hlog, hconfig, hmsgs⟩ := hout
    refine ⟨hlog, hconfig, ?_⟩
    intro m hm
    rcases List.mem_append.mp hm with hm | hm
    · exact hmsgs m hm
    · obtain rfl := List.mem_singleton.mp hm
      trivial
  · cases h

/-- Messages that can be sent are put at the end of the back log. -/
def Queues (s s' : Session) : Prop :=
  s'.config = s.config ∧
    ∃ new, s'.cout.backLog = s.cout.backLog ++ new ∧ ∀ m ∈ new, m.Sendable

theorem inMessage_queues {msg : Message} (h : s.inMessage msg = .ok s') : s.Queues s' := by
  cases msg with
  | clientAck pkt =>
    cases h
    exact ⟨rfl, [.clientAck pkt], rfl, by simp [Message.Sendable]⟩
  | packet =>
    obtain ⟨⟨msgs, s₁⟩, hout, h⟩ := bind_eq_ok.mp h
    obtain ⟨hlog, hconfig, hmsgs⟩ := coutPublish_sendable hout
    cases h
    exact ⟨hconfig, msgs, by rw [pushBackLog, hlog], hmsgs⟩
  | localAck => cases h

theorem Queues.trans {s'' : Session} (h : s.Queues s') (h' : s'.Queues s'') : s.Queues s'' := by
  obtain ⟨hconfig, new, hlog, hnew⟩ := h
  obtain ⟨hconfig', new', hlog', hnew'⟩ := h'
  refine ⟨hconfig'.trans hconfig, new ++ new', by rw [hlog', hlog, List.append_assoc], ?_⟩
  intro m hm
  rcases List.mem_append.mp hm with hm | hm
  · exact hnew m hm
  · exact hnew' m hm

/-- A call of `in_messages` queues, and reports the client exactly if the back log is too long. -/
theorem inMessages_queues {msgs : List Message} {status : QueueStatus Message}
    (h : s.inMessages msgs = .ok (s', status)) : s.Queues s' ∧
      ∃ size, s.config.mqttPktBatchSize = .ok size ∧
        (status = .disconnected [] ↔ size.toNat * 2 < s'.cout.backLog.length) := by
  obtain ⟨s₁, hfold, h⟩ := bind_eq_ok.mp h
  obtain ⟨size, hsize, h⟩ := bind_eq_ok.mp h
  have hqueues : s.Queues s₁ := by
    refine foldlM_invariant (P := s.Queues) ?_ ⟨rfl, [], by simp, by simp⟩ hfold
    intro t msg _ t' ht hmsg
    exact ht.trans (inMessage_queues hmsg)
  have hbatch : s.config.mqttPktBatchSize = .ok size := by
    rw [← hqueues.1]
    exact hsize
  split_ifs at h with hlong
  · cases h
    exact ⟨hqueues, size, hbatch, iff_of_true rfl hlong⟩
  · cases h
    exact ⟨hqueues, size, hbatch, iff_of_false (by simp) hlong⟩

end Session

/-- A session, with a record of the messages put into its back log, of what the queue took at each
flush, and of what it refused. Nothing depends on the record. -/
structure Outbox where
  session : Session
  queued : List Message
  sent : List (List Message)
  refused : List Message

namespace Outbox
variable {o o' : Outbox}

def start (session : Session) : Outbox := ⟨session, [], [], []⟩

def step (o : Outbox) : Session.OutEvent → Option Outbox
  | .inMessages msgs => (o.session.inMessages msgs).toOption.map fun r =>
    { o with
      session := r.1
      queued := o.queued ++ r.1.cout.backLog.drop o.session.cout.backLog.length }
  | .flushMessages queue => (o.session.flushMessages queue).toOption.map fun r =>
    if o.session.WithinWindow then
      { o with
        session := r.1
        sent := o.sent ++ [o.session.cout.backLog.take queue.room]
        refused := o.refused ++ o.session.cout.backLog.drop queue.room }
    else { o with session := r.1 }

/-- What a step does. -/
inductive Took (o : Outbox) : Session.OutEvent → Outbox → Prop
  | queued {msgs new : List Message} {session : Session} {status : QueueStatus Message}
      (hin : o.session.inMessages msgs = .ok (session, status))
      (hlog : session.cout.backLog = o.session.cout.backLog ++ new)
      (hnew : ∀ m ∈ new, m.Sendable) (hsame : o.session.SameWindow session) :
      Took o (.inMessages msgs) { o with session := session, queued := o.queued ++ new }
  | flushed {queue : SendQueue} (hopen : o.session.WithinWindow) :
      Took o (.flushMessages queue)
        { o with
          session := o.session.afterFlush queue
          sent := o.sent ++ [o.session.cout.backLog.take queue.room]
          refused := o.refused ++ o.session.cout.backLog.drop queue.room }
  | held {queue : SendQueue} (hclosed : ¬ o.session.WithinWindow) : Took o (.flushMessages queue) o

theorem took_of_step {e : Session.OutEvent} (h : o.step e = some o') : Took o e o' := by
  cases e with
  | inMessages msgs =>
    obtain ⟨⟨session, status⟩, hin, rfl⟩ := Option.map_eq_some_iff.mp h
    rw [toOption_eq_some] at hin
    obtain ⟨⟨-, new, hlog, hnew⟩, -⟩ := Session.inMessages_queues hin
    have hdrop : session.cout.backLog.drop o.session.cout.backLog.length = new := by
      rw [hlog, List.drop_left]
    rw [hdrop]
    exact .queued hin hlog hnew (Session.inMessages_sameWindow hin)
  | flushMessages queue =>
    obtain ⟨⟨session, status⟩, hflush, rfl⟩ := Option.map_eq_some_iff.mp h
    rw [toOption_eq_some] at hflush
    by_cases hopen : o.session.WithinWindow
    · rw [if_pos hopen]
      rcases Session.flushMessages_cases hflush with ⟨hclosed, -⟩ | ⟨-, rfl⟩
      · exact absurd hopen (Nat.not_le.mpr hclosed)
      · exact .flushed hopen
    · rw [if_neg hopen]
      rw [Session.flushMessages_of_closed hopen] at hflush
      cases hflush
      exact .held hopen

/-- Every message ever queued is in the back log or was refused; those in the back log are in their
order, and those refused are the messages in flight. -/
structure Inv (o : Outbox) : Prop where
  sendable : ∀ m ∈ o.session.cout.backLog, m.Sendable
  accounted : (o.session.cout.backLog ++ o.refused).Perm o.queued
  ordered : o.session.cout.backLog.Sublist o.queued
  inFlight : ∀ id : UInt16, o.session.cout.index[id]? = Message.latest o.refused id

theorem start_inv {session : Session} (hlog : session.cout.backLog = [])
    (hindex : session.cout.index = ∅) : (start session).Inv where
  sendable := by simp [start, hlog]
  accounted := by simp [start, hlog]
  ordered := by simp [start, hlog]
  inFlight := by simp [start, hindex, Message.latest]

theorem Inv.queue (h : o.Inv) {new : List Message} {session : Session}
    (hlog : session.cout.backLog = o.session.cout.backLog ++ new)
    (hnew : ∀ m ∈ new, m.Sendable) (hsame : o.session.SameWindow session) :
    Inv { o with session := session, queued := o.queued ++ new } where
  sendable := by
    rw [hlog]
    intro m hm
    rcases List.mem_append.mp hm with hm | hm
    · exact h.sendable m hm
    · exact hnew m hm
  accounted := by
    rw [hlog, List.append_assoc]
    refine (List.perm_append_comm.append_left _).trans ?_
    rw [← List.append_assoc]
    exact h.accounted.append_right new
  ordered := by
    rw [hlog]
    exact h.ordered.append_right new
  inFlight := by
    rw [hsame.1]
    exact h.inFlight

theorem Inv.flush (h : o.Inv) (queue : SendQueue) (sent : List (List Message)) :
    Inv { o with
      session := o.session.afterFlush queue
      sent := sent
      refused := o.refused ++ o.session.cout.backLog.drop queue.room } where
  sendable m hm := h.sendable m (List.mem_of_mem_take hm)
  accounted := by
    change (o.session.cout.backLog.take queue.room ++
      (o.refused ++ o.session.cout.backLog.drop queue.room)).Perm o.queued
    refine List.Perm.trans ?_ h.accounted
    conv_rhs => rw [← List.take_append_drop queue.room o.session.cout.backLog, List.append_assoc]
    exact List.perm_append_comm.append_left _
  ordered := (List.take_sublist ..).trans h.ordered
  inFlight id := by
    change ((o.session.cout.backLog.drop queue.room).foldl Session.bookInflight
      o.session.cout.index)[id]? = _
    rw [Session.getElem?_bookInflight, h.inFlight id]
    simp [Message.latest, List.find?_append]

theorem step_inv {e : Session.OutEvent} (h : o.Inv) (hs : o.step e = some o') : o'.Inv := by
  cases took_of_step hs with
  | queued _ hlog hnew hsame => exact h.queue hlog hnew hsame
  | flushed => exact h.flush _ _
  | held => exact h

/-- A queue without room, at first, for one of two messages. -/
def crowded : List Session.OutEvent :=
  [.inMessages [Session.forTwoSubscriptions], .flushMessages ⟨1, false⟩, .flushMessages ⟨1, false⟩]

/-- The queue has room for the whole back log. -/
def HasRoom (o : Outbox) : Session.OutEvent → Prop
  | .inMessages _ => True
  | .flushMessages queue => o.session.cout.backLog.length ≤ queue.room

instance (o : Outbox) : DecidablePred o.HasRoom
  | .inMessages _ => inferInstanceAs (Decidable True)
  | .flushMessages _ => inferInstanceAs (Decidable (_ ≤ _))

theorem step_refused {e : Session.OutEvent} (h : o.refused = []) (hroom : o.HasRoom e)
    (hs : o.step e = some o') : o'.refused = [] := by
  cases took_of_step hs with
  | queued => exact h
  | flushed =>
    change o.refused ++ _ = []
    rw [h, List.drop_eq_nil_of_le hroom]
    rfl
  | held => exact h

/-- With nothing refused, the back log is the history. -/
theorem Inv.backLog_eq (h : o.Inv) (hrefused : o.refused = []) :
    o.session.cout.backLog = o.queued := by
  have hlen := h.accounted.length_eq
  rw [hrefused, List.append_nil] at hlen
  exact h.ordered.eq_of_length hlen

theorem Inv.index_eq (h : o.Inv) (hrefused : o.refused = []) : o.session.cout.index = ∅ := by
  refine ExtTreeMap.ext_getElem? fun id => ?_
  rw [h.inFlight id, hrefused]
  simp [Message.latest]

/-- Even if the queue always has room, a flush sends everything again that was ever queued for the
client, from the first message on, and leaves the session as it was; the client is reported as too slow
exactly if the messages ever queued for it are more than twice the batch size. -/
theorem whole_history_sent_again {session : Session} (hlog : session.cout.backLog = [])
    (hindex : session.cout.index = ∅) {events : List Session.OutEvent}
    (hroom : Along step HasRoom (start session) events)
    (hrun : run step (start session) events = some o) :
    (∀ queue : SendQueue, o.queued.length ≤ queue.room →
      o.step (.flushMessages queue) = some { o with sent := o.sent ++ [o.queued] }) ∧
    ∀ msgs o', o.step (.inMessages msgs) = some o' →
      ∃ size status, o.session.config.mqttPktBatchSize = .ok size ∧
        o.session.inMessages msgs = .ok (o'.session, status) ∧
        (status = .disconnected [] ↔ size.toNat * 2 < o'.queued.length) := by
  have hinv : o.Inv := run_invariant (fun _ _ _ => step_inv) (start_inv hlog hindex) hrun
  have hrefused : o.refused = [] :=
    run_invariant_of_along (P := fun t => t.refused = []) (fun _ _ _ => step_refused) rfl hroom hrun
  have hhist := hinv.backLog_eq hrefused
  refine ⟨?_, ?_⟩
  · intro queue hfits
    have hopen : o.session.WithinWindow := by
      rw [Session.WithinWindow, hinv.index_eq hrefused]
      exact Nat.zero_le _
    have hlen : o.session.cout.backLog.length ≤ queue.room := by rwa [hhist]
    obtain ⟨status, hflush⟩ := Session.flushMessages_eq queue hopen hinv.sendable
    rw [Session.afterFlush_of_room hlen] at hflush
    simp only [step, hflush, toOption, Option.map_some, if_pos hopen, hhist,
      List.take_of_length_le hfits, List.drop_eq_nil_of_le hfits, List.append_nil]
  · intro msgs o' hs
    have hanyway : o.HasRoom (.inMessages msgs) := trivial
    have hafter := (step_inv hinv hs).backLog_eq (step_refused hrefused hanyway hs)
    obtain ⟨⟨session', status⟩, hin, rfl⟩ := Option.map_eq_some_iff.mp hs
    rw [toOption_eq_some] at hin
    obtain ⟨-, size, hsize, hslow⟩ := Session.inMessages_queues hin
    refine ⟨size, status, hsize, hin, ?_⟩
    rw [hslow, ← hafter]

def roomy : List Session.OutEvent :=
  [.inMessages [Session.forTwoSubscriptions], .flushMessages ⟨9, false⟩,
    .inMessages [Session.forTwoSubscriptions]]

/-- The second flush sends the two messages of the first one again. -/
theorem whole_history_sent_again_roomy :
    ∃ o, run step (start (Session.started 1)) roomy = some o ∧ o.sent.map List.length = [2] ∧
      o.queued.length = 4 ∧ o.step (.flushMessages ⟨9, false⟩) =
        some { o with sent := o.sent ++ [o.queued] } := by
  have hrun : (run step (start (Session.started 1)) roomy).any (fun o =>
      o.sent.map List.length == [2] && o.queued.length == 4) = true := by
    decide
  obtain ⟨o, hrun, ho⟩ := (Option.any_eq_true _ _).mp hrun
  simp only [Bool.and_eq_true, beq_iff_eq] at ho
  have hroom : Along step HasRoom (start (Session.started 1)) roomy := by
    decide
  refine ⟨o, hrun, ho.1, ho.2, ?_⟩
  exact (whole_history_sent_again rfl rfl hroom hrun).1 ⟨9, false⟩ (by rw [ho.2]; decide)

end Outbox
end Mqtr
