import Mqtr.Broker.Teardown

/-! A shard and its I/O thread as two threads. When the shard adds or drops a connection it sends a
request and waits for the answer, while the I/O thread goes on with its sockets and may find some of
them failed before it comes to the request, or between its answer and the shard's next step. -/
namespace Mqtr
open Outcome Std Transition

namespace Shard

/-- The beginning of `handle_add_session`: the session of the new connection, unless its CONNACK did not
fit into the queue. -/
def openSession (self : Shard) (args : AddSessionArgs) : Result (Option Session) := do
  let size ← self.config.mqttPktBatchSize
  let session ← Session.start args.clientId args.addr self.config args.pkt
  let connAck ← session.successAck args.pkt
  let (session, _) ← session.inMessages [.clientAck (.connAck connAck)]
  let (session, status) ← session.flushMessages ⟨size.toNat, false⟩
  match status with
  | .disconnected _ | .block _ => .ok none
  | .ok _ => .ok (some session)

/-- The rest of it: take over from a session that is there, and add the connection. -/
def installSession (self : Shard) (args : AddSessionArgs) : Option Session → Result Shard
  | none => .ok self
  | some session => do
    let self ← self.nukeSession args.clientId args.addr
    .ok { self with
      miot := self.miot.handleAddConnection args.clientId args.addr
      sessions := self.sessions.insert args.clientId session }

theorem handleAddSession_eq (self : Shard) (args : AddSessionArgs) :
    self.handleAddSession args = self.openSession args >>= self.installSession args := by
  simp only [handleAddSession, openSession, bind_assoc]
  congr 1; funext size
  congr 1; funext session
  congr 1; funext connAck
  congr 1; funext x
  congr 1; funext y
  obtain ⟨session, status⟩ := y
  cases status <;> rfl

/-- The error that goes with the connection of a session that is taken over. -/
def takenOver (self : Shard) (addr : String) : Error :=
  ⟨.sessionTakenOver, self.shardPrefix ++ " client " ++ addr, some .sessionTakenOver⟩

/-- Flush the connection that the I/O thread has given back, if it had one. -/
def flushRemoved (self : Shard) (socket : Option Socket) (e : Error) : Result Shard :=
  match socket with
  | some socket => self.handleFlushConnection socket e
  | none => .ok self

theorem dropConnection_eq (self : Shard) (clientId : ClientID) (e : Error) :
    self.dropConnection clientId e =
      flushRemoved { self with miot := (self.miot.handleRemoveConnection clientId).2 }
        self.miot.conns[clientId]? e := by
  unfold dropConnection flushRemoved
  cases h : self.miot.conns[clientId]? <;> simp [Miot.handleRemoveConnection, h]

end Shard

/-- Where the thread of a shard stands in a call to its I/O thread. The socket is the answer to
`remove_connection`. -/
inductive Call where
  | idle
  | removing (args : AddSessionArgs) (session : Session)
  | removed (args : AddSessionArgs) (session : Session) (socket : Option Socket)
  | adding (args : AddSessionArgs) (session : Session)
  | added (args : AddSessionArgs) (session : Session) (token : ℕ)
  | dropping (clientId : ClientID) (err : Error)
  | dropped (clientId : ClientID) (err : Error) (socket : Option Socket)

def Call.isIdle : Call → Bool
  | .idle => true
  | _ => false

theorem Call.isIdle_iff {call : Call} : call.isIdle = true ↔ call = .idle := by
  cases call <;> simp [isIdle]

structure TwoThreads where
  control : Control
  call : Call

namespace TwoThreads

inductive Event where
  | connect (args : AddSessionArgs)
  | fail (clientId : ClientID) (err : Error)
  /-- The shard takes the first request of its queue. -/
  | process
  | subscribe (clientId : ClientID) (sub : Subscribe)
  | drop (clientId : ClientID) (err : Error)
  /-- The I/O thread handles the request of the shard. -/
  | serve
  /-- The shard has its answer. -/
  | resume

def spawn (config : Config) (shardId : UInt32) : TwoThreads := ⟨Control.spawn config shardId, .idle⟩

/-- `handle_add_session` up to its first request to the I/O thread. -/
def beginAdd (s : Control) (queue : List Request) (args : AddSessionArgs) : Result TwoThreads := do
  match ← s.shard.openSession args with
  | none => .ok ⟨{ s with queue := queue }, .idle⟩
  | some session =>
    match s.shard.sessions[args.clientId]? with
    | some old => do
      let topicFilters ← old.removeTopicFilters s.shard.topicFilters
      let shard : Shard :=
        { s.shard with
          sessions := s.shard.sessions.erase args.clientId, topicFilters := topicFilters }
      .ok ⟨{ s with shard := shard, queue := queue }, .removing args session⟩
    | none => .ok ⟨{ s with queue := queue }, .adding args session⟩

def process (s : Control) : Result TwoThreads :=
  match s.queue with
  | [] => .panic
  | .addSession args :: queue => beginAdd s queue args
  | .flushConnection socket e :: queue => do
    let s ← s.handle queue (.flushConnection socket e)
    .ok ⟨s, .idle⟩

/-- The I/O thread answers. -/
def serve (s : TwoThreads) : Option TwoThreads :=
  let withMiot (miot : Miot) : Control :=
    { s.control with shard := { s.control.shard with miot := miot } }
  let miot := s.control.shard.miot
  match s.call with
  | .removing args session =>
    let (socket, miot) := miot.handleRemoveConnection args.clientId
    some ⟨withMiot miot, .removed args session socket⟩
  | .adding args session =>
    some ⟨withMiot (miot.handleAddConnection args.clientId args.addr),
      .added args session miot.nextToken⟩
  | .dropping clientId e =>
    let (socket, miot) := miot.handleRemoveConnection clientId
    some ⟨withMiot miot, .dropped clientId e socket⟩
  | _ => none

/-- The shard goes on with the answer. -/
def resume (s : TwoThreads) : Option TwoThreads :=
  let withShard (shard : Shard) : Control := { s.control with shard := shard }
  let shard := s.control.shard
  match s.call with
  | .removed args session socket =>
    (shard.flushRemoved socket (shard.takenOver args.addr)).toOption.map
      fun shard => ⟨withShard shard, .adding args session⟩
  | .added args session token =>
    some ⟨{ s.control with
      shard := { s.control.shard with
        sessions := s.control.shard.sessions.insert args.clientId session }
      born := s.control.born.insert args.clientId token }, .idle⟩
  | .dropped _ e socket =>
    (shard.flushRemoved socket e).toOption.map fun shard => ⟨withShard shard, .idle⟩
  | _ => none

/-- Requests come in and connections fail at any time; everything else waits for the call. -/
def step (s : TwoThreads) : Event → Option TwoThreads
  | .connect args => (s.control.step (.connect args)).map fun control => ⟨control, s.call⟩
  | .fail clientId e => (s.control.step (.fail clientId e)).map fun control => ⟨control, s.call⟩
  | .process =>
    match s.call with
    | .idle => (process s.control).toOption
    | _ => none
  | .subscribe clientId sub =>
    match s.call with
    | .idle => (s.control.step (.subscribe clientId sub)).map fun control => ⟨control, .idle⟩
    | _ => none
  | .drop clientId e =>
    match s.call with
    | .idle => some ⟨s.control, .dropping clientId e⟩
    | _ => none
  | .serve => serve s
  | .resume => resume s

end TwoThreads

namespace Miot
variable {miot : Miot} {c d : ClientID}

@[ext] theorem ext {m m' : Miot} (hconns : m.conns = m'.conns) (htoken : m.nextToken = m'.nextToken) :
    m = m' := by
  obtain ⟨conns, nextToken, owned⟩ := m
  obtain ⟨conns', nextToken', owned'⟩ := m'
  subst hconns htoken
  rfl

/-- Two connections may be removed in either order. -/
theorem handleRemoveConnection_comm :
    ((miot.handleRemoveConnection c).2.handleRemoveConnection d).2 =
      ((miot.handleRemoveConnection d).2.handleRemoveConnection c).2 := by
  apply Miot.ext
  · apply ExtTreeMap.ext_getElem?
    intro k
    simp only [handleRemoveConnection, OrdMap.getElem?_erase]
    split_ifs <;> rfl
  · rfl

theorem getElem?_remove_ne (h : d ≠ c) :
    (miot.handleRemoveConnection d).2.conns[c]? = miot.conns[c]? := by
  simp [handleRemoveConnection, OrdMap.getElem?_erase, h]

theorem getElem?_remove_self : (miot.handleRemoveConnection c).2.conns[c]? = none := by
  simp [handleRemoveConnection]

end Miot

namespace Shard
variable {s s' : Shard} {args : AddSessionArgs} {old : Session} {topicFilters : Inner Subscription}

/-- Without its session, up to the removal of its connection. -/
def detach (s : Shard) (clientId : ClientID) (topicFilters : Inner Subscription) : Shard :=
  { s with sessions := s.sessions.erase clientId, topicFilters := topicFilters }

def removeConnection (s : Shard) (clientId : ClientID) : Shard :=
  { s with miot := (s.miot.handleRemoveConnection clientId).2 }

theorem nukeSession_some (hold : s.sessions[args.clientId]? = some old)
    (htopics : old.removeTopicFilters s.topicFilters = .ok topicFilters) :
    s.nukeSession args.clientId args.addr =
      flushRemoved ((s.detach args.clientId topicFilters).removeConnection args.clientId)
        s.miot.conns[args.clientId]? (s.takenOver args.addr) := by
  simp only [nukeSession, hold, htopics, ok_bind, dropConnection_eq]
  rfl

theorem removeConnection_comm (s : Shard) (c d : ClientID) :
    (s.removeConnection c).removeConnection d = (s.removeConnection d).removeConnection c :=
  congrArg (fun miot => { s with miot := miot }) Miot.handleRemoveConnection_comm

/-- To flush a connection, the shard does not look at the others. -/
theorem flushRemoved_removeConnection {socket : Option Socket} {e : Error}
    (h : s.flushRemoved socket e = .ok s') (d : ClientID) :
    (s.removeConnection d).flushRemoved socket e = .ok (s'.removeConnection d) := by
  cases socket with
  | none =>
    cases h
    rfl
  | some socket =>
    simp only [flushRemoved, handleFlushConnection, removeConnection] at h ⊢
    split at h
    next session hsession =>
      obtain ⟨cinp, hcinp, h⟩ := bind_eq_ok.mp h
      obtain ⟨topicFilters, htopics, h⟩ := bind_eq_ok.mp h
      cases h
      simp [hcinp, htopics]
    next hsession =>
      cases h
      rfl

theorem flushRemoved_miot {socket : Option Socket} {e : Error}
    (h : s.flushRemoved socket e = .ok s') : s'.miot = s.miot := by
  cases socket with
  | none =>
    cases h
    rfl
  | some socket => exact (handleFlushConnection_spec h).1

/-- A connection that is still there after the takeover may as well have failed before it. -/
theorem nukeSession_removeConnection {d : ClientID} {socket : Socket}
    (h : s.nukeSession args.clientId args.addr = .ok s') (hd : s'.miot.conns[d]? = some socket) :
    (s.removeConnection d).nukeSession args.clientId args.addr = .ok (s'.removeConnection d) := by
  cases hold : s.sessions[args.clientId]? with
  | none =>
    simp only [nukeSession, hold] at h
    cases h
    simp [nukeSession, removeConnection, hold]
  | some old =>
    obtain ⟨topicFilters, htopics⟩ : ∃ topicFilters,
        old.removeTopicFilters s.topicFilters = .ok topicFilters := by
      simp only [nukeSession, hold] at h
      obtain ⟨topicFilters, htopics, -⟩ := bind_eq_ok.mp h
      exact ⟨topicFilters, htopics⟩
    rw [nukeSession_some hold htopics] at h
    have hne : d ≠ args.clientId := by
      rintro rfl
      rw [flushRemoved_miot h] at hd
      have hnone : (s.miot.handleRemoveConnection args.clientId).2.conns[args.clientId]? = none :=
        Miot.getElem?_remove_self
      exact absurd (hd.symm.trans hnone) (by simp)
    rw [nukeSession_some (s := s.removeConnection d) hold htopics]
    have hsocket : (s.removeConnection d).miot.conns[args.clientId]? =
        s.miot.conns[args.clientId]? := Miot.getElem?_remove_ne hne
    have hswap : ((s.removeConnection d).detach args.clientId topicFilters).removeConnection
        args.clientId =
          ((s.detach args.clientId topicFilters).removeConnection args.clientId).removeConnection d :=
      removeConnection_comm (s.detach args.clientId topicFilters) d args.clientId
    rw [hsocket, hswap]
    exact flushRemoved_removeConnection h d

end Shard

namespace TwoThreads
open Shard

/-- What the shard and the I/O thread have between them, and the same with calls in one step. A session
is added there when its connection is; a connection is dropped there when the shard has flushed it. -/
inductive Sim : TwoThreads → Control → Prop
  | idle (c : Control) : Sim ⟨c, .idle⟩ c
  | removing {x : Shard} {q : List Request} {b : ExtTreeMap ClientID ℕ} {args : AddSessionArgs}
      {session old : Session} {topicFilters : Inner Subscription}
      (hopen : x.openSession args = .ok (some session))
      (hold : x.sessions[args.clientId]? = some old)
      (htopics : old.removeTopicFilters x.topicFilters = .ok topicFilters) :
      Sim ⟨⟨x.detach args.clientId topicFilters, q, b⟩, .removing args session⟩
        ⟨x, .addSession args :: q, b⟩
  | removed {x : Shard} {q : List Request} {b : ExtTreeMap ClientID ℕ} {args : AddSessionArgs}
      {session old : Session} {topicFilters : Inner Subscription}
      (hopen : x.openSession args = .ok (some session))
      (hold : x.sessions[args.clientId]? = some old)
      (htopics : old.removeTopicFilters x.topicFilters = .ok topicFilters) :
      Sim ⟨⟨(x.detach args.clientId topicFilters).removeConnection args.clientId, q, b⟩,
          .removed args session x.miot.conns[args.clientId]?⟩
        ⟨x, .addSession args :: q, b⟩
  | adding {x x' : Shard} {q : List Request} {b : ExtTreeMap ClientID ℕ} {args : AddSessionArgs}
      {session : Session} (hopen : x.openSession args = .ok (some session))
      (hnuke : x.nukeSession args.clientId args.addr = .ok x') :
      Sim ⟨⟨x', q, b⟩, .adding args session⟩ ⟨x, .addSession args :: q, b⟩
  | added (x : Shard) (q : List Request) (b : ExtTreeMap ClientID ℕ) (args : AddSessionArgs)
      (session : Session) (token : ℕ) :
      Sim ⟨⟨x, q, b⟩, .added args session token⟩
        ⟨{ x with sessions := x.sessions.insert args.clientId session }, q,
          b.insert args.clientId token⟩
  | dropping (c : Control) (clientId : ClientID) (e : Error) : Sim ⟨c, .dropping clientId e⟩ c
  | dropped (x : Shard) (q : List Request) (b : ExtTreeMap ClientID ℕ) (clientId : ClientID)
      (e : Error) :
      Sim ⟨⟨x.removeConnection clientId, q, b⟩, .dropped clientId e x.miot.conns[clientId]?⟩ ⟨x, q, b⟩

/-- A step of the two threads is a step of the shard, or nothing there. -/
def Simulated (c : Control) (s' : TwoThreads) : Prop :=
  ∃ c', (c' = c ∨ ∃ e, c.step e = some c') ∧ Sim s' c'

variable {s s' : TwoThreads} {c : Control}

theorem Sim.connect {args : AddSessionArgs} (h : Sim s c)
    (hs : s.step (.connect args) = some s') : Simulated c s' := by
  cases hs
  refine ⟨_, .inr ⟨.connect args, rfl⟩, ?_⟩
  cases h with
  | idle c => exact .idle _
  | removing hopen hold htopics => exact .removing hopen hold htopics
  | removed hopen hold htopics => exact .removed hopen hold htopics
  | adding hopen hnuke => exact .adding hopen hnuke
  | added x q b args session token => exact .added x _ b args session token
  | dropping c clientId e => exact .dropping _ clientId e
  | dropped x q b clientId e => exact .dropped x _ b clientId e

/-- A connection fails in both, or in neither. -/
theorem fail_eq_some {c c' : Control} {clientId : ClientID} {e : Error} :
    c.step (.fail clientId e) = some c' ↔ ∃ socket, c.shard.miot.conns[clientId]? = some socket ∧
      c' = ⟨c.shard.removeConnection clientId, c.queue ++ [.flushConnection socket e], c.born⟩ := by
  simp only [Control.step, Option.map_eq_some_iff]
  constructor
  · rintro ⟨socket, hsocket, rfl⟩
    exact ⟨socket, hsocket, rfl⟩
  · rintro ⟨socket, hsocket, rfl⟩
    exact ⟨socket, hsocket, rfl⟩

theorem Sim.fail {clientId : ClientID} {e : Error} (h : Sim s c)
    (hs : s.step (.fail clientId e) = some s') : Simulated c s' := by
  obtain ⟨control, hcontrol, rfl⟩ := Option.map_eq_some_iff.mp hs
  obtain ⟨socket, hsocket, rfl⟩ := fail_eq_some.mp hcontrol
  cases h with
  | idle c => exact ⟨_, .inr ⟨.fail clientId e, hcontrol⟩, .idle _⟩
  | @removing x q b args session old topicFilters hopen hold htopics =>
    refine ⟨_, .inr ⟨.fail clientId e, fail_eq_some.mpr ⟨socket, hsocket, rfl⟩⟩, ?_⟩
    exact .removing (x := x.removeConnection clientId) hopen hold htopics
  | @removed x q b args session old topicFilters hopen hold htopics =>
    -- the connection of the client itself is gone, so it is another one that fails
    have hne : clientId ≠ args.clientId := by
      rintro rfl
      exact absurd (hsocket.symm.trans Miot.getElem?_remove_self) (by simp)
    have hfail : x.miot.conns[clientId]? = some socket :=
      (Miot.getElem?_remove_ne (Ne.symm hne)).symm.trans hsocket
    refine ⟨_, .inr ⟨.fail clientId e, fail_eq_some.mpr ⟨socket, hfail, rfl⟩⟩, ?_⟩
    have hsim := Sim.removed (x := x.removeConnection clientId)
      (q := q ++ [.flushConnection socket e]) (b := b) hopen hold htopics
    rw [show (x.removeConnection clientId).miot.conns[args.clientId]? = x.miot.conns[args.clientId]?
      from Miot.getElem?_remove_ne hne] at hsim
    rw [removeConnection_comm]
    exact hsim
  | @adding x x' q b args session hopen hnuke =>
    have hfail := (nukeSession_spec hnuke).2.2 clientId socket hsocket
    refine ⟨_, .inr ⟨.fail clientId e, fail_eq_some.mpr ⟨socket, hfail, rfl⟩⟩, ?_⟩
    exact .adding (x := x.removeConnection clientId) hopen (nukeSession_removeConnection hnuke hsocket)
  | added x q b args session token =>
    refine ⟨_, .inr ⟨.fail clientId e, fail_eq_some.mpr ⟨socket, hsocket, rfl⟩⟩, ?_⟩
    exact .added (x.removeConnection clientId) _ b args session token
  | dropping c d e' => exact ⟨_, .inr ⟨.fail clientId e, hcontrol⟩, .dropping _ d e'⟩
  | dropped x q b d e' =>
    have hne : clientId ≠ d := by
      rintro rfl
      exact absurd (hsocket.symm.trans Miot.getElem?_remove_self) (by simp)
    have hfail : x.miot.conns[clientId]? = some socket :=
      (Miot.getElem?_remove_ne (Ne.symm hne)).symm.trans hsocket
    refine ⟨_, .inr ⟨.fail clientId e, fail_eq_some.mpr ⟨socket, hfail, rfl⟩⟩, ?_⟩
    have hsim := Sim.dropped (x.removeConnection clientId) (q ++ [.flushConnection socket e]) b d e'
    rw [show (x.removeConnection clientId).miot.conns[d]? = x.miot.conns[d]?
      from Miot.getElem?_remove_ne hne, removeConnection_comm] at hsim
    exact hsim

theorem Sim.beginAdd {queue : List Request} {args : AddSessionArgs}
    (hqueue : c.queue = .addSession args :: queue)
    (hs : TwoThreads.beginAdd c queue args = .ok s') : Simulated c s' := by
  obtain ⟨shard, q, born⟩ := c
  obtain rfl : q = .addSession args :: queue := hqueue
  obtain ⟨opened, hopen, hs⟩ := bind_eq_ok.mp hs
  cases opened with
  | none =>
    cases hs
    refine ⟨_, .inr ⟨.process, toOption_eq_some.mpr ?_⟩, .idle _⟩
    simp [Control.handle, handleAddSession_eq, hopen, installSession]
  | some session =>
    cases hold : shard.sessions[args.clientId]? with
    | none =>
      simp only [hold] at hs
      cases hs
      exact ⟨_, .inl rfl, .adding hopen (by simp [nukeSession, hold])⟩
    | some old =>
      simp only [hold] at hs
      obtain ⟨topicFilters, htopics, hs⟩ := bind_eq_ok.mp hs
      cases hs
      exact ⟨_, .inl rfl, .removing hopen hold htopics⟩

theorem Sim.process (hs : TwoThreads.process c = .ok s') : Simulated c s' := by
  unfold TwoThreads.process at hs
  split at hs
  next => cases hs
  next args queue hqueue => exact Sim.beginAdd hqueue hs
  next socket e queue hqueue =>
    obtain ⟨c', hc', hs⟩ := bind_eq_ok.mp hs
    cases hs
    refine ⟨c', .inr ⟨.process, ?_⟩, .idle _⟩
    simp only [Control.step, hqueue]
    exact toOption_eq_some.mpr hc'

/-- The step at which the connection is added is the one at which the session is. -/
theorem Sim.serve (h : Sim s c) (hs : s.step .serve = some s') : Simulated c s' := by
  cases h with
  | idle c => cases hs
  | removing hopen hold htopics =>
    cases hs
    exact ⟨_, .inl rfl, .removed hopen hold htopics⟩
  | removed hopen hold htopics => cases hs
  | @adding x x' q b args session hopen hnuke =>
    cases hs
    have htoken := (nukeSession_spec hnuke).1
    refine ⟨_, .inr ⟨.process, toOption_eq_some.mpr ?_⟩, .added _ q b args session _⟩
    simp [Control.handle, handleAddSession_eq, hopen, installSession, hnuke,
      Miot.handleAddConnection, htoken]
  | added x q b args session token => cases hs
  | dropping c clientId e =>
    cases hs
    exact ⟨_, .inl rfl, .dropped c.shard c.queue c.born clientId e⟩
  | dropped x q b clientId e => cases hs

theorem Sim.resume (h : Sim s c) (hs : s.step .resume = some s') : Simulated c s' := by
  cases h with
  | idle c => cases hs
  | removing hopen hold htopics => cases hs
  | removed hopen hold htopics =>
    obtain ⟨shard, hflush, rfl⟩ := Option.map_eq_some_iff.mp hs
    refine ⟨_, .inl rfl, .adding hopen ?_⟩
    rw [nukeSession_some hold htopics]
    exact toOption_eq_some.mp hflush
  | adding hopen hnuke => cases hs
  | added x q b args session token =>
    cases hs
    exact ⟨_, .inl rfl, .idle _⟩
  | dropping c clientId e => cases hs
  | dropped x q b clientId e =>
    obtain ⟨shard, hflush, rfl⟩ := Option.map_eq_some_iff.mp hs
    refine ⟨_, .inr ⟨.drop clientId e, ?_⟩, .idle _⟩
    simp only [Control.step, dropConnection_eq]
    exact Option.map_eq_some_iff.mpr ⟨shard, hflush, rfl⟩

theorem Sim.step {e : Event} (h : Sim s c) (hs : s.step e = some s') : Simulated c s' := by
  cases e with
  | connect args => exact h.connect hs
  | fail clientId e => exact h.fail hs
  | process =>
    cases h with
    | idle c => exact Sim.process (toOption_eq_some.mp hs)
    | _ => cases hs
  | subscribe clientId sub =>
    cases h with
    | idle c =>
      obtain ⟨control, hcontrol, rfl⟩ := Option.map_eq_some_iff.mp hs
      exact ⟨control, .inr ⟨_, hcontrol⟩, .idle _⟩
    | _ => cases hs
  | drop clientId e =>
    cases h with
    | idle c =>
      cases hs
      exact ⟨c, .inl rfl, .dropping c clientId e⟩
    | _ => cases hs
  | serve => exact h.serve hs
  | resume => exact h.resume hs

/-- Between two calls, whatever the I/O thread did during the earlier ones, the two threads together are
in a state that the shard reaches with each call as a single step. -/
theorem calls_are_atomic {config : Config} {shardId : UInt32} {es : List Event}
    (hr : run step (spawn config shardId) es = some s) (hidle : s.call = .idle) :
    ∃ es', run Control.step (Control.spawn config shardId) es' = some s.control := by
  obtain ⟨es', c, hc, hsim⟩ : ∃ es' c,
      run Control.step (Control.spawn config shardId) es' = some c ∧ Sim s c := by
    refine run_invariant (P := fun s => ∃ es' c,
      run Control.step (Control.spawn config shardId) es' = some c ∧ Sim s c) ?_
      ⟨[], _, rfl, .idle _⟩ hr
    rintro s e s' ⟨es', c, hc, hsim⟩ hs
    obtain ⟨c', rfl | ⟨e', he'⟩, hsim'⟩ := hsim.step hs
    · exact ⟨es', c', hc, hsim'⟩
    · exact ⟨es' ++ [e'], c', run_append.mpr ⟨c, hc, run_cons.mpr ⟨c', he', rfl⟩⟩, hsim'⟩
  cases hsim with
  | idle c => exact ⟨es', hc⟩
  | _ => cases hidle

/-- A client connects again. Before the I/O thread comes to remove its first connection that one fails,
and the second one fails before the shard has its answer. -/
def failDuringCalls : List Event :=
  [.connect (Control.plainArgs "alice" "10.0.0.1:1"), .process, .serve, .resume,
    .connect (Control.plainArgs "alice" "10.0.0.1:2"), .process,
    .fail ⟨"alice"⟩ Control.lostConnection, .serve, .resume, .serve,
    .fail ⟨"alice"⟩ Control.lostConnection, .resume]

theorem calls_are_atomic_failDuringCalls : ∃ s, run step (spawn {} 0) failDuringCalls = some s ∧
    s.control.queue.length = 2 ∧
    ∃ es', run Control.step (Control.spawn {} 0) es' = some s.control := by
  have hrun : (run step (spawn {} 0) failDuringCalls).any fun s =>
      s.call.isIdle && s.control.queue.length == 2 := by decide
  obtain ⟨s, hr, hs⟩ := (Option.any_eq_true _ _).mp hrun
  obtain ⟨hidle, hlen⟩ := Bool.and_eq_true_iff.mp hs
  exact ⟨s, hr, beq_iff_eq.mp hlen, calls_are_atomic hr (Call.isIdle_iff.mp hidle)⟩

end TwoThreads
end Mqtr
