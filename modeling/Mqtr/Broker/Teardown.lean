import Mqtr.Broker.Shard
import Mqtr.Core.Transition
import Mqtr.Trie.Match

/-! The control queue of a shard. New connections and failed ones are announced through it, and the
shard takes the requests in order, so that a failure may be handled after its client has connected
again. -/
namespace Mqtr
open Outcome Std

namespace Shard
variable {s s' : Shard}

/-- At most the session of the socket's client goes; the connections stay. -/
theorem handleFlushConnection_spec {socket : Socket} {err : Error}
    (h : s.handleFlushConnection socket err = .ok s') :
    s'.miot = s.miot ∧ ∀ c ∈ s'.sessions, c ∈ s.sessions := by
  unfold handleFlushConnection at h
  split at h
  · obtain ⟨cinp, -, h⟩ := bind_eq_ok.mp h
    obtain ⟨topicFilters, -, h⟩ := bind_eq_ok.mp h
    cases h
    exact ⟨rfl, fun c hc => ExtTreeMap.mem_of_mem_erase hc⟩
  · cases h
    exact ⟨rfl, fun c hc => hc⟩

theorem dropConnection_spec {clientId : ClientID} {err : Error}
    (h : s.dropConnection clientId err = .ok s') :
    s'.miot = (s.miot.handleRemoveConnection clientId).2 ∧ ∀ c ∈ s'.sessions, c ∈ s.sessions := by
  unfold dropConnection at h
  dsimp only at h
  split at h
  · exact handleFlushConnection_spec h
  · cases h
    exact ⟨rfl, fun c hc => hc⟩

theorem getElem?_handleRemoveConnection {miot : Miot} {clientId c : ClientID} {socket : Socket}
    (h : (miot.handleRemoveConnection clientId).2.conns[c]? = some socket) :
    miot.conns[c]? = some socket := by
  simp only [Miot.handleRemoveConnection, OrdMap.getElem?_erase] at h
  split_ifs at h
  exact h

theorem getElem?_handleAddConnection {miot : Miot} {clientId c : ClientID} {addr : String}
    {socket : Socket} (h : (miot.handleAddConnection clientId addr).conns[c]? = some socket) :
    c = clientId ∧ socket = ⟨c, addr, miot.nextToken⟩ ∨
      c ≠ clientId ∧ miot.conns[c]? = some socket := by
  simp only [Miot.handleAddConnection, OrdMap.getElem?_insert] at h
  split_ifs at h with hc
  · subst hc
    cases h
    exact .inl ⟨rfl, rfl⟩
  · exact .inr ⟨Ne.symm hc, h⟩

/-- Taking over from a session adds no session and no connection. -/
theorem nukeSession_spec {clientId : ClientID} {addr : String}
    (h : s.nukeSession clientId addr = .ok s') :
    s'.miot.nextToken = s.miot.nextToken ∧ (∀ c ∈ s'.sessions, c ∈ s.sessions) ∧
      ∀ (c : ClientID) (socket : Socket),
        s'.miot.conns[c]? = some socket → s.miot.conns[c]? = some socket := by
  unfold nukeSession at h
  split at h
  · obtain ⟨topicFilters, -, h⟩ := bind_eq_ok.mp h
    obtain ⟨hmiot, hsessions⟩ := dropConnection_spec h
    rw [hmiot]
    constructor
    · rfl
    constructor
    · intro c hc
      exact ExtTreeMap.mem_of_mem_erase (hsessions c hc)
    · intro c socket hc
      exact getElem?_handleRemoveConnection hc
  · cases h
    exact ⟨rfl, fun c hc => hc, fun c socket hc => hc⟩

/-- A new session comes with a new connection under the next token; without it nothing changes. -/
theorem handleAddSession_cases {args : AddSessionArgs} (h : s.handleAddSession args = .ok s') :
    s' = s ∨ s'.miot.nextToken = s.miot.nextToken + 1 ∧ args.clientId ∈ s'.sessions ∧
      (∀ c ∈ s'.sessions, c = args.clientId ∨ c ∈ s.sessions) ∧
      ∀ (c : ClientID) (socket : Socket), s'.miot.conns[c]? = some socket →
        c = args.clientId ∧ socket = ⟨c, args.addr, s.miot.nextToken⟩ ∨
          c ≠ args.clientId ∧ s.miot.conns[c]? = some socket := by
  obtain ⟨size, -, h⟩ := bind_eq_ok.mp h
  obtain ⟨session₀, -, h⟩ := bind_eq_ok.mp h
  obtain ⟨connAck, -, h⟩ := bind_eq_ok.mp h
  obtain ⟨⟨session₁, status₁⟩, -, h⟩ := bind_eq_ok.mp h
  obtain ⟨⟨session, status⟩, -, h⟩ := bind_eq_ok.mp h
  cases status with
  | disconnected vals =>
    cases h
    exact .inl rfl
  | block vals =>
    cases h
    exact .inl rfl
  | ok vals =>
    obtain ⟨s₁, hnuke, h⟩ := bind_eq_ok.mp h
    obtain ⟨htoken, hsessions, hconns⟩ := nukeSession_spec hnuke
    cases h
    right
    constructor
    · simp [Miot.handleAddConnection, htoken]
    constructor
    · simp
    constructor
    · intro c hc
      rcases OrdMap.mem_insert.mp hc with heq | hc
      · exact .inl heq.symm
      · exact .inr (hsessions c hc)
    · intro c socket hc
      rcases getElem?_handleAddConnection hc with ⟨rfl, rfl⟩ | ⟨hne, hc⟩
      · exact .inl ⟨rfl, by rw [htoken]⟩
      · exact .inr ⟨hne, hconns c socket hc⟩

end Shard

inductive Request where
  | addSession (args : AddSessionArgs)
  | flushConnection (socket : Socket) (err : Error)
  deriving DecidableEq

/-- The client whose connection a request takes down. -/
def Request.flushes : Request → Option ClientID
  | .addSession _ => none
  | .flushConnection socket _ => some socket.clientId

/-- A shard with its control queue. For each client, `born` keeps the token of the connection that
its latest session was made for; the program has no such record. -/
structure Control where
  shard : Shard
  queue : List Request
  born : ExtTreeMap ClientID ℕ

namespace Control

def spawn (config : Config) (shardId : UInt32) : Control := ⟨Shard.spawn config shardId, [], ∅⟩

inductive Event where
  /-- The listener announces a new connection. -/
  | connect (args : AddSessionArgs)
  /-- The I/O thread finds a connection failed, takes it out of its table and announces that. -/
  | fail (clientId : ClientID) (err : Error)
  /-- The shard handles the first request of the queue. -/
  | process
  /-- The shard handles a SUBSCRIBE of a client. -/
  | subscribe (clientId : ClientID) (sub : Subscribe)
  /-- The shard itself drops a client, for a protocol error or a full back log. -/
  | drop (clientId : ClientID) (err : Error)

def handle (s : Control) (queue : List Request) : Request → Result Control
  | .addSession args => do
    let shard ← s.shard.handleAddSession args
    let token := s.shard.miot.nextToken
    -- a session was added exactly if a token was given out
    let born := if shard.miot.nextToken = token then s.born else s.born.insert args.clientId token
    .ok ⟨shard, queue, born⟩
  | .flushConnection socket e => do
    let shard ← s.shard.handleFlushConnection socket e
    .ok ⟨shard, queue, s.born⟩

def subscribe (s : Control) (clientId : ClientID) (sub : Subscribe) : Result Control := do
  let session ← ofOption s.shard.sessions[clientId]?
  let (msgs, session, topicFilters) ←
    session.doSubscribe s.shard.shardId s.shard.topicFilters sub
  let (session, _) ← session.inMessages msgs
  .ok { s with shard := { s.shard with
    sessions := s.shard.sessions.insert clientId session, topicFilters := topicFilters } }

/-- A step that aborts has no outcome. The source aborts in two more places, at which a run of it ends
while one of this model may go on: in `flush_connection`, whenever a connection is flushed, and in
`as_topic_filters`, when a running shard comes to a SUBSCRIBE with `Inner::Init` in its place. -/
def step (s : Control) : Event → Option Control
  | .connect args => some { s with queue := s.queue ++ [.addSession args] }
  | .fail clientId e =>
    let (removed, miot) := s.shard.miot.handleRemoveConnection clientId
    removed.map fun socket =>
      { s with shard := { s.shard with miot := miot }
               queue := s.queue ++ [.flushConnection socket e] }
  | .process =>
    match s.queue with
    | [] => none
    | req :: queue => (s.handle queue req).toOption
  | .subscribe clientId sub => (s.subscribe clientId sub).toOption
  | .drop clientId e =>
    (s.shard.dropConnection clientId e).toOption.map fun shard => { s with shard := shard }

/-- The session that the event asks the shard to add. -/
def adds (s : Control) (e : Event) : Option AddSessionArgs :=
  match e, s.queue with
  | .process, .addSession args :: _ => some args
  | _, _ => none

/-- No session is added for a client while the end of one of its connections waits in the queue. -/
def Settled (s : Control) (e : Event) : Prop :=
  ∀ args ∈ s.adds e, ∀ req ∈ s.queue, req.flushes ≠ some args.clientId

instance (s : Control) (e : Event) : Decidable (s.Settled e) :=
  inferInstanceAs (Decidable (∀ args ∈ s.adds e, ∀ req ∈ s.queue, req.flushes ≠ some args.clientId))

/-- The session of the socket's client, if there is one, was made for this connection or for an
earlier one. -/
def Covers (s : Control) (socket : Socket) : Prop :=
  socket.clientId ∈ s.shard.sessions → ∃ k, s.born[socket.clientId]? = some k ∧ k ≤ socket.token

/-- What every state reached in a settled run satisfies. -/
structure Inv (s : Control) : Prop where
  queued : ∀ socket err, .flushConnection socket err ∈ s.queue → s.Covers socket
  connected : ∀ (c : ClientID) (socket : Socket), s.shard.miot.conns[c]? = some socket →
    s.Covers socket

variable {s s' : Control}

/-- A step that adds no session and gives out no token keeps what is covered. -/
theorem Covers.mono {socket : Socket} (h : s.Covers socket)
    (hsessions : ∀ c ∈ s'.shard.sessions, c ∈ s.shard.sessions) (hborn : s'.born = s.born) :
    s'.Covers socket := by
  intro hc
  rw [hborn]
  exact h (hsessions _ hc)

/-- A new session of one client leaves a socket of another covered. -/
theorem Covers.insert_other {socket : Socket} {shard : Shard} {queue : List Request}
    {clientId : ClientID} {token : ℕ} (h : s.Covers socket)
    (hsessions : ∀ c ∈ shard.sessions, c = clientId ∨ c ∈ s.shard.sessions)
    (hne : socket.clientId ≠ clientId) :
    Covers ⟨shard, queue, s.born.insert clientId token⟩ socket := by
  intro hc
  rcases hsessions _ hc with heq | hc
  · exact absurd heq hne
  · obtain ⟨k, hk, hle⟩ := h hc
    refine ⟨k, ?_, hle⟩
    rw [OrdMap.getElem?_insert, if_neg (Ne.symm hne)]
    exact hk

theorem Inv.mono (h : s.Inv) (hsessions : ∀ c ∈ s'.shard.sessions, c ∈ s.shard.sessions)
    (hborn : s'.born = s.born)
    (hqueue : ∀ socket err, .flushConnection socket err ∈ s'.queue →
      .flushConnection socket err ∈ s.queue ∨ ∃ c : ClientID, s.shard.miot.conns[c]? = some socket)
    (hconns : ∀ (c : ClientID) (socket : Socket), s'.shard.miot.conns[c]? = some socket →
      s.shard.miot.conns[c]? = some socket) : s'.Inv where
  queued socket err hmem := by
    rcases hqueue socket err hmem with hold | ⟨c, hc⟩
    · exact (h.queued socket err hold).mono hsessions hborn
    · exact (h.connected c socket hc).mono hsessions hborn
  connected c socket hc := (h.connected c socket (hconns c socket hc)).mono hsessions hborn

theorem handle_flush_inv {socket : Socket} {err : Error} {queue : List Request} (h : s.Inv)
    (hqueue : s.queue = .flushConnection socket err :: queue)
    (hs : s.handle queue (.flushConnection socket err) = .ok s') : s'.Inv := by
  obtain ⟨shard, hflush, hs⟩ := bind_eq_ok.mp hs
  obtain ⟨hmiot, hsessions⟩ := Shard.handleFlushConnection_spec hflush
  cases hs
  refine h.mono hsessions rfl ?_ ?_
  · intro _ _ hmem
    rw [hqueue]
    exact .inl (List.mem_cons_of_mem _ hmem)
  · intro c _ hc
    rwa [hmiot] at hc

theorem handle_add_inv {args : AddSessionArgs} {queue : List Request} (h : s.Inv)
    (hqueue : s.queue = .addSession args :: queue)
    (hsettled : ∀ req ∈ s.queue, req.flushes ≠ some args.clientId)
    (hs : s.handle queue (.addSession args) = .ok s') : s'.Inv := by
  obtain ⟨shard, hadd, hs⟩ := bind_eq_ok.mp hs
  have htail : ∀ socket err, .flushConnection socket err ∈ queue →
      .flushConnection socket err ∈ s.queue := by
    intro socket err hmem
    rw [hqueue]
    exact List.mem_cons_of_mem _ hmem
  rcases Shard.handleAddSession_cases hadd with rfl | ⟨htoken, -, hsessions, hconns⟩
  · dsimp only at hs
    rw [if_pos rfl] at hs
    cases hs
    refine h.mono (fun _ hc => hc) rfl ?_ ?_
    · intro socket err hmem
      exact .inl (htail socket err hmem)
    · intro _ _ hc
      exact hc
  · dsimp only at hs
    rw [if_neg (by omega)] at hs
    cases hs
    constructor
    · intro socket err hmem
      apply (h.queued socket err (htail socket err hmem)).insert_other hsessions
      exact fun heq => hsettled _ (htail socket err hmem) (congrArg some heq)
    · intro c socket hc
      rcases hconns c socket hc with ⟨rfl, rfl⟩ | ⟨hne, hc⟩
      · exact fun _ => ⟨_, by simp, le_rfl⟩
      · apply (h.connected c socket hc).insert_other hsessions
        rwa [s.shard.miot.owned c socket hc]

theorem subscribe_spec {clientId : ClientID} {sub : Subscribe}
    (h : s.subscribe clientId sub = .ok s') :
    s'.born = s.born ∧ s'.queue = s.queue ∧ s'.shard.miot = s.shard.miot ∧
      ∀ c ∈ s'.shard.sessions, c ∈ s.shard.sessions := by
  obtain ⟨session, hget, h⟩ := bind_eq_ok.mp h
  obtain ⟨⟨msgs, session₁, topicFilters⟩, -, h⟩ := bind_eq_ok.mp h
  obtain ⟨⟨session₂, status⟩, -, h⟩ := bind_eq_ok.mp h
  cases h
  refine ⟨rfl, rfl, rfl, ?_⟩
  intro c hc
  rcases OrdMap.mem_insert.mp hc with rfl | hc
  · rw [ExtTreeMap.mem_iff_isSome_getElem?]
    cases hsome : s.shard.sessions[clientId]? with
    | none =>
      rw [hsome] at hget
      cases hget
    | some _ => rfl
  · exact hc

theorem step_inv {e : Event} (h : s.Inv) (hsettled : s.Settled e) (hs : s.step e = some s') :
    s'.Inv := by
  cases e with
  | connect args =>
    cases hs
    refine h.mono (fun _ hc => hc) rfl ?_ ?_
    · intro _ _ hmem
      exact .inl (by simpa using hmem)
    · intro _ _ hc
      exact hc
  | fail clientId e =>
    obtain ⟨socket, hsocket, hs⟩ := Option.map_eq_some_iff.mp hs
    cases hs
    refine h.mono (fun _ hc => hc) rfl ?_ ?_
    · intro _ _ hmem
      rcases List.mem_append.mp hmem with hold | hnew
      · exact .inl hold
      · cases List.mem_singleton.mp hnew
        exact .inr ⟨clientId, hsocket⟩
    · intro _ _ hc
      exact Shard.getElem?_handleRemoveConnection hc
  | process =>
    cases hqueue : s.queue with
    | nil => simp [step, hqueue] at hs
    | cons req queue =>
      simp only [step, hqueue, toOption_eq_some] at hs
      cases req with
      | addSession args =>
        exact handle_add_inv h hqueue (hsettled args (by simp [adds, hqueue])) hs
      | flushConnection socket e => exact handle_flush_inv h hqueue hs
  | subscribe clientId sub =>
    obtain ⟨hborn, hqueue, hmiot, hsessions⟩ := subscribe_spec (toOption_eq_some.mp hs)
    refine h.mono hsessions hborn ?_ ?_
    · intro _ _ hmem
      rw [hqueue] at hmem
      exact .inl hmem
    · intro c _ hc
      rwa [hmiot] at hc
  | drop clientId e =>
    obtain ⟨shard, hshard, hs⟩ := Option.map_eq_some_iff.mp hs
    obtain ⟨hmiot, hsessions⟩ := Shard.dropConnection_spec (toOption_eq_some.mp hshard)
    cases hs
    refine h.mono hsessions rfl ?_ ?_
    · intro _ _ hmem
      exact .inl hmem
    · intro c _ hc
      rw [hmiot] at hc
      exact Shard.getElem?_handleRemoveConnection hc

theorem spawn_inv (config : Config) (shardId : UInt32) : (spawn config shardId).Inv where
  queued _ _ hmem := nomatch hmem
  connected c socket hc := by simp [spawn, Shard.spawn, Miot.spawn] at hc

/-- The session of `c` is gone, or the trie no longer holds one of its subscriptions. -/
def TearsDown (s s' : Shard) (c : ClientID) : Prop :=
  ∃ session, s.sessions[c]? = some session ∧
    (c ∉ s'.sessions ∨
      ∃ (filter : TopicFilter) (value : Subscription), session.subscriptions[filter]? = some value ∧
        value ∈ s.topicFilters.root.valuesAt (iterTopicPath filter) ∧
        value ∉ s'.topicFilters.root.valuesAt (iterTopicPath filter))

/-- If the next request is the end of a connection, and handling it tears down the session of its
client, then that session was made for this connection or for an earlier one. -/
def SparesLater (s : Control) : Prop :=
  ∀ (socket : Socket) (e : Error) (queue : List Request) (s' : Control),
    s.queue = .flushConnection socket e :: queue → s.step .process = some s' →
      TearsDown s.shard s'.shard socket.clientId →
        ∃ k, s.born[socket.clientId]? = some k ∧ k ≤ socket.token

theorem Inv.sparesLater (h : s.Inv) : s.SparesLater := by
  intro socket e queue s' hqueue _ htorn
  obtain ⟨session, hsession, -⟩ := htorn
  apply h.queued socket e
  · rw [hqueue]
    exact List.mem_cons_self
  · simp [ExtTreeMap.mem_iff_isSome_getElem?, hsession]

/-- No session of a later connection is torn down in a run that adds no session for a client while
the end of one of its connections is queued. -/
theorem no_stale_teardown {config : Config} {shardId : UInt32} {events : List Event}
    (hsettled : Transition.Along step Settled (spawn config shardId) events)
    (hrun : Transition.run step (spawn config shardId) events = some s) : s.SparesLater :=
  (Transition.run_invariant_of_along (fun _ _ _ => step_inv) (spawn_inv config shardId) hsettled
    hrun).sparesLater

/-- A CONNECT with a client identifier and nothing else. -/
def plainArgs (clientId addr : String) : AddSessionArgs where
  addr := addr
  pkt := ⟨"MQTT", .v5, ⟨0⟩, 0, none, ⟨⟨clientId⟩, none, none, none, none, none⟩⟩
  uuid := ⟨""⟩

def lostConnection : Error := ⟨.disconnected, "socketrx", none⟩

/-- A client connects and its connection fails. -/
def connectAndFail : List Event :=
  [.connect (plainArgs "alice" "10.0.0.1:1"), .process, .fail ⟨"alice"⟩ lostConnection]

/-- A client connects twice; the first connection fails while the second one waits in the queue. -/
def reconnectAndFail : List Event :=
  [.connect (plainArgs "alice" "10.0.0.1:1"), .process,
    .connect (plainArgs "alice" "10.0.0.1:2"), .fail ⟨"alice"⟩ lostConnection, .process]

/-- The next step takes the session of the client away; its latest connection had the token. -/
def endsSession (clientId : ClientID) (token : ℕ) (s : Control) : Bool :=
  s.shard.sessions.contains clientId && s.born[clientId]? == some token &&
    (s.step .process).any fun s' => !s'.shard.sessions.contains clientId

theorem tearsDown_of_endsSession {clientId : ClientID} {token : ℕ}
    (h : s.endsSession clientId token = true) :
    s.born[clientId]? = some token ∧
      ∃ s', s.step .process = some s' ∧ TearsDown s.shard s'.shard clientId := by
  simp only [endsSession, Bool.and_eq_true, beq_iff_eq, Option.any_eq_true, Bool.not_eq_true',
    ← ExtTreeMap.mem_iff_contains] at h
  obtain ⟨⟨hsession, hborn⟩, s', hs', hgone⟩ := h
  rw [ExtTreeMap.mem_iff_isSome_getElem?, Option.isSome_iff_exists] at hsession
  obtain ⟨session, hsession⟩ := hsession
  refine ⟨hborn, s', hs', session, hsession, .inl ?_⟩
  simp [ExtTreeMap.mem_iff_contains, hgone]

theorem no_stale_teardown_connectAndFail :
    ∃ s s', Transition.run step (spawn {} 0) connectAndFail = some s ∧ s.SparesLater ∧
      s.step .process = some s' ∧ TearsDown s.shard s'.shard ⟨"alice"⟩ := by
  have heval : (Transition.run step (spawn {} 0) connectAndFail).any (endsSession ⟨"alice"⟩ 2) :=
    by decide
  obtain ⟨s, hrun, hends⟩ := (Option.any_eq_true _ _).mp heval
  obtain ⟨-, s', hs', htorn⟩ := tearsDown_of_endsSession hends
  exact ⟨s, s', hrun, no_stale_teardown (by decide) hrun, hs', htorn⟩

/-- The end of the first connection takes away the session of the second one. -/
theorem stale_teardown :
    ¬ ∀ (config : Config) (shardId : UInt32) (events : List Event) (s : Control),
      Transition.run step (spawn config shardId) events = some s → s.SparesLater := by
  intro hall
  have heval : (Transition.run step (spawn {} 0) reconnectAndFail).any fun s =>
      s.endsSession ⟨"alice"⟩ 3 &&
        s.queue == [.flushConnection ⟨⟨"alice"⟩, "10.0.0.1:1", 2⟩ lostConnection] := by decide
  obtain ⟨s, hrun, hs⟩ := (Option.any_eq_true _ _).mp heval
  rw [Bool.and_eq_true, beq_iff_eq] at hs
  obtain ⟨hends, hqueue⟩ := hs
  obtain ⟨hborn, s', hs', htorn⟩ := tearsDown_of_endsSession hends
  obtain ⟨k, hk, hle⟩ := hall {} 0 reconnectAndFail s hrun _ _ _ s' hqueue hs' htorn
  rw [hborn] at hk
  cases hk
  exact absurd hle (by decide)

end Control
end Mqtr
