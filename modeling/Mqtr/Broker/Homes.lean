import Mqtr.Broker.Partition
import Mqtr.Broker.Teardown

/-! The shards of a node under any traffic: in which of them the sessions of a client can be. The cluster
picks the shard by the identifier in the CONNECT; a client that sends none gets its identifier only
there. -/
namespace Mqtr
open Outcome Std Transition

namespace Control
variable {P Q : AddSessionArgs → Prop} {s s' : Control} {e : Event}

/-- Sessions, connections and requests for new ones come from CONNECT packets with a property. -/
structure Origin (P : AddSessionArgs → Prop) (s : Control) : Prop where
  queued : ∀ args, .addSession args ∈ s.queue → P args
  hosted : ∀ c ∈ s.shard.sessions, ∃ args, P args ∧ args.clientId = c
  connected : ∀ (c : ClientID) (socket : Socket), s.shard.miot.conns[c]? = some socket →
    ∃ args, P args ∧ args.clientId = c

theorem Origin.imp (h : s.Origin P) (himp : ∀ args, P args → Q args) : s.Origin Q where
  queued args hmem := himp args (h.queued args hmem)
  hosted c hc := by
    obtain ⟨args, hP, hargs⟩ := h.hosted c hc
    exact ⟨args, himp args hP, hargs⟩
  connected c socket hc := by
    obtain ⟨args, hP, hargs⟩ := h.connected c socket hc
    exact ⟨args, himp args hP, hargs⟩

theorem spawn_origin (config : Config) (shardId : UInt32) : (spawn config shardId).Origin P where
  queued _ hmem := nomatch hmem
  hosted c hc := by simp [spawn, Shard.spawn] at hc
  connected c socket hc := by simp [spawn, Shard.spawn, Miot.spawn] at hc

/-- A step that brings in nothing new. -/
theorem Origin.mono (h : s.Origin P)
    (hqueue : ∀ args, .addSession args ∈ s'.queue → .addSession args ∈ s.queue)
    (hsessions : ∀ c ∈ s'.shard.sessions, c ∈ s.shard.sessions)
    (hconns : ∀ (c : ClientID) (socket : Socket), s'.shard.miot.conns[c]? = some socket →
      s.shard.miot.conns[c]? = some socket) : s'.Origin P where
  queued args hmem := h.queued args (hqueue args hmem)
  hosted c hc := h.hosted c (hsessions c hc)
  connected c socket hc := h.connected c socket (hconns c socket hc)

theorem Origin.process (h : s.Origin P) (hs : s.step .process = some s') : s'.Origin P := by
  cases hqueue : s.queue with
  | nil => simp [Control.step, hqueue] at hs
  | cons req queue =>
    simp only [Control.step, hqueue, toOption_eq_some] at hs
    have htail : ∀ args, .addSession args ∈ queue → .addSession args ∈ s.queue := by
      intro args hmem
      rw [hqueue]
      exact List.mem_cons_of_mem _ hmem
    cases req with
    | flushConnection socket e =>
      obtain ⟨shard, hflush, hs⟩ := bind_eq_ok.mp hs
      obtain ⟨hmiot, hsessions⟩ := Shard.handleFlushConnection_spec hflush
      cases hs
      refine h.mono htail hsessions fun c socket hc => ?_
      rwa [hmiot] at hc
    | addSession args =>
      obtain ⟨shard, hadd, hs⟩ := bind_eq_ok.mp hs
      cases hs
      have hnew : P args := h.queued args (by simp [hqueue])
      rcases Shard.handleAddSession_cases hadd with rfl | ⟨-, -, hsessions, hconns⟩
      · exact h.mono htail (fun _ hc => hc) fun _ _ hc => hc
      constructor
      · exact fun args hmem => h.queued args (htail args hmem)
      · intro c hc
        rcases hsessions c hc with rfl | hold
        · exact ⟨args, hnew, rfl⟩
        · exact h.hosted c hold
      · intro c socket hc
        rcases hconns c socket hc with ⟨rfl, -⟩ | ⟨-, hold⟩
        · exact ⟨args, hnew, rfl⟩
        · exact h.connected c socket hold

theorem Origin.step (h : s.Origin P) (hnew : ∀ args, e = .connect args → P args)
    (hs : s.step e = some s') : s'.Origin P := by
  cases e with
  | connect args =>
    cases hs
    refine ⟨fun args' hmem => ?_, h.hosted, h.connected⟩
    rcases List.mem_append.mp hmem with hold | hlast
    · exact h.queued args' hold
    · cases List.mem_singleton.mp hlast
      exact hnew args rfl
  | fail clientId e =>
    obtain ⟨socket, -, hs⟩ := Option.map_eq_some_iff.mp hs
    cases hs
    refine h.mono (fun args hmem => ?_) (fun _ hc => hc) fun c socket hc => ?_
    · simpa using hmem
    · exact Shard.getElem?_handleRemoveConnection hc
  | process => exact h.process hs
  | subscribe clientId sub =>
    obtain ⟨-, hqueue, hmiot, hsessions⟩ := subscribe_spec (toOption_eq_some.mp hs)
    refine h.mono (fun args hmem => ?_) hsessions fun c socket hc => ?_
    · rwa [hqueue] at hmem
    · rwa [hmiot] at hc
  | drop clientId e =>
    obtain ⟨shard, hshard, hs⟩ := Option.map_eq_some_iff.mp hs
    obtain ⟨hmiot, hsessions⟩ := Shard.dropConnection_spec (toOption_eq_some.mp hshard)
    cases hs
    refine h.mono (fun _ hmem => hmem) hsessions fun c socket hc => ?_
    rw [hmiot] at hc
    exact Shard.getElem?_handleRemoveConnection hc

/-- The shard finds the trie as the other shards have left it. -/
def finding (s : Control) (topicFilters : Inner Subscription) : Control :=
  { s with shard := { s.shard with topicFilters := topicFilters } }

end Control

/-- The table of shards, each with its control queue. -/
structure ClusterShards where
  shards : ExtTreeMap UInt32 Control

namespace ClusterShards

inductive Event where
  /-- The cluster handles a connection that has done its handshake. -/
  | addConnection (args : AddSessionArgs)
  /-- A step of a shard, with the shared trie as it is then. -/
  | onShard (shardId : UInt32) (topicFilters : Inner Subscription) (e : Control.Event)

/-- The loop of `spawn` over `0..num_shards`. After it `Cluster::spawn` connects the queues of the shards,
where it aborts in `to_msg_tx`; this is the table as it would be without that. -/
def spawn (config : Config) (numShards : UInt32) : ClusterShards where
  shards := (List.range numShards.toNat).foldl (fun shards i =>
    shards.insert (UInt32.ofNat i) (Control.spawn config (UInt32.ofNat i))) ∅

def stepShard (self : ClusterShards) (shardId : UInt32) (f : Control → Option Control) :
    Option ClusterShards := do
  let control ← self.shards[shardId]?
  let control ← f control
  some ⟨self.shards.insert shardId control⟩

/-- A connection for a shard that is not there, as in a cluster of several nodes, is not implemented.
New connections come to a shard through the cluster only. -/
def step (cityhash : List UInt8 → BitVec 128) (numShards : UInt32) (self : ClusterShards) :
    Event → Option ClusterShards
  | .addConnection args =>
    self.stepShard (Rebalancer.sessionPartition cityhash args.pkt.payload.clientId numShards)
      fun control => control.step (.connect args)
  | .onShard _ _ (.connect _) => none
  | .onShard shardId topicFilters e =>
    self.stepShard shardId fun control => (control.finding topicFilters).step e

variable {cityhash : List UInt8 → BitVec 128} {numShards : UInt32} {s s' : ClusterShards}
  {events : List Event} {event : Event}

/-- A CONNECT that came to the cluster and was sent to the shard. -/
def Routed (cityhash : List UInt8 → BitVec 128) (numShards : UInt32) (events : List Event)
    (shardId : UInt32) (args : AddSessionArgs) : Prop :=
  .addConnection args ∈ events ∧
    Rebalancer.sessionPartition cityhash args.pkt.payload.clientId numShards = shardId

/-- What is in a shard was routed to it. -/
def Inv (cityhash : List UInt8 → BitVec 128) (numShards : UInt32) (events : List Event)
    (s : ClusterShards) : Prop :=
  ∀ (shardId : UInt32) (control : Control), s.shards[shardId]? = some control →
    control.Origin (Routed cityhash numShards events shardId)

theorem stepShard_inv {shardId : UInt32} {f : Control → Option Control} {events' : List Event}
    (h : Inv cityhash numShards events s) (hmem : ∀ event ∈ events, event ∈ events')
    (hf : ∀ control control', s.shards[shardId]? = some control → f control = some control' →
      control'.Origin (Routed cityhash numShards events' shardId))
    (hs : s.stepShard shardId f = some s') : Inv cityhash numShards events' s' := by
  obtain ⟨control, hcontrol, hs⟩ := Option.bind_eq_some_iff.mp hs
  obtain ⟨control', hf', hs⟩ := Option.bind_eq_some_iff.mp hs
  cases hs
  intro k other hk
  rw [OrdMap.getElem?_insert] at hk
  split_ifs at hk with hsame
  · subst hsame
    cases hk
    exact hf control control' hcontrol hf'
  · exact (h k other hk).imp fun args hargs => ⟨hmem _ hargs.1, hargs.2⟩

theorem step_inv (h : Inv cityhash numShards events s)
    (hs : s.step cityhash numShards event = some s') :
    Inv cityhash numShards (events ++ [event]) s' := by
  have hmem : ∀ e ∈ events, e ∈ events ++ [event] := fun e he => List.mem_append_left _ he
  cases event with
  | addConnection args =>
    refine stepShard_inv h hmem (fun control control' hcontrol hstep => ?_) hs
    refine ((h _ control hcontrol).imp fun args hargs => ⟨hmem _ hargs.1, hargs.2⟩).step ?_ hstep
    rintro _ ⟨⟩
    exact ⟨by simp, rfl⟩
  | onShard shardId topicFilters e =>
    have hquiet : ∀ args, e ≠ .connect args := by
      rintro args rfl
      cases hs
    have hs' : s.stepShard shardId (fun control => (control.finding topicFilters).step e) =
        some s' := by
      cases e with
      | connect args => exact absurd rfl (hquiet args)
      | _ => exact hs
    refine stepShard_inv h hmem (fun control control' hcontrol hstep => ?_) hs'
    have hfound : (control.finding topicFilters).Origin
        (Routed cityhash numShards events shardId) :=
      (h shardId control hcontrol).mono (fun _ ha => ha) (fun _ hc => hc) fun _ _ hc => hc
    refine (hfound.imp fun args hargs => ⟨hmem _ hargs.1, hargs.2⟩).step ?_ hstep
    exact fun args he => absurd he (hquiet args)

theorem spawn_inv (config : Config) : Inv cityhash numShards [] (spawn config numShards) := by
  have hall (l : List ℕ) (shards : ExtTreeMap UInt32 Control)
      (hshards : ∀ (k : UInt32) (control : Control), shards[k]? = some control →
        control.Origin (Routed cityhash numShards [] k)) :
      ∀ (k : UInt32) (control : Control), (l.foldl (fun shards i => shards.insert (UInt32.ofNat i)
          (Control.spawn config (UInt32.ofNat i))) shards)[k]? = some control →
        control.Origin (Routed cityhash numShards [] k) := by
    induction l generalizing shards with
    | nil => exact hshards
    | cons i l ih =>
      refine ih _ fun k control hk => ?_
      rw [OrdMap.getElem?_insert] at hk
      split_ifs at hk with hsame
      · cases hk
        exact Control.spawn_origin config _
      · exact hshards k control hk
  exact hall _ ∅ fun k control hk => by simp at hk

/-- The identifier was given to a client that came without one. -/
def Assigned (events : List Event) (c : ClientID) : Prop :=
  ∃ args, .addConnection args ∈ events ∧ args.pkt.payload.clientId.val = "" ∧ args.uuid = c

/-- The shard has a session or a connection of the client. -/
def Hosts (s : ClusterShards) (shardId : UInt32) (c : ClientID) : Prop :=
  ∃ control, s.shards[shardId]? = some control ∧
    (c ∈ control.shard.sessions ∨ control.shard.miot.conns[c]?.isSome)

theorem Inv.routed (h : Inv cityhash numShards events s) {shardId : UInt32} {c : ClientID}
    (hc : s.Hosts shardId c) :
    ∃ args, Routed cityhash numShards events shardId args ∧ args.clientId = c := by
  obtain ⟨control, hcontrol, hsession | hconn⟩ := hc
  · exact (h shardId control hcontrol).hosted c hsession
  · obtain ⟨socket, hsocket⟩ := Option.isSome_iff_exists.mp hconn
    exact (h shardId control hcontrol).connected c socket hsocket

/-- A client with an identifier of its own has sessions and connections in one shard of the node only,
the one of its identifier. One that had its identifier assigned, and comes back with it, may have them in
two: there, and in the shard of the empty identifier. -/
theorem sessions_at_home {config : Config}
    (hrun : run (step cityhash numShards) (spawn config numShards) events = some s) :
    (∀ shardId c, s.Hosts shardId c →
      shardId = Rebalancer.sessionPartition cityhash c numShards ∨
        shardId = Rebalancer.sessionPartition cityhash ⟨""⟩ numShards ∧ Assigned events c) ∧
    ∀ c, ¬ Assigned events c → ∀ k k', s.Hosts k c → s.Hosts k' c → k = k' := by
  have hinv : Inv cityhash numShards events s :=
    run_history (P := Inv cityhash numShards) (fun _ _ _ _ h _ hs => step_inv h hs) []
      (spawn_inv config) (along_of_forall fun _ _ _ => trivial) hrun
  have hhome : ∀ shardId c, s.Hosts shardId c →
      shardId = Rebalancer.sessionPartition cityhash c numShards ∨
        shardId = Rebalancer.sessionPartition cityhash ⟨""⟩ numShards ∧ Assigned events c := by
    intro shardId c hc
    obtain ⟨args, ⟨hmem, hshard⟩, hargs⟩ := hinv.routed hc
    unfold AddSessionArgs.clientId at hargs
    split_ifs at hargs with hempty
    · right
      have hid : args.pkt.payload.clientId = ⟨""⟩ := by
        cases hid : args.pkt.payload.clientId
        simpa [hid] using hempty
      exact ⟨by rw [← hshard, hid], args, hmem, hempty, hargs⟩
    · exact .inl (by rw [← hshard, hargs])
  refine ⟨hhome, fun c hown k k' hk hk' => ?_⟩
  rcases hhome k c hk with rfl | ⟨-, hassigned⟩
  · rcases hhome k' c hk' with rfl | ⟨-, hassigned⟩
    · rfl
    · exact absurd hassigned hown
  · exact absurd hassigned hown

/-- Two shards, and a hash that tells the empty identifier from the others. -/
def firstByte : List UInt8 → BitVec 128
  | [] => 0
  | _ :: _ => 1

/-- A client comes without an identifier and gets `x`, and comes again with that. -/
def comesAgain : List Event :=
  [.addConnection { Control.plainArgs "" "10.0.0.1:1" with uuid := ⟨"x"⟩ },
    .onShard 0 Inner.default .process,
    .addConnection (Control.plainArgs "x" "10.0.0.1:2"), .onShard 1 Inner.default .process]

theorem sessions_at_home_comesAgain : ∃ s, run (step firstByte 2) (spawn {} 2) comesAgain = some s ∧
    s.Hosts 0 ⟨"x"⟩ ∧ s.Hosts 1 ⟨"x"⟩ ∧ Assigned comesAgain ⟨"x"⟩ := by
  have hrun : (run (step firstByte 2) (spawn {} 2) comesAgain).any fun s =>
      ([0, 1] : List UInt32).all fun k =>
        s.shards[k]?.any fun control => control.shard.sessions.contains ⟨"x"⟩ := by
    decide +kernel
  obtain ⟨s, hr, hs⟩ := (Option.any_eq_true _ _).mp hrun
  have hhosts : ∀ k ∈ ([0, 1] : List UInt32), s.Hosts k ⟨"x"⟩ := by
    intro k hk
    obtain ⟨control, hcontrol, hmem⟩ := (Option.any_eq_true _ _).mp (List.all_eq_true.mp hs k hk)
    exact ⟨control, hcontrol, .inl (ExtTreeMap.mem_iff_contains.mpr hmem)⟩
  refine ⟨s, hr, hhosts 0 (by decide), hhosts 1 (by decide), ?_⟩
  rcases (sessions_at_home hr).1 0 _ (hhosts 0 (by decide)) with hhome | ⟨-, hassigned⟩
  · exact absurd hhome (by decide +kernel)
  · exact hassigned

end ClusterShards
end Mqtr
