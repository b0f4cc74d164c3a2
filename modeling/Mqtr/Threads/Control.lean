import Mqtr.Broker.Teardown
import Mqtr.Core.Server

/-! The control channels of the threads, and the loops that drain them. `pending_requests` takes what is
there, up to one request more than the size of the channel, and every request of such a batch is
handled; `get_requests` waits until it has as many. -/
namespace Mqtr
open Transition Server

/-- `CONTROL_CHAN_SIZE`. -/
def controlChanSize : ℕ := 1024

namespace Miot

inductive Request where
  | addConnection (clientId : ClientID) (addr : String)
  | removeConnection (clientId : ClientID)
  | close
  deriving DecidableEq

inductive Response where
  | ok
  | removed (socket : Socket)
  deriving DecidableEq

structure FinState where
  nextToken : ℕ
  clientIds : List ClientID
  addrs : List String
  tokens : List ℕ
  deriving DecidableEq

inductive Inner where
  | main (miot : Miot)
  | close (fin : FinState)

def handleClose (self : Miot) : FinState :=
  let sockets := self.conns.toList.map Prod.snd
  ⟨self.nextToken, sockets.map Socket.clientId, sockets.map Socket.addr, sockets.map Socket.token⟩

/-- A request to a closed thread hits `unreachable!`. -/
def handle : Inner → Request → Option (Inner × Response)
  | .main self, .addConnection clientId addr =>
    some (.main (self.handleAddConnection clientId addr), .ok)
  | .main self, .removeConnection clientId =>
    match self.handleRemoveConnection clientId with
    | (some socket, self) => some (.main self, .removed socket)
    | (none, self) => some (.main self, .ok)
  | .main self, .close => some (.close self.handleClose, .ok)
  | .close _, _ => none

/-- The table without the connections that `socket_to_session` finds failed. -/
def removeFailed (self : Miot) (failed : List ClientID) : Miot :=
  failed.foldl (fun self clientId => (self.handleRemoveConnection clientId).2) self

/-- A pass over the sockets. `session_to_socket` comes to `flush_packets` for every connection that is
left in the table, and there `write_packet` finds no writer and aborts. -/
def work : Inner → List ClientID → Option Inner
  | .main self, failed =>
    if (self.removeFailed failed).conns.isEmpty then some (.main (self.removeFailed failed)) else none
  | .close _, _ => none

def spec : Server.Spec Inner Request Response (List ClientID) where
  handle := handle
  closes
    | .close => true
    | _ => false
  work := work

def Inner.Closed : Inner → Prop
  | .main _ => False
  | .close _ => True

theorem spec_closable : Closable spec Inner.Closed where
  handle {s r s' w} h := by
    cases s with
    | close fin => cases h
    | main self =>
      cases r with
      | addConnection clientId addr =>
        cases h
        simp [Inner.Closed, spec]
      | removeConnection clientId =>
        simp only [spec, handle] at h
        split at h
        all_goals
          cases h
          simp [Inner.Closed, spec]
      | close =>
        cases h
        simp [Inner.Closed, spec]
  stuck {s} r h := by
    cases s with
    | main self => exact h.elim
    | close fin => rfl
  work {s t s'} h _ := by
    cases s with
    | main self =>
      simp only [spec, work] at h
      split_ifs at h
      cases h
      exact id
    | close fin => cases h

/-- The handlers of an open thread are total. -/
theorem closed_of_none (s : Inner) (r : Request) (h : spec.handle s r = none) : s.Closed := by
  cases s with
  | close fin => trivial
  | main self =>
    cases r with
    | removeConnection clientId =>
      simp only [spec, handle] at h
      split at h <;> cases h
    | _ => cases h

theorem mem_removeFailed (self : Miot) (failed : List ClientID) (c : ClientID) :
    c ∈ (self.removeFailed failed).conns ↔ c ∉ failed ∧ c ∈ self.conns := by
  induction failed generalizing self with
  | nil => simp [removeFailed]
  | cons d failed ih =>
    have hcons : self.removeFailed (d :: failed) =
        (self.handleRemoveConnection d).2.removeFailed failed := rfl
    have herase : c ∈ (self.handleRemoveConnection d).2.conns ↔ d ≠ c ∧ c ∈ self.conns :=
      OrdMap.mem_erase
    rw [hcons, ih, herase, List.mem_cons, not_or, and_left_comm, and_assoc, ne_comm]

/-- A pass aborts exactly if it leaves a connection in the table. -/
theorem work_eq_none_iff (self : Miot) (failed : List ClientID) :
    work (.main self) failed = none ↔ ∃ c ∉ failed, c ∈ self.conns := by
  have hleft : (self.removeFailed failed).conns.isEmpty = false ↔ ∃ c ∉ failed, c ∈ self.conns := by
    simp [Std.ExtTreeMap.eq_empty_iff_forall_not_mem, mem_removeFailed]
  rw [← hleft, work]
  cases (self.removeFailed failed).conns.isEmpty <;> simp

theorem Inner.exists_main {inner : Inner} (h : ¬ inner.Closed) : ∃ self, inner = .main self := by
  cases inner with
  | main self => exact ⟨self, rfl⟩
  | close fin => exact absurd trivial h

/-- The shard waits for the answer to each of its calls and makes none after `close_wait`. So its calls
are answered one by one, in their order, with what the handlers give, and none of them waits for a thread
that sleeps. No request makes the thread abort. What does is its own pass over the sockets, and that
exactly if there is a connection that the pass does not find failed. -/
theorem calls_served {es : List (Event Request (List ClientID))}
    {s : State Inner Request Response (List ClientID)}
    (hcalls : Along (step spec .events controlChanSize) (OneAtATime spec)
      (init .events (.main Miot.spawn)) es)
    (hr : run (step spec .events controlChanSize) (init .events (.main Miot.spawn)) es = some s) :
    Served spec (.main Miot.spawn) s ∧ s.sent.length ≤ s.answered.length + 1 ∧
      (s.phase = .parked → s.woken = false → s.unannounced = 0 → s.queue = []) ∧
      (∀ rest, s.phase = .aborted rest →
        rest = [] ∧ ∃ self, s.state = .main self ∧ ∃ c, c ∈ self.conns) ∧
      (s.phase = .parked → ∃ self, s.state = .main self ∧ ∀ failed,
        ((∃ s', step spec .events controlChanSize s (.work failed) = some s' ∧
          s'.phase = .aborted []) ↔ ∃ c ∉ failed, c ∈ self.conns)) := by
  obtain ⟨hserved, htracks, hwaits, hcalm⟩ :=
    run_oneAtATime spec_closable closed_of_none (by simp [Inner.Closed]) hcalls hr
  refine ⟨hserved, hwaits.due, fun hphase hwoken hcount => ?_, fun rest hrest => ?_, fun hphase => ?_⟩
  · have hattended : Attended s :=
      run_invariant (fun _ _ _ => step_attended) (init_attended _) hr
    exact hattended.empty hphase hwoken hcount
  · obtain ⟨hrest, hopen, failed, hnone⟩ := hcalm rest hrest
    obtain ⟨self, hself⟩ := Inner.exists_main hopen
    rw [hself] at hnone
    obtain ⟨c, -, hc⟩ := (work_eq_none_iff self failed).mp hnone
    exact ⟨hrest, self, hself, c, hc⟩
  · have hopen := htracks.phase
    rw [hphase] at hopen
    obtain ⟨self, hself⟩ := Inner.exists_main hopen
    refine ⟨self, hself, fun failed => ?_⟩
    rw [← work_eq_none_iff]
    have hwork : spec.work s.state failed = work (.main self) failed := by
      rw [hself]
      rfl
    cases hpass : work (.main self) failed <;> simp [step, hphase, hwork, hpass]

/-- Two calls, the second after the answer to the first, and a pass in between that finds the connection
failed. -/
def addThenClose : List (Event Request (List ClientID)) :=
  [.send (.addConnection ⟨"c"⟩ "host"), .announce, .resume, .gather, .gather, .handle, .handle,
    .work [⟨"c"⟩], .send .close, .announce, .resume, .gather, .gather, .handle, .handle]

/-- A connection is added and nothing is wrong with it when the pass comes. -/
def addThenPass : List (Event Request (List ClientID)) :=
  [.send (.addConnection ⟨"c"⟩ "host"), .announce, .resume, .gather, .gather, .handle, .handle, .work []]

theorem calls_served_addThenClose : (∃ s,
    run (step spec .events controlChanSize) (init .events (.main Miot.spawn)) addThenClose = some s ∧
      s.phase = .exited [] ∧ Served spec (.main Miot.spawn) s) ∧ ∃ s,
    run (step spec .events controlChanSize) (init .events (.main Miot.spawn)) addThenPass = some s ∧
      s.phase = .aborted [] ∧ Served spec (.main Miot.spawn) s ∧
      ∃ self, s.state = .main self ∧ ∃ c, c ∈ self.conns := by
  have hclose : (run (step spec .events controlChanSize) (init .events (.main Miot.spawn))
      addThenClose).map (fun s => s.phase) = some (.exited []) := by rfl
  have hpass : (run (step spec .events controlChanSize) (init .events (.main Miot.spawn))
      addThenPass).map (fun s => s.phase) = some (.aborted []) := by rfl
  obtain ⟨s, hr, hphase⟩ := Option.map_eq_some_iff.mp hclose
  obtain ⟨s', hr', hphase'⟩ := Option.map_eq_some_iff.mp hpass
  obtain ⟨hserved, -⟩ := calls_served (by decide) hr
  obtain ⟨hserved', -, -, haborted, -⟩ := calls_served (by decide) hr'
  exact ⟨⟨s, hr, hphase, hserved⟩, s', hr', hphase', hserved', (haborted [] hphase').2⟩

end Miot

namespace Shard

inductive ThreadInner where
  | main (shard : Shard)
  | close

inductive ThreadRequest where
  | request (req : Request)
  | close
  deriving DecidableEq

/-- A request to a closed thread hits `unreachable!`. -/
def handleRequest : ThreadInner → ThreadRequest → Option (ThreadInner × Unit)
  | .main self, .request (.addSession args) =>
    (self.handleAddSession args).toOption.map fun self => (.main self, ())
  | .main self, .request (.flushConnection socket err) =>
    (self.handleFlushConnection socket err).toOption.map fun self => (.main self, ())
  | .main _, .close => some (.close, ())
  | .close, _ => none

/-- The thread with whatever the passes of its loop do to the shard. -/
def threadSpec {τ : Type} (pass : Shard → τ → Option Shard) :
    Server.Spec ThreadInner ThreadRequest Unit τ where
  handle := handleRequest
  closes
    | .close => true
    | .request _ => false
  work
    | .main self, t => (pass self t).map .main
    | .close, _ => none

variable {τ : Type} {pass : Shard → τ → Option Shard}

theorem threadSpec_closable : Closable (threadSpec pass) (· = .close) where
  handle {s r s' w} h := by
    cases s with
    | close => cases h
    | main self =>
      rcases r with (_ | _) | _
      · obtain ⟨_, -, heq⟩ := Option.map_eq_some_iff.mp h
        cases heq
        simp [threadSpec]
      · obtain ⟨_, -, heq⟩ := Option.map_eq_some_iff.mp h
        cases heq
        simp [threadSpec]
      · cases h
        simp [threadSpec]
  stuck {s} r h := by
    subst h
    rfl
  work {s t s'} h hopen := by
    cases s with
    | close => cases h
    | main self =>
      obtain ⟨_, -, rfl⟩ := Option.map_eq_some_iff.mp h
      simp

/-- What a run of the thread from its start keeps of its phases. -/
theorem thread_run {shard : Shard} {es : List (Event ThreadRequest τ)}
    {s : State ThreadInner ThreadRequest Unit τ}
    (hr : run (step (threadSpec pass) .events controlChanSize) (init .events (.main shard)) es = some s) :
    Tracks (threadSpec pass) (· = .close) s ∧ Linked s :=
  run_invariant (P := fun s => Tracks (threadSpec pass) (· = .close) s ∧ Linked s)
    (fun _ _ _ h hs => ⟨step_tracks threadSpec_closable h.1 hs, step_linked h.2 hs⟩)
    ⟨init_tracks (by simp), by simp [Linked, init]⟩ hr

/-- The I/O thread posts a failed connection without waiting. If it does so while `Close` is still to be
taken in the next batch, or is in the batch that is being gathered, and this batch has room, the request
comes behind `Close` in one batch: the thread of the shard does not exit, it is on its way to an abort,
and once it has answered `Close` the request is among those of the batch that are left. If the thread is
handling a batch with `Close` when the request comes, the request is not taken from the queue any more.
In the source the thread may abort earlier, with any `FlushConnection` that it handles. -/
theorem close_races_flush {shard : Shard} {es : List (Event ThreadRequest τ)}
    {s s₁ : State ThreadInner ThreadRequest Unit τ} {socket : Socket} {err : Error}
    (hr : run (step (threadSpec pass) .events controlChanSize) (init .events (.main shard)) es = some s)
    (hsend : step (threadSpec pass) .events controlChanSize s
      (.send (.request (.flushConnection socket err))) = some s₁) :
    (¬ Leaving (threadSpec pass) s → .close ∈ s.upcoming → s.upcoming.length ≤ controlChanSize →
      ∀ es' s', run (step (threadSpec pass) .events controlChanSize) s₁ es' = some s' →
        (∀ rest, s'.phase ≠ .exited rest) ∧
          ∀ batch status, s'.phase = .handling batch status true →
            .request (.flushConnection socket err) ∈ batch) ∧
    (Leaving (threadSpec pass) s →
      ∀ es' s', run (step (threadSpec pass) .events controlChanSize) s₁ es' = some s' →
        s.queue ++ [.request (.flushConnection socket err)] <+: s'.queue) := by
  obtain ⟨htracks, hlinked⟩ := thread_run hr
  constructor
  · intro hstays hclose hroom es' s' hr'
    have hdoomed : Doomed (threadSpec pass) controlChanSize (.request (.flushConnection socket err)) s₁ :=
      doomed_of_send hlinked hstays hclose rfl hroom hsend
    have hend := run_doomed threadSpec_closable (step_tracks threadSpec_closable htracks hsend)
      hdoomed hr'
    unfold Doomed at hend
    refine ⟨fun rest hexited => ?_, fun batch status hhandling => ?_⟩
    · rw [hexited] at hend
      exact hend
    · rw [hhandling] at hend
      simpa using hend
  · intro hleaving es' s' hr'
    obtain ⟨hleaving₁, -⟩ := step_leaving hleaving hsend
    obtain ⟨-, hprefix⟩ := run_leaving hleaving₁ hr'
    cases took_of_step hsend with
    | send r hconnected hrunning => exact hprefix

def lostSocket : ThreadRequest :=
  .request (.flushConnection ⟨⟨"alice"⟩, "10.0.0.1:1", 2⟩ ⟨.disconnected, "socketrx", none⟩)

/-- `Close` has been gathered. -/
def closing : State ThreadInner ThreadRequest Unit Unit where
  state := .main (Shard.spawn {} 0)
  queue := []
  connected := true
  woken := false
  unannounced := 0
  phase := .gathering [.close]
  sent := [.close]
  answered := []
  log := []

/-- `Close` is being handled. -/
def closed : State ThreadInner ThreadRequest Unit Unit :=
  { closing with phase := .handling [.close] .drained false }

/-- The state when the I/O thread has posted. -/
def posted (s : State ThreadInner ThreadRequest Unit Unit) : State ThreadInner ThreadRequest Unit Unit :=
  { s with queue := [lostSocket], unannounced := 1, sent := [.close, lostSocket] }

/-- Posted while the batch is gathered, the request ends in an abort four steps later. Posted one step
after that batch is complete, it stays in the queue and the thread exits. -/
theorem close_races_flush_closing :
    (run (step (threadSpec fun shard _ => some shard) .events controlChanSize) (posted closing)
      [.gather, .gather, .handle, .handle]).map (fun s => s.phase) = some (.aborted [lostSocket]) ∧
    (∀ es' s', run (step (threadSpec fun shard _ => some shard) .events controlChanSize)
      (posted closing) es' = some s' → ∀ rest, s'.phase ≠ .exited rest) ∧
    (run (step (threadSpec fun shard _ => some shard) .events controlChanSize) (posted closed)
      [.handle, .handle]).map (fun s => s.phase) = some (.exited []) ∧
    (∀ es' s', run (step (threadSpec fun shard _ => some shard) .events controlChanSize)
      (posted closed) es' = some s' → [lostSocket] <+: s'.queue) := by
  have hgathered : run (step (threadSpec fun shard (_ : Unit) => some shard) .events controlChanSize)
      (init .events (.main (Shard.spawn {} 0))) [.send .close, .announce, .resume, .gather] =
        some closing := rfl
  have hhandled : run (step (threadSpec fun shard (_ : Unit) => some shard) .events controlChanSize)
      (init .events (.main (Shard.spawn {} 0))) [.send .close, .announce, .resume, .gather, .gather] =
        some closed := rfl
  have hsend : step (threadSpec fun shard _ => some shard) .events controlChanSize closing
      (.send lostSocket) = some (posted closing) := rfl
  have hlate : step (threadSpec fun shard _ => some shard) .events controlChanSize closed
      (.send lostSocket) = some (posted closed) := rfl
  have hrace := (close_races_flush hgathered hsend).1 id (by simp [State.upcoming, closing])
    (by decide)
  have hleft := (close_races_flush hhandled hlate).2 (.inr ⟨.close, by simp, rfl⟩)
  exact ⟨rfl, fun es' s' hr => (hrace es' s' hr).1, rfl, hleft⟩

end Shard

namespace Flusher

inductive Request where
  | flushConnection (socket : Socket) (err : Option Error)
  | close
  deriving DecidableEq

inductive Inner where
  | main
  | close
  deriving DecidableEq, Repr

/-- The thread with whatever `handle_flush_connection` does to the socket. -/
def spec (flush : Socket → Option Error → Option Unit) : Server.Spec Inner Request Unit Empty where
  handle
    | self, .flushConnection socket err => (flush socket err).map fun _ => (self, ())
    | _, .close => some (.close, ())
  closes
    | .close => true
    | .flushConnection _ _ => false
  work _ t := t.elim

/-- `get_requests` returns with 1025 requests, or when all handles are gone. Callers wait for their
answers and keep their handles meanwhile, so up to 1024 of them are never answered: not one connection is
flushed, and `close_wait` does not return. -/
theorem never_answers (flush : Socket → Option Error → Option Unit) {callers : ℕ}
    (hfew : callers ≤ controlChanSize) {es : List (Event Request Empty)}
    {s : State Inner Request Unit Empty}
    (hcalls : Along (step (spec flush) .requests controlChanSize) (Callers callers)
      (init .requests .main) es)
    (hr : run (step (spec flush) .requests controlChanSize) (init .requests .main) es = some s) :
    s.answered = [] ∧ ∃ batch, s.phase = .gathering batch ∧ batch ++ s.queue = s.sent := by
  have hinit : Stalled callers (init .requests .main : State Inner Request Unit Empty) :=
    ⟨⟨[], rfl, rfl⟩, rfl, rfl, by simp [init]⟩
  have hstalled : Stalled callers s :=
    run_invariant_of_along (fun _ _ _ => step_stalled hfew) hinit hcalls hr
  exact ⟨hstalled.answered, hstalled.phase⟩

theorem never_answers_close : ∃ s : State Inner Request Unit Empty,
    run (step (spec fun _ _ => some ()) .requests controlChanSize) (init .requests .main)
      [.send .close, .announce, .gather] = some s ∧ s.sent = [.close] ∧ s.answered = [] := by
  have hrun : (run (step (spec fun _ _ => some ()) .requests controlChanSize) (init .requests .main)
      [.send .close, .announce, .gather]).map (fun s => s.sent) = some [.close] := by rfl
  obtain ⟨s, hr, hsent⟩ := Option.map_eq_some_iff.mp hrun
  have hcalls : Along (step (spec fun _ _ => some ()) .requests controlChanSize) (Callers 1)
      (init .requests .main) [.send .close, .announce, .gather] := by decide
  exact ⟨s, hr, hsent, (never_answers _ (by decide) hcalls hr).1⟩

end Flusher
end Mqtr
