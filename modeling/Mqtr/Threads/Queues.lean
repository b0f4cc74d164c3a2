import Mqtr.Core.Relay
import Mqtr.Core.Wakeup

/-! The bounded queues between threads, `pkt_channel` from a socket to its session and `msg_channel` from
shard to shard. A sender passes its back log to `try_sends`, keeps what there was no room for, and wakes
the receiving thread when the handle is dropped; the receiver calls `try_recvs` once in each pass of its
loop. A step is one operation on the channel or on the waker, so the two threads may take their steps in
any order. The way back from a session to its socket is a `pkt_channel` too, but `flush_messages` does not
keep what there was no room for, and is not a sender in this sense. -/
namespace Mqtr

/-- How the caller of `try_sends` holds its handle. `send_upstream` clones it for the call and drops the
clone, `send_messages` uses the handle that stays in `shard_queues` until the shard handles `Close`. -/
inductive Handle where
  | cloned
  | kept
  deriving DecidableEq, Repr

namespace Channel

inductive Call (α : Type) where
  | idle
  /-- In the loop of `try_sends`, with what its iterator still has. -/
  | sending (iter : List α)
  /-- After the loop, before the clone is dropped. -/
  | returning
  /-- The handle is gone with its shard. -/
  | closed
  deriving DecidableEq, Repr

/-- A sender with its back log: `packets` of a source, or a shard's back log for one other shard. -/
structure Tx (α : Type) where
  backLog : List α
  count : ℕ
  call : Call α
  deriving DecidableEq, Repr

inductive Rx (α : Type) where
  | polling
  /-- Between `poll` and the end of `try_recvs`, with the values received in this pass. -/
  | receiving (values : List α)
  | dropped
  deriving DecidableEq, Repr

inductive Event (ι α : Type) where
  | book (i : ι) (a : α)
  | trySends (i : ι)
  | trySend (i : ι)
  | dropTx (i : ι)
  /-- A wake-up by the ticker, a control request or another queue of the same thread. -/
  | wake
  | poll
  | tryRecv
  | dropRx
  deriving DecidableEq, Repr

end Channel

/-- `booked`, `taken` and `discarded` record what each sender has booked, what the receiver has handed
on, and what was in the queue when the receiver was dropped. -/
structure Channel (ι α : Type) where
  queue : List (ι × α)
  woken : Bool
  tx : ι → Channel.Tx α
  rx : Channel.Rx (ι × α)
  booked : ι → List α
  taken : List (ι × α)
  discarded : List (ι × α)

namespace Channel
open Transition
variable {ι α : Type}

def init : Channel ι α :=
  { queue := [], woken := false, tx := fun _ => ⟨[], 0, .idle⟩, rx := .polling,
    booked := fun _ => [], taken := [], discarded := [] }

section Step
variable [DecidableEq ι]

/-- The end of `try_sends`, with the values that are given back. -/
def leave (handle : Handle) (tx : Tx α) (left : List α) : Tx α :=
  { tx with
    backLog := left
    call := match handle with
      | .cloned => .returning
      | .kept => .idle }

/-- One turn of the loop in `try_sends`. -/
def trySend (handle : Handle) (size : ℕ) (s : Channel ι α) (i : ι) : Option (Channel ι α) :=
  match (s.tx i).call with
  | .sending [] => some { s with tx := Function.update s.tx i (leave handle (s.tx i) []) }
  | .sending (a :: iter) =>
    match s.rx, decide (s.queue.length < size) with
    | .dropped, _ | _, false =>
      some { s with tx := Function.update s.tx i (leave handle (s.tx i) (a :: iter)) }
    | _, true =>
      some { s with
        queue := s.queue ++ [(i, a)]
        tx := Function.update s.tx i
          { s.tx i with count := (s.tx i).count + 1, call := .sending iter } }
  | _ => none

/-- One turn of the loop in `try_recvs`; what it returns goes to `handle_packets` or to the sessions. -/
def tryRecv (size : ℕ) (s : Channel ι α) : Option (Channel ι α) :=
  match s.rx, s.queue with
  | .receiving values, [] => some { s with rx := .polling, taken := s.taken ++ values }
  | .receiving values, v :: queue =>
    if values.length < size then
      some { s with queue := queue, rx := .receiving (values ++ [v]) }
    else
      some { s with queue := queue, rx := .polling, taken := s.taken ++ (values ++ [v]) }
  | _, _ => none

def step (handle : Handle) (size : ℕ) (s : Channel ι α) : Event ι α → Option (Channel ι α)
  | .book i a =>
    match (s.tx i).call with
    | .idle =>
      some { s with
        tx := Function.update s.tx i { s.tx i with backLog := (s.tx i).backLog ++ [a] }
        booked := Function.update s.booked i (s.booked i ++ [a]) }
    | _ => none
  | .trySends i =>
    match (s.tx i).call with
    | .idle =>
      some { s with
        tx := Function.update s.tx i
          { s.tx i with backLog := [], call := .sending (s.tx i).backLog } }
    | _ => none
  | .trySend i => trySend handle size s i
  | .dropTx i =>
    match handle, (s.tx i).call with
    | _, .returning =>
      some { s with
        woken := s.woken || decide (0 < (s.tx i).count)
        tx := Function.update s.tx i { s.tx i with count := 0, call := .idle } }
    | .kept, .idle =>
      some { s with
        woken := s.woken || decide (0 < (s.tx i).count)
        tx := Function.update s.tx i { s.tx i with count := 0, call := .closed } }
    | _, _ => none
  | .wake => some { s with woken := true }
  | .poll =>
    match s.rx, s.woken with
    | .polling, true => some { s with woken := false, rx := .receiving [] }
    | _, _ => none
  | .tryRecv => tryRecv size s
  | .dropRx =>
    match s.rx with
    | .polling => some { s with queue := [], rx := .dropped, discarded := s.discarded ++ s.queue }
    | _ => none

end Step

section Took
variable [DecidableEq ι]

/-- The steps, each with the condition under which it is taken. -/
inductive Took (handle : Handle) (size : ℕ) (s : Channel ι α) : Event ι α → Channel ι α → Prop
  | book (i : ι) (a : α) (hcall : (s.tx i).call = .idle) :
      Took handle size s (.book i a) { s with
        tx := Function.update s.tx i { s.tx i with backLog := (s.tx i).backLog ++ [a] }
        booked := Function.update s.booked i (s.booked i ++ [a]) }
  | trySends (i : ι) (hcall : (s.tx i).call = .idle) :
      Took handle size s (.trySends i) { s with
        tx := Function.update s.tx i
          { s.tx i with backLog := [], call := .sending (s.tx i).backLog } }
  | leave (i : ι) (iter : List α) (hcall : (s.tx i).call = .sending iter) :
      Took handle size s (.trySend i) { s with
        tx := Function.update s.tx i (leave handle (s.tx i) iter) }
  | send (i : ι) (a : α) (iter : List α) (hcall : (s.tx i).call = .sending (a :: iter))
      (hrx : s.rx ≠ .dropped) (hroom : s.queue.length < size) :
      Took handle size s (.trySend i) { s with
        queue := s.queue ++ [(i, a)]
        tx := Function.update s.tx i
          { s.tx i with count := (s.tx i).count + 1, call := .sending iter } }
  | dropTx (i : ι) (hcall : (s.tx i).call = .returning) :
      Took handle size s (.dropTx i) { s with
        woken := s.woken || decide (0 < (s.tx i).count)
        tx := Function.update s.tx i { s.tx i with count := 0, call := .idle } }
  | closeTx (i : ι) (hhandle : handle = .kept) (hcall : (s.tx i).call = .idle) :
      Took handle size s (.dropTx i) { s with
        woken := s.woken || decide (0 < (s.tx i).count)
        tx := Function.update s.tx i { s.tx i with count := 0, call := .closed } }
  | wake : Took handle size s .wake { s with woken := true }
  | poll (hrx : s.rx = .polling) (hwoken : s.woken = true) :
      Took handle size s .poll { s with woken := false, rx := .receiving [] }
  | recvEmpty (values : List (ι × α)) (hrx : s.rx = .receiving values) (hqueue : s.queue = []) :
      Took handle size s .tryRecv { s with rx := .polling, taken := s.taken ++ values }
  | recvMore (values : List (ι × α)) (v : ι × α) (queue : List (ι × α))
      (hrx : s.rx = .receiving values) (hqueue : s.queue = v :: queue)
      (hlt : values.length < size) :
      Took handle size s .tryRecv { s with queue := queue, rx := .receiving (values ++ [v]) }
  | recvLast (values : List (ι × α)) (v : ι × α) (queue : List (ι × α))
      (hrx : s.rx = .receiving values) (hqueue : s.queue = v :: queue)
      (hge : size ≤ values.length) :
      Took handle size s .tryRecv { s with
        queue := queue, rx := .polling, taken := s.taken ++ (values ++ [v]) }
  | dropRx (hrx : s.rx = .polling) :
      Took handle size s .dropRx { s with
        queue := [], rx := .dropped, discarded := s.discarded ++ s.queue }

variable {handle : Handle} {size : ℕ} {s s' : Channel ι α} {i : ι}

theorem took_of_trySend (hs : trySend handle size s i = some s') :
    Took handle size s (.trySend i) s' := by
  unfold trySend at hs
  split at hs
  next hcall =>
    obtain rfl := Option.some.inj hs
    exact .leave i [] hcall
  next a iter hcall =>
    split at hs
    · obtain rfl := Option.some.inj hs
      exact .leave i (a :: iter) hcall
    · obtain rfl := Option.some.inj hs
      exact .leave i (a :: iter) hcall
    next _ _ hroom hrx =>
      obtain rfl := Option.some.inj hs
      exact .send i a iter hcall hrx (of_decide_eq_true hroom)
  next => cases hs

theorem took_of_tryRecv (hs : tryRecv size s = some s') : Took handle size s .tryRecv s' := by
  unfold tryRecv at hs
  split at hs
  next values hrx hqueue =>
    obtain rfl := Option.some.inj hs
    exact .recvEmpty values hrx hqueue
  next values v queue hrx hqueue =>
    split at hs
    next hlt =>
      obtain rfl := Option.some.inj hs
      exact .recvMore values v queue hrx hqueue hlt
    next hge =>
      obtain rfl := Option.some.inj hs
      exact .recvLast values v queue hrx hqueue (not_lt.mp hge)
  next => cases hs

theorem took_of_step {e : Event ι α} (hs : step handle size s e = some s') :
    Took handle size s e s' := by
  cases e with
  | trySend i => exact took_of_trySend hs
  | tryRecv => exact took_of_tryRecv hs
  | wake =>
    obtain rfl := Option.some.inj hs
    exact .wake
  | book i a =>
    simp only [step] at hs
    split at hs
    next hcall =>
      obtain rfl := Option.some.inj hs
      exact .book i a hcall
    next => cases hs
  | trySends i =>
    simp only [step] at hs
    split at hs
    next hcall =>
      obtain rfl := Option.some.inj hs
      exact .trySends i hcall
    next => cases hs
  | dropTx i =>
    simp only [step] at hs
    split at hs
    next hcall =>
      obtain rfl := Option.some.inj hs
      exact .dropTx i hcall
    next hcall =>
      obtain rfl := Option.some.inj hs
      exact .closeTx i rfl hcall
    next => cases hs
  | poll =>
    simp only [step] at hs
    split at hs
    next hrx hwoken =>
      obtain rfl := Option.some.inj hs
      exact .poll hrx hwoken
    next => cases hs
  | dropRx =>
    simp only [step] at hs
    split at hs
    next hrx =>
      obtain rfl := Option.some.inj hs
      exact .dropRx hrx
    next => cases hs

end Took

/-- What a sender has not put into the queue yet, in its order. -/
def Tx.unsent (tx : Tx α) : List α :=
  match tx.call with
  | .sending iter => iter ++ tx.backLog
  | _ => tx.backLog

def Rx.values : Rx α → List α
  | .receiving values => values
  | _ => []

section Line
variable [DecidableEq ι] {handle : Handle} {size : ℕ} {s s' : Channel ι α} {i : ι}

/-- What a sender has booked is, in its order, what the receiver has handed on, what it holds, what was
discarded, what is queued and what is unsent. A call of `try_sends` has emptied the back log. -/
structure InLine (s : Channel ι α) : Prop where
  drained : ∀ i iter, (s.tx i).call = .sending iter → (s.tx i).backLog = []
  alive : s.rx ≠ .dropped → s.discarded = []
  line : ∀ i, Relay.ofKey i s.taken ++ Relay.ofKey i s.rx.values ++ Relay.ofKey i s.discarded ++
    Relay.ofKey i s.queue ++ (s.tx i).unsent = s.booked i

theorem init_inLine : InLine (init : Channel ι α) :=
  ⟨fun _ _ h => by simp [init] at h, fun _ => rfl, fun _ => rfl⟩

/-- A step that changes one sender only, and nothing that is in line for it. -/
theorem InLine.setTx (h : InLine s) {tx : Tx α}
    (hdrained : ∀ iter, tx.call = .sending iter → tx.backLog = [])
    (hunsent : tx.unsent = (s.tx i).unsent) (woken : Bool) :
    InLine { s with woken := woken, tx := Function.update s.tx i tx } := by
  refine ⟨fun j => ?_, h.alive, fun j => ?_⟩
  · by_cases hj : j = i
    · subst hj
      simpa using hdrained
    · simpa [hj] using h.drained j
  · by_cases hj : j = i
    · subst hj
      simpa [hunsent] using h.line j
    · simpa [hj] using h.line j

/-- A step of the receiver, which passes values on from the queue. -/
theorem InLine.setRx (h : InLine s) (hrx : s.rx ≠ .dropped) {rx : Rx (ι × α)}
    {taken queue : List (ι × α)}
    (hmoved : taken ++ rx.values ++ queue = s.taken ++ s.rx.values ++ s.queue) (woken : Bool) :
    InLine { s with woken := woken, rx := rx, taken := taken, queue := queue } := by
  have hnone := h.alive hrx
  refine ⟨h.drained, fun _ => hnone, fun j => ?_⟩
  have hline := h.line j
  have hkeys := congrArg (Relay.ofKey j) hmoved
  simp only [hnone, Relay.ofKey_append, Relay.ofKey_nil, List.append_nil] at hline hkeys ⊢
  rw [hkeys, hline]

theorem step_inLine {e : Event ι α} (h : InLine s) (hs : step handle size s e = some s') :
    InLine s' := by
  cases took_of_step hs with
  | book i a hcall =>
    refine ⟨fun j => ?_, h.alive, fun j => ?_⟩
    · by_cases hj : j = i
      · subst hj
        simp [hcall]
      · simpa [hj] using h.drained j
    · by_cases hj : j = i
      · subst hj
        simp [← h.line j, Tx.unsent, hcall]
      · simpa [hj] using h.line j
  | trySends i hcall => exact h.setTx (by simp) (by simp [Tx.unsent, hcall]) s.woken
  | leave i iter hcall =>
    have hdrained := h.drained i iter hcall
    refine h.setTx (fun iter' hc => ?_) ?_ s.woken
    · cases handle <;> simp [leave] at hc
    · cases handle <;> simp [leave, Tx.unsent, hcall, hdrained]
  | send i a iter hcall hrx hroom =>
    have hdrained := h.drained i _ hcall
    refine ⟨fun j => ?_, h.alive, fun j => ?_⟩
    · by_cases hj : j = i
      · subst hj
        simp [hdrained]
      · simpa [hj] using h.drained j
    · by_cases hj : j = i
      · subst hj
        simp [← h.line j, Tx.unsent, hcall, Relay.ofKey_cons]
      · simpa [hj, Relay.ofKey_cons, Ne.symm hj] using h.line j
  | dropTx i hcall => exact h.setTx (by simp) (by simp [Tx.unsent, hcall]) _
  | closeTx i hhandle hcall => exact h.setTx (by simp) (by simp [Tx.unsent, hcall]) _
  | wake => exact ⟨h.drained, h.alive, h.line⟩
  | poll hrx hwoken => exact h.setRx (by simp [hrx]) (by simp [hrx, Rx.values]) false
  | recvEmpty values hrx hqueue =>
    exact h.setRx (by simp [hrx]) (by simp [hrx, Rx.values]) s.woken
  | recvMore values v queue hrx hqueue hlt =>
    exact h.setRx (by simp [hrx]) (by simp [hrx, hqueue, Rx.values]) s.woken
  | recvLast values v queue hrx hqueue hge =>
    exact h.setRx (by simp [hrx]) (by simp [hrx, hqueue, Rx.values]) s.woken
  | dropRx hrx => exact ⟨h.drained, fun hd => absurd rfl hd, by simpa [hrx, Rx.values] using h.line⟩

end Line

/-- The queue as the general argument on wake-ups sees it. -/
def view (s : Channel ι α) : Wakeup.State ι where
  queued := s.queue.length
  woken := s.woken
  unannounced i := (s.tx i).count
  receiver :=
    match s.rx with
    | .polling | .dropped => .parked
    | .receiving values => .draining values.length

/-- A clone counts from nothing, since the handle it is taken from is never sent on; and a handle that is
gone has nothing left to announce. -/
structure Tx.Fresh (handle : Handle) (tx : Tx α) : Prop where
  cloned : handle = .cloned → tx.call = .idle → tx.count = 0
  closed : tx.call = .closed → tx.count = 0

/-- Nothing is owed to a receiver that is gone. -/
structure Attended (handle : Handle) (size : ℕ) (s : Channel ι α) : Prop where
  inv : s.rx ≠ .dropped → Wakeup.Inv size size s.view
  fresh : ∀ i, (s.tx i).Fresh handle

theorem init_attended {handle : Handle} {size : ℕ} :
    Attended handle size (init : Channel ι α) := by
  refine ⟨fun _ => ⟨?_, .inr (.inr rfl)⟩, fun _ => ⟨fun _ _ => rfl, fun _ => rfl⟩⟩
  simp [view, init]

section Wake
variable [DecidableEq ι] {handle : Handle} {size : ℕ} {s s' : Channel ι α} {i : ι}

/-- A change of one sender's handle, seen through the view. -/
theorem view_setTx (woken : Bool) (tx : Tx α) :
    view { s with woken := woken, tx := Function.update s.tx i tx } =
      { s.view with
        woken := woken
        unannounced := Function.update s.view.unannounced i tx.count } := by
  simp only [view, Wakeup.State.mk.injEq, true_and, and_true]
  funext j
  by_cases hj : j = i
  · subst hj
    simp
  · simp [hj]

theorem view_setTx_count {tx : Tx α} (hcount : tx.count = (s.tx i).count) :
    view { s with tx := Function.update s.tx i tx } = s.view := by
  have hview := view_setTx (s := s) (i := i) s.woken tx
  rw [hview, hcount]
  simp [view]

/-- A step of the code is a step of the general queue, or nothing there. -/
theorem step_view {e : Event ι α} (hs : step handle size s e = some s') (hrx : s'.rx ≠ .dropped) :
    s'.view = s.view ∨ ∃ e', Wakeup.step size size s.view e' = some s'.view := by
  cases took_of_step hs with
  | book i a hcall => exact .inl (view_setTx_count rfl)
  | trySends i hcall => exact .inl (view_setTx_count rfl)
  | leave i iter hcall => exact .inl (view_setTx_count rfl)
  | send i a iter hcall hlive hroom =>
    have hview := view_setTx (s := { s with queue := s.queue ++ [(i, a)] }) (i := i) s.woken
      { s.tx i with count := (s.tx i).count + 1, call := .sending iter }
    refine .inr ⟨.send i, ?_⟩
    rw [hview]
    simp [Wakeup.step, view, hroom]
  | dropTx i hcall =>
    refine .inr ⟨.announce i, ?_⟩
    rw [view_setTx]
    rfl
  | closeTx i hhandle hcall =>
    refine .inr ⟨.announce i, ?_⟩
    rw [view_setTx]
    rfl
  | wake => exact .inr ⟨.wake, rfl⟩
  | poll hpolling hwoken => exact .inr ⟨.resume, by simp [Wakeup.step, view, hpolling, hwoken]⟩
  | recvEmpty values hrecv hqueue =>
    exact .inr ⟨.receive, by simp [Wakeup.step, view, hrecv, hqueue]⟩
  | recvMore values v queue hrecv hqueue hlt =>
    exact .inr ⟨.receive, by simp [Wakeup.step, view, hrecv, hqueue, hlt]⟩
  | recvLast values v queue hrecv hqueue hge =>
    exact .inr ⟨.receive, by simp [Wakeup.step, view, hrecv, hqueue, hge]⟩
  | dropRx hpolling => exact absurd rfl hrx

/-- A receiver that is gone stays so. -/
theorem step_rx_dropped {e : Event ι α} (hs : step handle size s e = some s')
    (hrx : s.rx = .dropped) : s'.rx = .dropped := by
  cases took_of_step hs <;> simp_all

/-- What every sender meets, and the one that is changed still meets, every sender meets. -/
theorem forall_setTx {P : Tx α → Prop} (h : ∀ i, P (s.tx i)) {tx : Tx α} (htx : P tx) (j : ι) :
    P (Function.update s.tx i tx j) := by
  by_cases hj : j = i
  · subst hj
    simpa using htx
  · simpa [hj] using h j

theorem step_fresh {e : Event ι α} (h : ∀ i, (s.tx i).Fresh handle)
    (hs : step handle size s e = some s') : ∀ i, (s'.tx i).Fresh handle := by
  cases took_of_step hs with
  | book i a hcall => exact forall_setTx h ⟨(h i).cloned, (h i).closed⟩
  | trySends i hcall => exact forall_setTx h ⟨by simp, by simp⟩
  | leave i iter hcall =>
    refine forall_setTx h ⟨?_, ?_⟩
    · rintro rfl
      simp [leave]
    · cases handle <;> simp [leave]
  | send i a iter hcall hrx hroom => exact forall_setTx h ⟨by simp, by simp⟩
  | dropTx i hcall => exact forall_setTx h ⟨by simp, by simp⟩
  | closeTx i hhandle hcall => exact forall_setTx h ⟨by simp, by simp⟩
  | wake => exact h
  | poll hrx hwoken => exact h
  | recvEmpty values hrx hqueue => exact h
  | recvMore values v queue hrx hqueue hlt => exact h
  | recvLast values v queue hrx hqueue hge => exact h
  | dropRx hrx => exact h

theorem step_attended {e : Event ι α} (h : s.Attended handle size)
    (hs : step handle size s e = some s') : s'.Attended handle size := by
  refine ⟨fun hrx => ?_, ?_⟩
  · have hinv := h.inv fun hd => hrx (step_rx_dropped hs hd)
    obtain hview | ⟨e', hview⟩ := step_view hs hrx
    · rwa [hview]
    · exact Wakeup.step_inv le_rfl hinv hview
  · exact step_fresh h.fresh hs

end Wake

section Runs
variable [DecidableEq ι] {handle : Handle} {size : ℕ} {s s' : Channel ι α} {es : List (Event ι α)}

theorem run_inLine (hr : run (step handle size) init es = some s) : InLine s :=
  run_invariant (fun _ _ _ => step_inLine) init_inLine hr

theorem run_attended (hr : run (step handle size) init es = some s) : Attended handle size s :=
  run_invariant (fun _ _ _ => step_attended) init_attended hr

omit [DecidableEq ι] in
/-- What a sleeping receiver can have missed has been announced to it. -/
theorem Attended.empty (h : Attended handle size s) (hrx : s.rx = .polling) (hwoken : s.woken = false)
    (hcount : ∀ i, (s.tx i).count = 0) : s.queue = [] := by
  have hempty := (h.inv (by simp [hrx])).empty (by simp [view, hrx]) hwoken hcount
  exact List.length_eq_zero_iff.mp hempty

/-- Whatever the order of the steps of the two threads, the packets of a socket reach its session
complete and in their order, and none of them waits in the queue of a session whose thread sleeps with
no wake-up on its way. -/
theorem cloned_in_order_and_attended (hr : run (step .cloned size) init es = some s) :
    (∀ i, Relay.ofKey i s.taken ++ Relay.ofKey i s.rx.values ++ Relay.ofKey i s.discarded ++
      Relay.ofKey i s.queue ++ (s.tx i).unsent = s.booked i) ∧
    (s.rx = .polling → s.woken = false → (∀ i, (s.tx i).call = .idle) → s.queue = []) := by
  have hatt := run_attended hr
  refine ⟨(run_inLine hr).line, fun hrx hwoken hidle => ?_⟩
  exact hatt.empty hrx hwoken fun i => (hatt.fresh i).cloned rfl (hidle i)

/-- Three packets and room for one. The session's thread takes the first while `try_sends` is running,
and the second as the last of its batch; the third stays with the socket. -/
def burst : List (Event Unit ℕ) :=
  [.book () 1, .book () 2, .book () 3, .trySends (), .trySend (), .wake, .poll, .tryRecv,
    .trySend (), .trySend (), .tryRecv, .dropTx (), .poll, .tryRecv]

theorem cloned_in_order_and_attended_burst :
    ∃ s : Channel Unit ℕ, run (step .cloned 1) init burst = some s ∧ s.taken = [((), 1), ((), 2)] ∧
      (s.tx ()).backLog = [3] ∧
      Relay.ofKey () s.taken ++ Relay.ofKey () s.rx.values ++ Relay.ofKey () s.discarded ++
        Relay.ofKey () s.queue ++ (s.tx ()).unsent = s.booked () ∧ s.queue = [] := by
  have hrun : (run (step .cloned 1) init burst).map
      (fun s => (s.taken, s.tx (), s.rx, s.woken)) =
        some ([((), 1), ((), 2)], ⟨[3], 0, .idle⟩, .polling, false) := by
    decide
  obtain ⟨s, hr, hs⟩ := Option.map_eq_some_iff.mp hrun
  simp only [Prod.mk.injEq] at hs
  obtain ⟨htaken, htx, hrx, hwoken⟩ := hs
  obtain ⟨hline, hempty⟩ := cloned_in_order_and_attended hr
  exact ⟨s, hr, htaken, by rw [htx], hline (), hempty hrx hwoken fun i => by rw [htx]⟩

/-- The receiver is not in a pass, and nobody has woken it. -/
structure Asleep (s : Channel ι α) : Prop where
  outside : ∀ values, s.rx ≠ .receiving values
  woken : s.woken = false

/-- Sending wakes nobody: only the drop of a handle does. -/
theorem step_asleep {e : Event ι α} (h : s.Asleep) (he : e ≠ .wake) (hdrop : ∀ i, e ≠ .dropTx i)
    (hs : step handle size s e = some s') : s'.Asleep ∧ s'.taken = s.taken := by
  cases took_of_step hs with
  | book i a hcall => exact ⟨⟨h.outside, h.woken⟩, rfl⟩
  | trySends i hcall => exact ⟨⟨h.outside, h.woken⟩, rfl⟩
  | leave i iter hcall => exact ⟨⟨h.outside, h.woken⟩, rfl⟩
  | send i a iter hcall hrx hroom => exact ⟨⟨h.outside, h.woken⟩, rfl⟩
  | dropTx i hcall => exact absurd rfl (hdrop i)
  | closeTx i hhandle hcall => exact absurd rfl (hdrop i)
  | wake => exact absurd rfl he
  | poll hrx hwoken => simp [h.woken] at hwoken
  | recvEmpty values hrx hqueue => exact absurd hrx (h.outside values)
  | recvMore values v queue hrx hqueue hlt => exact absurd hrx (h.outside values)
  | recvLast values v queue hrx hqueue hge => exact absurd hrx (h.outside values)
  | dropRx hrx => exact ⟨⟨by simp, h.woken⟩, rfl⟩

theorem run_asleep (h : s.Asleep) (hno : Event.wake ∉ es) (hdrop : ∀ i, Event.dropTx i ∉ es)
    (hr : run (step handle size) s es = some s') : s'.Asleep ∧ s'.taken = s.taken := by
  have hG : Along (step handle size) (fun _ e => e ≠ .wake ∧ ∀ i, e ≠ .dropTx i) s es :=
    along_of_forall fun _ e he => ⟨fun h => hno (h ▸ he), fun i h => hdrop i (h ▸ he)⟩
  refine run_invariant_of_along (P := fun t => t.Asleep ∧ t.taken = s.taken) ?_ ⟨h, rfl⟩ hG hr
  rintro t e t' ⟨hasleep, htaken⟩ ⟨he, hd⟩ ht
  obtain ⟨hasleep', htaken'⟩ := step_asleep hasleep he hd ht
  exact ⟨hasleep', htaken'.trans htaken⟩

/-- In a pass that began with `first` taken and queued: it comes first of all that the receiver has and
will have, and a full batch covers it. After the pass it has been taken. -/
def InPass (size : ℕ) (first : List (ι × α)) (s : Channel ι α) : Prop :=
  match s.rx with
  | .receiving values =>
    first <+: s.taken ++ values ++ s.queue ∧ first.length ≤ s.taken.length + size
  | .polling | .dropped => first <+: s.taken

omit [DecidableEq ι] in
/-- A longer queue is as good, and so is any change of the senders. -/
theorem InPass.grow {first : List (ι × α)} (h : s.InPass size first) (queue : List (ι × α))
    (woken : Bool) (tx : ι → Tx α) (booked : ι → List α) :
    InPass size first
      { s with queue := s.queue ++ queue, woken := woken, tx := tx, booked := booked } := by
  unfold InPass at h ⊢
  cases hrx : s.rx with
  | polling => simpa [hrx] using h
  | dropped => simpa [hrx] using h
  | receiving values =>
    simp only [hrx] at h ⊢
    exact ⟨by simpa using h.1.trans (List.prefix_append _ queue), h.2⟩

theorem step_inPass {e : Event ι α} {first : List (ι × α)} (h : s.InPass size first)
    (he : e ≠ .poll) (hs : step handle size s e = some s') : s'.InPass size first := by
  cases took_of_step hs with
  | book i a hcall => simpa using h.grow [] s.woken _ _
  | trySends i hcall => simpa using h.grow [] s.woken _ _
  | leave i iter hcall => simpa using h.grow [] s.woken _ _
  | send i a iter hcall hrx hroom => exact h.grow [(i, a)] s.woken _ _
  | dropTx i hcall => simpa using h.grow [] _ _ _
  | closeTx i hhandle hcall => simpa using h.grow [] _ _ _
  | wake => simpa using h.grow [] true _ _
  | poll hrx hwoken => exact absurd rfl he
  | recvEmpty values hrx hqueue =>
    simp only [InPass, hrx, hqueue, List.append_nil] at h ⊢
    exact h.1
  | recvMore values v queue hrx hqueue hlt => simpa [InPass, hrx, hqueue] using h
  | recvLast values v queue hrx hqueue hge =>
    simp only [InPass, hrx, hqueue] at h ⊢
    -- the batch is longer than what was there at its beginning
    have hlen : first.length ≤ (s.taken ++ (values ++ [v])).length := by
      have := h.2
      simp only [List.length_append, List.length_singleton]
      omega
    exact List.prefix_of_prefix_length_le h.1 ⟨queue, by simp⟩ hlen
  | dropRx hrx => simpa [InPass, hrx] using h

theorem poll_inPass (hfits : s.queue.length ≤ size) (hs : step handle size s .poll = some s') :
    s'.InPass size (s.taken ++ s.queue) := by
  cases took_of_step hs with
  | poll hrx hwoken => simp [InPass, hfits]

/-- Between one poll and the next. -/
theorem run_inPass (hfits : s.queue.length ≤ size) (hno : Event.poll ∉ es)
    (hr : run (step handle size) s (.poll :: es) = some s') :
    s'.InPass size (s.taken ++ s.queue) := by
  obtain ⟨t, ht, hr⟩ := run_cons.mp hr
  have hG : Along (step handle size) (fun _ e => e ≠ .poll) t es :=
    along_of_forall fun _ e he h => hno (h ▸ he)
  exact run_invariant_of_along (fun _ _ _ => step_inPass) (poll_inPass hfits ht) hG hr

/-- Messages from shard to shard arrive complete and in their order, but as long as the sending shards run
no number of them wakes the receiving one: without a wake-up from elsewhere (the ticker, a control request,
a packet of one of its own clients) it takes none. A pass of its loop takes everything that was queued when
it was woken. A shard that closes drops its handle, which wakes the receiver; once all have closed nothing
is left behind in the queue of a shard that sleeps. -/
theorem kept_waits_for_wake (hr : run (step .kept size) init es = some s) :
    (∀ i, Relay.ofKey i s.taken ++ Relay.ofKey i s.rx.values ++ Relay.ofKey i s.discarded ++
      Relay.ofKey i s.queue ++ (s.tx i).unsent = s.booked i) ∧
    (∀ es' s', Event.wake ∉ es' → (∀ i, Event.dropTx i ∉ es') → s.Asleep →
      run (step .kept size) s es' = some s' → s'.Asleep ∧ s'.taken = s.taken) ∧
    (∀ es' s', Event.poll ∉ es' → run (step .kept size) s (.poll :: es') = some s' →
      s'.rx = .polling → s.taken ++ s.queue <+: s'.taken) ∧
    (s.rx = .polling → s.woken = false → (∀ i, (s.tx i).call = .closed) → s.queue = []) := by
  have hatt := run_attended hr
  refine ⟨(run_inLine hr).line, fun es' s' hno hdrop hs hr' => run_asleep hs hno hdrop hr', ?_, ?_⟩
  · intro es' s' hno hr' hrx
    have hfits : s.queue.length ≤ size := by
      obtain ⟨t, ht, -⟩ := run_cons.mp hr'
      cases took_of_step ht with
      | poll hpolling hwoken => simpa [view] using (hatt.inv (by simp [hpolling])).fits
    simpa [InPass, hrx] using run_inPass hfits hno hr'
  · intro hrx hwoken hclosed
    exact hatt.empty hrx hwoken fun i => (hatt.fresh i).closed (hclosed i)

/-- Two shards fill the queue of a third. -/
def twoShards : List (Event Bool ℕ) :=
  [.book true 1, .book false 2, .trySends true, .trySends false, .trySend false, .trySend true,
    .trySend true, .trySend false]

/-- They leave it asleep, and more of the same changes nothing; the pass after the next tick takes both
messages. When the shards close instead, the receiver is woken. -/
theorem kept_waits_for_wake_twoShards :
    ∃ s t s' u : Channel Bool ℕ, run (step .kept 2) init twoShards = some s ∧
      s.queue = [(false, 2), (true, 1)] ∧ s.Asleep ∧
      (∀ s₁, run (step .kept 2) s [.book true 3, .trySends true, .trySend true] = some s₁ →
        s₁.Asleep ∧ s₁.taken = s.taken) ∧
      step .kept 2 s .wake = some t ∧
      run (step .kept 2) t [.poll, .tryRecv, .tryRecv, .tryRecv] = some s' ∧
      t.taken ++ t.queue <+: s'.taken ∧
      run (step .kept 2) s [.dropTx true, .dropTx false] = some u ∧ u.woken = true := by
  have hrun : (run (step .kept 2) init twoShards).map
      (fun s => (s.queue, s.tx true, s.tx false, s.rx, s.woken)) =
        some ([(false, 2), (true, 1)], ⟨[], 1, .idle⟩, ⟨[], 1, .idle⟩, .polling, false) := by
    rfl
  obtain ⟨s, hr, hs⟩ := Option.map_eq_some_iff.mp hrun
  simp only [Prod.mk.injEq] at hs
  obtain ⟨hqueue, htrue, hfalse, hrx, hwoken⟩ := hs
  have hasleep : s.Asleep := ⟨by simp [hrx], hwoken⟩
  have ht : run (step .kept 2) init (twoShards ++ [.wake]) = some { s with woken := true } :=
    run_append.mpr ⟨s, hr, rfl⟩
  have hpass : run (step .kept 2) { s with woken := true } [.poll, .tryRecv, .tryRecv, .tryRecv] =
      some { s with
        queue := [], woken := false, rx := .polling, taken := s.taken ++ [(false, 2), (true, 1)] } := by
    simp [run, step, tryRecv, hqueue, hrx]
  have hclose : (run (step .kept 2) s [.dropTx true, .dropTx false]).map (fun u => u.woken) =
      some true := by
    simp [run, step, htrue, hfalse]
  obtain ⟨u, hu, hwoken'⟩ := Option.map_eq_some_iff.mp hclose
  exact ⟨s, _, _, u, hr, hqueue, hasleep,
    fun s₁ => (kept_waits_for_wake hr).2.1 _ s₁ (by decide) (by decide) hasleep, rfl, hpass,
    (kept_waits_for_wake ht).2.2.1 [.tryRecv, .tryRecv, .tryRecv] _ (by decide) hpass rfl, hu, hwoken'⟩

end Runs
end Channel
end Mqtr
