import Mathlib.Tactic
import Mqtr.Core.Transition

/-! A thread that serves requests. It gathers them from its queue in batches and handles a batch
request by request; it leaves once a batch had a closing request or all senders are gone. Between the
batches it may do work of its own. Senders wake it after they have sent. -/
namespace Server
open Transition

/-- What the thread does with its state. A handler that aborts has no outcome, nor has work that does. -/
structure Spec (σ ρ ω τ : Type) where
  handle : σ → ρ → Option (σ × ω)
  closes : ρ → Bool
  work : σ → τ → Option σ

inductive Loop where
  /-- Wait for an event, then take what is there, batch after batch. -/
  | events
  /-- Wait for requests until the batch is full, and leave at a closing request. -/
  | requests
  deriving DecidableEq, Repr

/-- How a batch came to its end. -/
inductive Status where
  | full
  | drained
  | disconnected
  deriving DecidableEq, Repr

/-- A thread that has left or aborted may have requests that it never came to. -/
inductive Phase (ρ : Type) where
  | parked
  | gathering (batch : List ρ)
  | handling (batch : List ρ) (status : Status) (closed : Bool)
  | exited (rest : List ρ)
  | aborted (rest : List ρ)
  deriving DecidableEq, Repr

/-- `sent`, `answered` and `log` record the requests, the answers, and the requests that were handled
together with the thread's own work. -/
structure State (σ ρ ω τ : Type) where
  state : σ
  queue : List ρ
  connected : Bool
  woken : Bool
  /-- Requests whose senders have not woken the thread yet. -/
  unannounced : ℕ
  phase : Phase ρ
  sent : List ρ
  answered : List (ρ × ω)
  log : List (ρ ⊕ τ)

inductive Event (ρ τ : Type) where
  | send (r : ρ)
  | announce
  | wake
  | disconnect
  | resume
  | gather
  | handle
  | work (t : τ)
  deriving DecidableEq, Repr

variable {σ ρ ω τ : Type}

/-- While the thread runs, its end of the queue is there. -/
def Phase.running : Phase ρ → Bool
  | .parked | .gathering _ | .handling _ _ _ => true
  | .exited _ | .aborted _ => false

def init (loop : Loop) (state : σ) : State σ ρ ω τ where
  state := state
  queue := []
  connected := true
  woken := false
  unannounced := 0
  phase :=
    match loop with
    | .events => .parked
    | .requests => .gathering []
  sent := []
  answered := []
  log := []

/-- One receive. -/
def gather (loop : Loop) (limit : ℕ) (s : State σ ρ ω τ) (batch : List ρ) : Option (State σ ρ ω τ) :=
  match s.queue, s.connected, loop with
  | r :: queue, _, _ =>
    if batch.length < limit then
      some { s with queue := queue, phase := .gathering (batch ++ [r]) }
    else some { s with queue := queue, phase := .handling (batch ++ [r]) .full false }
  | [], false, _ => some { s with phase := .handling batch .disconnected false }
  | [], true, .events => some { s with phase := .handling batch .drained false }
  | [], true, .requests => none

/-- Where the thread is after a request. -/
def Loop.after (loop : Loop) (closes : Bool) (rest : List ρ) (status : Status) (closed : Bool) :
    Phase ρ :=
  match loop, closes with
  | .requests, true => .exited rest
  | _, _ => .handling rest status (closed || closes)

/-- Where the thread is after a batch. -/
def Status.after (status : Status) (closed : Bool) : Phase ρ :=
  match closed, status with
  | true, _ | false, .disconnected => .exited []
  | false, .full => .gathering []
  | false, .drained => .parked

/-- The first request of the batch, or what follows the batch. -/
def handle (spec : Spec σ ρ ω τ) (loop : Loop) (s : State σ ρ ω τ) (batch : List ρ)
    (status : Status) (closed : Bool) : State σ ρ ω τ :=
  match batch with
  | [] => { s with phase := status.after closed }
  | r :: rest =>
    match spec.handle s.state r with
    | none => { s with phase := .aborted (r :: rest) }
    | some (state, w) =>
      { s with
        state := state
        answered := s.answered ++ [(r, w)]
        log := s.log ++ [.inl r]
        phase := loop.after (spec.closes r) rest status closed }

def step (spec : Spec σ ρ ω τ) (loop : Loop) (limit : ℕ) (s : State σ ρ ω τ) :
    Event ρ τ → Option (State σ ρ ω τ)
  | .send r =>
    match s.connected && s.phase.running with
    | true => some { s with
        queue := s.queue ++ [r], unannounced := s.unannounced + 1, sent := s.sent ++ [r] }
    | false => none
  | .announce => some { s with
      woken := s.woken || decide (0 < s.unannounced), unannounced := 0 }
  | .wake => some { s with woken := true }
  | .disconnect => some { s with connected := false }
  | .resume =>
    match s.phase, s.woken with
    | .parked, true => some { s with woken := false, phase := .gathering [] }
    | _, _ => none
  | .gather =>
    match s.phase with
    | .gathering batch => gather loop limit s batch
    | _ => none
  | .handle =>
    match s.phase with
    | .handling batch status closed => some (handle spec loop s batch status closed)
    | _ => none
  | .work t =>
    match s.phase, spec.work s.state t with
    | .parked, some state => some { s with state := state, log := s.log ++ [.inr t] }
    | .parked, none => some { s with phase := .aborted [] }
    | _, _ => none

/-- The steps, each with the condition under which it is taken. -/
inductive Took (spec : Spec σ ρ ω τ) (loop : Loop) (limit : ℕ) (s : State σ ρ ω τ) :
    Event ρ τ → State σ ρ ω τ → Prop
  | send (r : ρ) (hconnected : s.connected = true) (hrunning : s.phase.running = true) :
      Took spec loop limit s (.send r) { s with
        queue := s.queue ++ [r], unannounced := s.unannounced + 1, sent := s.sent ++ [r] }
  | announce : Took spec loop limit s .announce { s with
      woken := s.woken || decide (0 < s.unannounced), unannounced := 0 }
  | wake : Took spec loop limit s .wake { s with woken := true }
  | disconnect : Took spec loop limit s .disconnect { s with connected := false }
  | resume (hphase : s.phase = .parked) (hwoken : s.woken = true) :
      Took spec loop limit s .resume { s with woken := false, phase := .gathering [] }
  | take (batch : List ρ) (r : ρ) (queue : List ρ) (hphase : s.phase = .gathering batch)
      (hqueue : s.queue = r :: queue) (hlt : batch.length < limit) :
      Took spec loop limit s .gather { s with
        queue := queue, phase := .gathering (batch ++ [r]) }
  | takeLast (batch : List ρ) (r : ρ) (queue : List ρ) (hphase : s.phase = .gathering batch)
      (hqueue : s.queue = r :: queue) (hge : limit ≤ batch.length) :
      Took spec loop limit s .gather { s with
        queue := queue, phase := .handling (batch ++ [r]) .full false }
  | disconnected (batch : List ρ) (hphase : s.phase = .gathering batch) (hqueue : s.queue = [])
      (hconnected : s.connected = false) :
      Took spec loop limit s .gather { s with phase := .handling batch .disconnected false }
  | drained (batch : List ρ) (hphase : s.phase = .gathering batch) (hqueue : s.queue = [])
      (hloop : loop = .events) :
      Took spec loop limit s .gather { s with phase := .handling batch .drained false }
  | abort (r : ρ) (rest : List ρ) (status : Status) (closed : Bool)
      (hphase : s.phase = .handling (r :: rest) status closed)
      (hnone : spec.handle s.state r = none) :
      Took spec loop limit s .handle { s with phase := .aborted (r :: rest) }
  | answer (r : ρ) (rest : List ρ) (status : Status) (closed : Bool) (state : σ) (w : ω)
      (hphase : s.phase = .handling (r :: rest) status closed)
      (hsome : spec.handle s.state r = some (state, w)) :
      Took spec loop limit s .handle { s with
        state := state
        answered := s.answered ++ [(r, w)]
        log := s.log ++ [.inl r]
        phase := loop.after (spec.closes r) rest status closed }
  | finish (status : Status) (closed : Bool) (hphase : s.phase = .handling [] status closed) :
      Took spec loop limit s .handle { s with phase := status.after closed }
  | work (t : τ) (state : σ) (hphase : s.phase = .parked) (hsome : spec.work s.state t = some state) :
      Took spec loop limit s (.work t) { s with state := state, log := s.log ++ [.inr t] }
  | crash (t : τ) (hphase : s.phase = .parked) (hnone : spec.work s.state t = none) :
      Took spec loop limit s (.work t) { s with phase := .aborted [] }

section Took
variable {spec : Spec σ ρ ω τ} {loop : Loop} {limit : ℕ} {s s' : State σ ρ ω τ} {batch : List ρ}

theorem took_of_gather (hphase : s.phase = .gathering batch)
    (hs : gather loop limit s batch = some s') : Took spec loop limit s .gather s' := by
  unfold gather at hs
  split at hs
  next _ _ r queue hqueue =>
    split at hs
    next hlt =>
      obtain rfl := Option.some.inj hs
      exact .take batch r queue hphase hqueue hlt
    next hge =>
      obtain rfl := Option.some.inj hs
      exact .takeLast batch r queue hphase hqueue (not_lt.mp hge)
  next hqueue hconnected =>
    obtain rfl := Option.some.inj hs
    exact .disconnected batch hphase hqueue hconnected
  next hqueue hconnected =>
    obtain rfl := Option.some.inj hs
    exact .drained batch hphase hqueue rfl
  next => cases hs

theorem took_handle {status : Status} {closed : Bool}
    (hphase : s.phase = .handling batch status closed) :
    Took spec loop limit s .handle (handle spec loop s batch status closed) := by
  unfold handle
  split
  next => exact .finish status closed hphase
  next r rest =>
    split
    next hnone => exact .abort r rest status closed hphase hnone
    next state w hsome => exact .answer r rest status closed state w hphase hsome

theorem took_of_step {e : Event ρ τ} (hs : step spec loop limit s e = some s') :
    Took spec loop limit s e s' := by
  cases e with
  | send r =>
    simp only [step] at hs
    split at hs
    next hboth =>
      obtain rfl := Option.some.inj hs
      obtain ⟨hconnected, hrunning⟩ := Bool.and_eq_true_iff.mp hboth
      exact .send r hconnected hrunning
    next => cases hs
  | announce =>
    obtain rfl := Option.some.inj hs
    exact .announce
  | wake =>
    obtain rfl := Option.some.inj hs
    exact .wake
  | disconnect =>
    obtain rfl := Option.some.inj hs
    exact .disconnect
  | resume =>
    simp only [step] at hs
    split at hs
    next hphase hwoken =>
      obtain rfl := Option.some.inj hs
      exact .resume hphase hwoken
    next => cases hs
  | gather =>
    simp only [step] at hs
    split at hs
    next batch hphase => exact took_of_gather hphase hs
    next => cases hs
  | handle =>
    simp only [step] at hs
    split at hs
    next batch status closed hphase =>
      obtain rfl := Option.some.inj hs
      exact took_handle hphase
    next => cases hs
  | work t =>
    simp only [step] at hs
    split at hs
    next state hphase hsome =>
      obtain rfl := Option.some.inj hs
      exact .work t state hphase hsome
    next hphase hnone =>
      obtain rfl := Option.some.inj hs
      exact .crash t hphase hnone
    next => cases hs

end Took

/-- The same requests and work with no queue in between. -/
inductive Replays (spec : Spec σ ρ ω τ) (s₀ : σ) : List (ρ ⊕ τ) → σ → List ω → Prop
  | nil : Replays spec s₀ [] s₀ []
  | handle {log : List (ρ ⊕ τ)} {s s' : σ} {ws : List ω} {r : ρ} {w : ω}
      (h : Replays spec s₀ log s ws) (hs : spec.handle s r = some (s', w)) :
      Replays spec s₀ (log ++ [.inl r]) s' (ws ++ [w])
  | work {log : List (ρ ⊕ τ)} {s s' : σ} {ws : List ω} {t : τ}
      (h : Replays spec s₀ log s ws) (hs : spec.work s t = some s') :
      Replays spec s₀ (log ++ [.inr t]) s' ws

def Phase.pending : Phase ρ → List ρ
  | .parked => []
  | .gathering batch | .handling batch _ _ => batch
  | .exited rest | .aborted rest => rest

/-- Requests are answered in the order in which they were sent, as if each had been handled by itself. -/
structure Served (spec : Spec σ ρ ω τ) (s₀ : σ) (s : State σ ρ ω τ) : Prop where
  line : s.answered.map Prod.fst ++ s.phase.pending ++ s.queue = s.sent
  replays : Replays spec s₀ s.log s.state (s.answered.map Prod.snd)
  handled : s.log.filterMap Sum.getLeft? = s.answered.map Prod.fst

section Served
variable {spec : Spec σ ρ ω τ} {loop : Loop} {limit : ℕ} {s₀ : σ} {s s' : State σ ρ ω τ}

@[simp] theorem pending_parked : (Phase.parked : Phase ρ).pending = [] := rfl

@[simp] theorem pending_gathering (batch : List ρ) : (Phase.gathering batch).pending = batch := rfl

@[simp] theorem pending_handling (batch : List ρ) (status : Status) (closed : Bool) :
    (Phase.handling batch status closed).pending = batch := rfl

@[simp] theorem pending_aborted (rest : List ρ) : (Phase.aborted rest).pending = rest := rfl

@[simp] theorem pending_loop_after (closes closed : Bool) (rest : List ρ) (status : Status) :
    (loop.after closes rest status closed).pending = rest := by
  cases loop <;> cases closes <;> rfl

@[simp] theorem pending_status_after (status : Status) (closed : Bool) :
    (status.after closed : Phase ρ).pending = [] := by
  cases status <;> cases closed <;> rfl

theorem init_served : Served spec s₀ (init loop s₀) where
  line := by cases loop <;> rfl
  replays := .nil
  handled := rfl

theorem step_served {e : Event ρ τ} (h : Served spec s₀ s)
    (hs : step spec loop limit s e = some s') : Served spec s₀ s' := by
  have hline := h.line
  cases took_of_step hs with
  | send r hconnected hrunning => exact ⟨by simp [← hline], h.replays, h.handled⟩
  | announce => exact ⟨hline, h.replays, h.handled⟩
  | wake => exact ⟨hline, h.replays, h.handled⟩
  | disconnect => exact ⟨hline, h.replays, h.handled⟩
  | resume hphase hwoken =>
    exact ⟨by simpa [hphase] using hline, h.replays, h.handled⟩
  | take batch r queue hphase hqueue hlt =>
    exact ⟨by simpa [hphase, hqueue] using hline, h.replays, h.handled⟩
  | takeLast batch r queue hphase hqueue hge =>
    exact ⟨by simpa [hphase, hqueue] using hline, h.replays, h.handled⟩
  | disconnected batch hphase hqueue hconnected =>
    exact ⟨by simpa [hphase] using hline, h.replays, h.handled⟩
  | drained batch hphase hqueue hloop =>
    exact ⟨by simpa [hphase] using hline, h.replays, h.handled⟩
  | abort r rest status closed hphase hnone =>
    exact ⟨by simpa [hphase] using hline, h.replays, h.handled⟩
  | answer r rest status closed state w hphase hsome =>
    refine ⟨by simpa [hphase] using hline, ?_, ?_⟩
    · simpa using h.replays.handle hsome
    · simp [h.handled]
  | finish status closed hphase =>
    exact ⟨by simpa [hphase] using hline, h.replays, h.handled⟩
  | work t state hphase hsome => exact ⟨hline, h.replays.work hsome, by simp [h.handled]⟩
  | crash t hphase hnone => exact ⟨by simpa [hphase] using hline, h.replays, h.handled⟩

end Served

/-- The thread will look into its queue again before it sleeps. -/
def Phase.looking : Phase ρ → Bool
  | .gathering _ | .handling _ .full _ => true
  | _ => false

/-- While the thread runs: nothing is queued, or it looks again, or a wake-up is pending or owed. -/
def Attended (s : State σ ρ ω τ) : Prop :=
  s.phase.running = true →
    s.phase.looking = true ∨ s.queue = [] ∨ s.woken = true ∨ 0 < s.unannounced

section Attended
variable {spec : Spec σ ρ ω τ} {loop : Loop} {limit : ℕ} {s s' : State σ ρ ω τ}

theorem init_attended (s₀ : σ) : Attended (init loop s₀ : State σ ρ ω τ) :=
  fun _ => .inr (.inl rfl)

/-- The status of the batch decides whether the thread looks again. -/
theorem looking_loop_after {closes closed : Bool} {rest : List ρ} {status : Status}
    (hrunning : (loop.after closes rest status closed).running = true) :
    (loop.after closes rest status closed).looking = decide (status = .full) := by
  cases loop <;> cases closes <;> cases status <;> first | rfl | cases hrunning

theorem looking_status_after {closed : Bool} {status : Status}
    (hrunning : (status.after closed : Phase ρ).running = true) :
    (status.after closed : Phase ρ).looking = decide (status = .full) := by
  cases status <;> cases closed <;> first | rfl | cases hrunning

@[simp] theorem looking_handling (batch : List ρ) (status : Status) (closed : Bool) :
    (Phase.handling batch status closed).looking = decide (status = .full) := by
  cases status <;> rfl

theorem step_attended {e : Event ρ τ} (h : Attended s) (hs : step spec loop limit s e = some s') :
    Attended s' := by
  intro hrunning
  cases took_of_step hs with
  | send r hconnected hlive => exact .inr (.inr (.inr (Nat.succ_pos _)))
  | announce =>
    rcases h hrunning with hlook | hqueue | hwoken | hcount
    · exact .inl hlook
    · exact .inr (.inl hqueue)
    · exact .inr (.inr (.inl (by simp [hwoken])))
    · exact .inr (.inr (.inl (by simp [hcount])))
  | wake => exact .inr (.inr (.inl rfl))
  | disconnect => exact h hrunning
  | resume hphase hwoken => exact .inl rfl
  | take batch r queue hphase hqueue hlt => exact .inl rfl
  | takeLast batch r queue hphase hqueue hge => exact .inl rfl
  | disconnected batch hphase hqueue hconnected => exact .inr (.inl hqueue)
  | drained batch hphase hqueue hloop => exact .inr (.inl hqueue)
  | abort r rest status closed hphase hnone => cases hrunning
  | answer r rest status closed state w hphase hsome =>
    rw [looking_loop_after hrunning]
    simpa [hphase] using h (by simp [hphase, Phase.running])
  | finish status closed hphase =>
    rw [looking_status_after hrunning]
    simpa [hphase] using h (by simp [hphase, Phase.running])
  | work t state hphase hsome => exact h hrunning
  | crash t hphase hnone => cases hrunning

/-- A thread that sleeps with no wake-up pending or owed has nothing in its queue. -/
theorem Attended.empty (h : Attended s) (hphase : s.phase = .parked) (hwoken : s.woken = false)
    (hcount : s.unannounced = 0) : s.queue = [] := by
  rcases h (by simp [hphase, Phase.running]) with hlook | hqueue | hw | hc
  · simp [hphase, Phase.looking] at hlook
  · exact hqueue
  · simp [hwoken] at hw
  · omega

end Attended

/-- A closing request leads to a closed state, where nothing is handled any more. -/
structure Closable (spec : Spec σ ρ ω τ) (Closed : σ → Prop) : Prop where
  handle : ∀ {s r s' w}, spec.handle s r = some (s', w) → (Closed s' ↔ spec.closes r = true)
  stuck : ∀ {s} r, Closed s → spec.handle s r = none
  work : ∀ {s t s'}, spec.work s t = some s' → ¬ Closed s → ¬ Closed s'

/-- Outside a batch the state is open, and in a batch the thread knows whether it is. A closed state
has a closing request among the answered ones. -/
structure Tracks (spec : Spec σ ρ ω τ) (Closed : σ → Prop) (s : State σ ρ ω τ) : Prop where
  phase :
    match s.phase with
    | .parked | .gathering _ => ¬ Closed s.state
    | .handling _ _ closed => Closed s.state ↔ closed = true
    | .exited _ | .aborted _ => True
  answered : Closed s.state → ∃ e ∈ s.answered, spec.closes e.1 = true

section Closing
variable {spec : Spec σ ρ ω τ} {loop : Loop} {limit : ℕ} {s₀ : σ} {s s' : State σ ρ ω τ}
  {Closed : σ → Prop}

theorem init_tracks (h₀ : ¬ Closed s₀) : Tracks spec Closed (init loop s₀) where
  phase := by cases loop <;> exact h₀
  answered h := absurd h h₀

theorem step_tracks (hclose : Closable spec Closed) {e : Event ρ τ} (h : Tracks spec Closed s)
    (hs : step spec loop limit s e = some s') : Tracks spec Closed s' := by
  have hphase' := h.phase
  cases took_of_step hs with
  | send r hconnected hrunning => exact ⟨h.phase, h.answered⟩
  | announce => exact ⟨h.phase, h.answered⟩
  | wake => exact ⟨h.phase, h.answered⟩
  | disconnect => exact ⟨h.phase, h.answered⟩
  | resume hphase hwoken =>
    rw [hphase] at hphase'
    exact ⟨hphase', h.answered⟩
  | take batch r queue hphase hqueue hlt =>
    rw [hphase] at hphase'
    exact ⟨hphase', h.answered⟩
  | takeLast batch r queue hphase hqueue hge =>
    rw [hphase] at hphase'
    exact ⟨by simpa using hphase', h.answered⟩
  | disconnected batch hphase hqueue hconnected =>
    rw [hphase] at hphase'
    exact ⟨by simpa using hphase', h.answered⟩
  | drained batch hphase hqueue hloop =>
    rw [hphase] at hphase'
    exact ⟨by simpa using hphase', h.answered⟩
  | abort r rest status closed hphase hnone => exact ⟨trivial, h.answered⟩
  | answer r rest status closed state w hphase hsome =>
    rw [hphase] at hphase'
    have hopen : closed = false := by
      cases closed with
      | false => rfl
      | true => simp [hclose.stuck r (hphase'.mpr rfl)] at hsome
    have hiff := hclose.handle hsome
    refine ⟨?_, fun hc => ⟨(r, w), by simp, hiff.mp hc⟩⟩
    cases loop <;> cases hcloses : spec.closes r <;> simp_all [Loop.after]
  | finish status closed hphase =>
    rw [hphase] at hphase'
    refine ⟨?_, h.answered⟩
    cases status <;> cases closed <;> simp_all [Status.after]
  | work t state hphase hsome =>
    rw [hphase] at hphase'
    have hopen := hclose.work hsome hphase'
    exact ⟨by simpa [hphase] using hopen, fun hc => absurd hc hopen⟩
  | crash t hphase hnone => exact ⟨trivial, h.answered⟩

/-- Nothing is sent while an answer is due, nor after a closing request. -/
def OneAtATime (spec : Spec σ ρ ω τ) (s : State σ ρ ω τ) : Event ρ τ → Prop
  | .send _ => s.answered.length = s.sent.length ∧ ∀ r ∈ s.sent, spec.closes r = false
  | _ => True

instance OneAtATime.decidable (spec : Spec σ ρ ω τ) (s : State σ ρ ω τ) :
    ∀ e, Decidable (OneAtATime spec s e)
  | .send _ => inferInstanceAs (Decidable (_ ∧ _))
  | .announce | .wake | .disconnect | .resume | .gather | .handle | .work _ =>
    inferInstanceAs (Decidable True)

/-- At most one answer is due, and a closing request is the last of all. -/
structure Waits (spec : Spec σ ρ ω τ) (s : State σ ρ ω τ) : Prop where
  due : s.sent.length ≤ s.answered.length + 1
  last : ∀ r ∈ s.sent.dropLast, spec.closes r = false

theorem step_waits {e : Event ρ τ} (h : Waits spec s) (hcall : OneAtATime spec s e)
    (hs : step spec loop limit s e = some s') : Waits spec s' := by
  cases took_of_step hs with
  | send r hconnected hrunning =>
    refine ⟨by simp [hcall.1], ?_⟩
    simpa using hcall.2
  | answer r rest status closed state w hphase hsome =>
    have hdue := h.due
    exact ⟨by simp only [List.length_append, List.length_singleton]; omega, h.last⟩
  | _ => exact ⟨h.due, h.last⟩

/-- What comes after a request that was answered was sent after it. -/
theorem Served.open_of_pending {r : ρ} {rest : List ρ} (h : Served spec s₀ s) (hwaits : Waits spec s)
    (hpending : s.phase.pending = r :: rest) : ∀ e ∈ s.answered, spec.closes e.1 = false := by
  intro e he
  apply hwaits.last
  have hsent : s.sent = (s.answered.map Prod.fst) ++ (r :: (rest ++ s.queue)) := by
    simp [← h.line, hpending]
  rw [hsent, List.dropLast_append_of_ne_nil (by simp)]
  exact List.mem_append_left _ (List.mem_map_of_mem he)

/-- If the thread has aborted, it was open and in work of its own, not with a request. -/
def Calm (spec : Spec σ ρ ω τ) (Closed : σ → Prop) (s : State σ ρ ω τ) : Prop :=
  ∀ rest, s.phase = .aborted rest →
    rest = [] ∧ ¬ Closed s.state ∧ ∃ t, spec.work s.state t = none

/-- The handlers abort only when the thread is closed, and no request comes after the closing one. -/
theorem step_calm {e : Event ρ τ} (htotal : ∀ s r, spec.handle s r = none → Closed s)
    (hserved : Served spec s₀ s) (htracks : Tracks spec Closed s) (hwaits : Waits spec s)
    (h : Calm spec Closed s) (hs : step spec loop limit s e = some s') : Calm spec Closed s' := by
  cases took_of_step hs with
  | send r hconnected hrunning => exact h
  | announce => exact h
  | wake => exact h
  | disconnect => exact h
  | resume hphase hwoken => simp [Calm]
  | take batch r queue hphase hqueue hlt => simp [Calm]
  | takeLast batch r queue hphase hqueue hge => simp [Calm]
  | disconnected batch hphase hqueue hconnected => simp [Calm]
  | drained batch hphase hqueue hloop => simp [Calm]
  | abort r rest status closed hphase hnone =>
    obtain ⟨e, he, hcloses⟩ := htracks.answered (htotal _ _ hnone)
    have hopen := hserved.open_of_pending hwaits (by rw [hphase]; rfl) e he
    simp [hopen] at hcloses
  | answer r rest status closed state w hphase hsome =>
    cases loop <;> cases hcloses : spec.closes r <;> simp [Calm, Loop.after]
  | finish status closed hphase =>
    cases status <;> cases closed <;> simp [Calm, Status.after]
  | work t state hphase hsome => simp [Calm, hphase]
  | crash t hphase hnone =>
    intro rest hrest
    cases hrest
    have hopen := htracks.phase
    rw [hphase] at hopen
    exact ⟨rfl, hopen, t, hnone⟩

/-- A thread whose handlers abort only when it is closed does not abort on a request of such a caller. -/
theorem run_oneAtATime {es : List (Event ρ τ)} (hclose : Closable spec Closed)
    (htotal : ∀ s r, spec.handle s r = none → Closed s) (h₀ : ¬ Closed s₀)
    (hcalls : Along (step spec loop limit) (OneAtATime spec) (init loop s₀) es)
    (hr : run (step spec loop limit) (init loop s₀) es = some s) :
    Served spec s₀ s ∧ Tracks spec Closed s ∧ Waits spec s ∧ Calm spec Closed s := by
  refine run_invariant_of_along (P := fun s => Served spec s₀ s ∧ Tracks spec Closed s ∧
    Waits spec s ∧ Calm spec Closed s) ?_ ?_ hcalls hr
  · rintro s e s' ⟨hserved, htracks, hwaits, hcalm⟩ hcall hs
    exact ⟨step_served hserved hs, step_tracks hclose htracks hs, step_waits hwaits hcall hs,
      step_calm htotal hserved htracks hwaits hcalm hs⟩
  · refine ⟨init_served, init_tracks h₀, ⟨by simp [init], by simp [init]⟩, ?_⟩
    cases loop <;> simp [Calm, init]

/-- The request comes after a closing one, among the first `limit + 1`. -/
def Behind (spec : Spec σ ρ ω τ) (limit : ℕ) (r : ρ) (l : List ρ) : Prop :=
  ∃ front q mid back, l = front ++ q :: (mid ++ r :: back) ∧ spec.closes q = true ∧
    front.length + mid.length < limit

theorem Behind.append {r : ρ} {l : List ρ} (h : Behind spec limit r l) (l' : List ρ) :
    Behind spec limit r (l ++ l') := by
  obtain ⟨front, q, mid, back, rfl, hq, hlt⟩ := h
  exact ⟨front, q, mid, back ++ l', by simp, hq, hlt⟩

/-- The first `limit + 1` requests are enough to see it. -/
theorem Behind.of_append {r : ρ} {l l' : List ρ} (h : Behind spec limit r (l ++ l'))
    (hlen : limit < l.length) : Behind spec limit r l := by
  obtain ⟨front, q, mid, back, heq, hq, hlt⟩ := h
  have hall : front ++ q :: (mid ++ [r]) <+: l ++ l' := ⟨back, by simp [heq]⟩
  have hfront : front ++ q :: (mid ++ [r]) <+: l := by
    apply List.prefix_of_prefix_length_le hall (List.prefix_append l l')
    simp only [List.length_append, List.length_cons, List.length_nil]
    omega
  obtain ⟨back', rfl⟩ := hfront
  exact ⟨front, q, mid, back', by simp, hq, hlt⟩

theorem behind_concat {q r : ρ} {l : List ρ} (hmem : q ∈ l) (hq : spec.closes q = true)
    (hroom : l.length ≤ limit) : Behind spec limit r (l ++ [r]) := by
  obtain ⟨front, mid, rfl⟩ := List.append_of_mem hmem
  refine ⟨front, q, mid, [], by simp, hq, ?_⟩
  simp only [List.length_append, List.length_cons] at hroom
  omega

/-- What the next batch will begin with, of the requests that have been sent. -/
def State.upcoming (s : State σ ρ ω τ) : List ρ :=
  match s.phase with
  | .gathering batch => batch ++ s.queue
  | _ => s.queue

/-- The batch that is being handled has, or had, a closing request: the thread takes no other. -/
def Leaving (spec : Spec σ ρ ω τ) (s : State σ ρ ω τ) : Prop :=
  match s.phase with
  | .handling batch _ closed => closed = true ∨ ∃ q ∈ batch, spec.closes q = true
  | .exited _ | .aborted _ => True
  | .parked | .gathering _ => False

/-- A batch ends with all senders gone only when they are. -/
def Linked (s : State σ ρ ω τ) : Prop :=
  ∀ batch closed, s.phase = .handling batch .disconnected closed → s.connected = false

theorem step_linked {e : Event ρ τ} (h : Linked s) (hs : step spec loop limit s e = some s') :
    Linked s' := by
  cases took_of_step hs with
  | send r hconnected hrunning => exact h
  | announce => exact h
  | wake => exact h
  | disconnect => exact fun _ _ _ => rfl
  | resume hphase hwoken => simp [Linked]
  | take batch r queue hphase hqueue hlt => simp [Linked]
  | takeLast batch r queue hphase hqueue hge => simp [Linked]
  | disconnected batch hphase hqueue hconnected => exact fun _ _ _ => hconnected
  | drained batch hphase hqueue hloop => simp [Linked]
  | abort r rest status closed hphase hnone => simp [Linked]
  | answer r rest status closed state w hphase hsome =>
    intro batch closed' hafter
    cases status with
    | disconnected => exact h _ _ hphase
    | _ => cases loop <;> cases hcloses : spec.closes r <;> simp [Loop.after, hcloses] at hafter
  | finish status closed hphase =>
    cases status <;> cases closed <;> simp [Linked, Status.after]
  | work t state hphase hsome => simp [Linked, hphase]
  | crash t hphase hnone => simp [Linked]

/-- The request `r` is in one batch with a closing one before it, or will be. -/
def Doomed (spec : Spec σ ρ ω τ) (limit : ℕ) (r : ρ) (s : State σ ρ ω τ) : Prop :=
  match s.phase with
  | .parked => Behind spec limit r s.queue
  | .gathering batch => batch.length ≤ limit ∧ Behind spec limit r (batch ++ s.queue)
  | .handling batch status closed =>
    closed = true ∧ r ∈ batch ∨
      closed = false ∧ (∃ front q mid back, batch = front ++ q :: (mid ++ r :: back) ∧
        spec.closes q = true) ∨
      closed = false ∧ status ≠ .disconnected ∧ (∀ q ∈ batch, spec.closes q = false) ∧
        Behind spec limit r s.queue
  | .aborted _ => True
  | .exited _ => False

theorem Behind.exists {r : ρ} {l : List ρ} (h : Behind spec limit r l) :
    ∃ front q mid back, l = front ++ q :: (mid ++ r :: back) ∧ spec.closes q = true := by
  obtain ⟨front, q, mid, back, hl, hq, -⟩ := h
  exact ⟨front, q, mid, back, hl, hq⟩

/-- Whatever is sent while a closing request waits for its batch comes behind it. -/
theorem doomed_of_send {q r : ρ} (hlinked : Linked s) (hstays : ¬ Leaving spec s)
    (hmem : q ∈ s.upcoming) (hq : spec.closes q = true) (hroom : s.upcoming.length ≤ limit)
    (hs : step spec loop limit s (.send r) = some s') : Doomed spec limit r s' := by
  cases took_of_step hs with
  | send r hconnected hrunning =>
    unfold State.upcoming at hmem hroom
    unfold Leaving at hstays
    unfold Doomed
    dsimp only
    cases hphase : s.phase with
    | parked =>
      rw [hphase] at hmem hroom
      exact behind_concat hmem hq hroom
    | gathering batch =>
      rw [hphase] at hmem hroom
      have hbehind := behind_concat (r := r) hmem hq hroom
      rw [List.append_assoc] at hbehind
      exact ⟨(Nat.le_add_right _ _).trans (List.length_append ▸ hroom), hbehind⟩
    | handling batch status closed =>
      rw [hphase] at hmem hroom hstays
      obtain ⟨hopen, hnone⟩ := not_or.mp hstays
      have hstatus : status ≠ .disconnected := by
        rintro rfl
        simp [hlinked _ _ hphase] at hconnected
      refine .inr (.inr ⟨by simpa using hopen, hstatus, ?_, behind_concat hmem hq hroom⟩)
      simpa using hnone
    | exited rest => simp [hphase, Phase.running] at hrunning
    | aborted rest => simp [hphase, Phase.running] at hrunning

theorem step_doomed (hclose : Closable spec Closed) {e : Event ρ τ} {r : ρ}
    (htracks : Tracks spec Closed s) (h : Doomed spec limit r s)
    (hs : step spec .events limit s e = some s') : Doomed spec limit r s' := by
  have hphase' := htracks.phase
  unfold Doomed at h
  cases took_of_step hs with
  | send r' hconnected hrunning =>
    unfold Doomed
    dsimp only
    cases hphase : s.phase with
    | parked =>
      rw [hphase] at h
      exact h.append [r']
    | gathering batch =>
      rw [hphase] at h
      exact ⟨h.1, by simpa using h.2.append [r']⟩
    | handling batch status closed =>
      rw [hphase] at h
      refine h.imp_right (.imp_right ?_)
      rintro ⟨hopen, hstatus, hnone, hbehind⟩
      exact ⟨hopen, hstatus, hnone, hbehind.append [r']⟩
    | exited rest => simp [hphase, Phase.running] at hrunning
    | aborted rest => trivial
  | announce => exact h
  | wake => exact h
  | disconnect => exact h
  | resume hphase hwoken =>
    rw [hphase] at h
    exact ⟨Nat.zero_le _, h⟩
  | take batch r' queue hphase hqueue hlt =>
    rw [hphase] at h
    exact ⟨by simpa using hlt, by simpa [hqueue] using h.2⟩
  | takeLast batch r' queue hphase hqueue hge =>
    rw [hphase] at h
    have hbehind : Behind spec limit r ((batch ++ [r']) ++ queue) := by simpa [hqueue] using h.2
    exact .inr (.inl ⟨rfl, (hbehind.of_append (by simpa using hge)).exists⟩)
  | disconnected batch hphase hqueue hconnected =>
    rw [hphase] at h
    have hbehind : Behind spec limit r batch := by simpa [hqueue] using h.2
    exact .inr (.inl ⟨rfl, hbehind.exists⟩)
  | drained batch hphase hqueue hloop =>
    rw [hphase] at h
    have hbehind : Behind spec limit r batch := by simpa [hqueue] using h.2
    exact .inr (.inl ⟨rfl, hbehind.exists⟩)
  | abort r' rest status closed hphase hnone => trivial
  | answer r' rest status closed state w hphase hsome =>
    rw [hphase] at h hphase'
    rcases h with ⟨rfl, -⟩ | ⟨rfl, front, q, mid, back, hbatch, hq⟩ | ⟨rfl, hstatus, hnone, hbehind⟩
    · -- after the closing request nothing is handled
      simp [hclose.stuck r' (hphase'.mpr rfl)] at hsome
    · cases front with
      | nil =>
        obtain ⟨rfl, rfl⟩ := List.cons.inj hbatch
        exact .inl ⟨by simp [hq], by simp⟩
      | cons x front =>
        obtain ⟨rfl, rfl⟩ := List.cons.inj hbatch
        cases hcloses : spec.closes r' with
        | true => exact .inl ⟨rfl, by simp⟩
        | false => exact .inr (.inl ⟨rfl, front, q, mid, back, rfl, hq⟩)
    · obtain ⟨hopen, hnone⟩ := List.forall_mem_cons.mp hnone
      exact .inr (.inr ⟨by simp [hopen], hstatus, hnone, hbehind⟩)
  | finish status closed hphase =>
    rw [hphase] at h
    rcases h with ⟨-, hr⟩ | ⟨-, front, q, mid, back, hbatch, -⟩ | ⟨rfl, hstatus, -, hbehind⟩
    · simp at hr
    · simp at hbatch
    · cases status with
      | full => exact ⟨Nat.zero_le _, hbehind⟩
      | drained => exact hbehind
      | disconnected => exact absurd rfl hstatus
  | work t state hphase hsome =>
    rw [hphase] at h
    simpa [Doomed, hphase] using h
  | crash t hphase hnone => trivial

theorem run_doomed (hclose : Closable spec Closed) {es : List (Event ρ τ)} {r : ρ}
    (htracks : Tracks spec Closed s) (h : Doomed spec limit r s)
    (hr : run (step spec .events limit) s es = some s') : Doomed spec limit r s' := by
  refine (run_invariant (P := fun t => Tracks spec Closed t ∧ Doomed spec limit r t) ?_
    ⟨htracks, h⟩ hr).2
  rintro t e t' ⟨htracks, hdoomed⟩ ht
  exact ⟨step_tracks hclose htracks ht, step_doomed hclose htracks hdoomed ht⟩

/-- A thread that leaves takes nothing from its queue any more. -/
theorem step_leaving {e : Event ρ τ} (h : Leaving spec s)
    (hs : step spec .events limit s e = some s') : Leaving spec s' ∧ s.queue <+: s'.queue := by
  unfold Leaving at h
  cases took_of_step hs with
  | send r hconnected hrunning => exact ⟨h, List.prefix_append _ _⟩
  | announce => exact ⟨h, List.prefix_rfl⟩
  | wake => exact ⟨h, List.prefix_rfl⟩
  | disconnect => exact ⟨h, List.prefix_rfl⟩
  | resume hphase hwoken => simp [hphase] at h
  | take batch r queue hphase hqueue hlt => simp [hphase] at h
  | takeLast batch r queue hphase hqueue hge => simp [hphase] at h
  | disconnected batch hphase hqueue hconnected => simp [hphase] at h
  | drained batch hphase hqueue hloop => simp [hphase] at h
  | abort r rest status closed hphase hnone => exact ⟨trivial, List.prefix_rfl⟩
  | answer r rest status closed state w hphase hsome =>
    rw [hphase] at h
    refine ⟨?_, List.prefix_rfl⟩
    rcases h with rfl | ⟨q, hmem, hq⟩
    · exact .inl rfl
    · rcases List.mem_cons.mp hmem with rfl | hmem
      · exact .inl (by simp [hq])
      · exact .inr ⟨q, hmem, hq⟩
  | finish status closed hphase =>
    rw [hphase] at h
    refine ⟨?_, List.prefix_rfl⟩
    obtain rfl : closed = true := by simpa using h
    trivial
  | work t state hphase hsome => simp [hphase] at h
  | crash t hphase hnone => simp [hphase] at h

theorem run_leaving {es : List (Event ρ τ)} (h : Leaving spec s)
    (hr : run (step spec .events limit) s es = some s') : Leaving spec s' ∧ s.queue <+: s'.queue := by
  refine run_invariant (P := fun t => Leaving spec t ∧ s.queue <+: t.queue) ?_
    ⟨h, List.prefix_rfl⟩ hr
  rintro t e t' ⟨hleaving, hprefix⟩ ht
  obtain ⟨hleaving', hprefix'⟩ := step_leaving hleaving ht
  exact ⟨hleaving', hprefix.trans hprefix'⟩

end Closing

/-- So many callers at most, which all wait for their answers and keep their handles. -/
def Callers (k : ℕ) (s : State σ ρ ω τ) : Event ρ τ → Prop
  | .send _ => s.sent.length < s.answered.length + k
  | .disconnect => False
  | _ => True

instance Callers.decidable (k : ℕ) (s : State σ ρ ω τ) : ∀ e, Decidable (Callers k s e)
  | .send _ => inferInstanceAs (Decidable (_ < _))
  | .disconnect => inferInstanceAs (Decidable False)
  | .announce | .wake | .resume | .gather | .handle | .work _ => inferInstanceAs (Decidable True)

/-- Everything that was sent is in the first batch, or waits for it. -/
structure Stalled (k : ℕ) (s : State σ ρ ω τ) : Prop where
  phase : ∃ batch, s.phase = .gathering batch ∧ batch ++ s.queue = s.sent
  connected : s.connected = true
  answered : s.answered = []
  few : s.sent.length ≤ k

/-- As many callers as the batch may hold are not enough to fill it. -/
theorem step_stalled {spec : Spec σ ρ ω τ} {limit k : ℕ} {s s' : State σ ρ ω τ} {e : Event ρ τ}
    (hk : k ≤ limit) (h : Stalled k s) (hcall : Callers k s e)
    (hs : step spec .requests limit s e = some s') : Stalled k s' := by
  obtain ⟨⟨batch, hgather, hsent⟩, hconnected, hanswered, hfew⟩ := h
  cases took_of_step hs with
  | send r hconn hrunning =>
    have hlt : s.sent.length < s.answered.length + k := hcall
    rw [hanswered] at hlt
    exact ⟨⟨batch, hgather, by simp [← hsent]⟩, hconnected, hanswered, by simpa using hlt⟩
  | announce => exact ⟨⟨batch, hgather, hsent⟩, hconnected, hanswered, hfew⟩
  | wake => exact ⟨⟨batch, hgather, hsent⟩, hconnected, hanswered, hfew⟩
  | disconnect => exact hcall.elim
  | resume hphase hwoken => simp [hgather] at hphase
  | take batch' r queue hphase hqueue hlt =>
    obtain rfl : batch = batch' := by simpa [hgather] using hphase
    exact ⟨⟨batch ++ [r], rfl, by simpa [hqueue] using hsent⟩, hconnected, hanswered, hfew⟩
  | takeLast batch' r queue hphase hqueue hge =>
    obtain rfl : batch = batch' := by simpa [hgather] using hphase
    have hlen := congrArg List.length hsent
    simp only [hqueue, List.length_append, List.length_cons] at hlen
    omega
  | disconnected batch' hphase hqueue hconn => simp [hconnected] at hconn
  | drained batch' hphase hqueue hloop => cases hloop
  | abort r rest status closed hphase hnone => simp [hgather] at hphase
  | answer r rest status closed state w hphase hsome => simp [hgather] at hphase
  | finish status closed hphase => simp [hgather] at hphase
  | work t state hphase hsome => simp [hgather] at hphase
  | crash t hphase hnone => simp [hgather] at hphase

end Server
