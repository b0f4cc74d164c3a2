import Mathlib.Data.ENat.Basic
import Mathlib.Tactic
import Mqtr.Core.Transition

/-! A queue whose receiver sleeps until it is woken. A sender announces what it has put in with one
wake-up afterwards, and wake-ups that nobody has seen yet count as one. The receiver takes a batch of
limited size and goes back to sleep. Only the number of queued values matters here. -/
namespace Wakeup
variable {ι : Type}

inductive Receiver where
  | parked
  | draining (taken : ℕ)
  deriving DecidableEq, Repr

structure State (ι : Type) where
  queued : ℕ
  woken : Bool
  /-- What a sender has put in since its last wake-up. -/
  unannounced : ι → ℕ
  receiver : Receiver

inductive Event (ι : Type) where
  | send (i : ι)
  | announce (i : ι)
  /-- A wake-up for another reason. -/
  | wake
  | resume
  | receive

/-- The batch ends where the queue is found empty, and after one more value than its limit. -/
def step [DecidableEq ι] (capacity limit : ℕ∞) (s : State ι) : Event ι → Option (State ι)
  | .send i =>
    if s.queued < capacity then
      some { s with
        queued := s.queued + 1
        unannounced := Function.update s.unannounced i (s.unannounced i + 1) }
    else none
  | .announce i =>
    some { s with
      woken := s.woken || decide (0 < s.unannounced i)
      unannounced := Function.update s.unannounced i 0 }
  | .wake => some { s with woken := true }
  | .resume =>
    match s.receiver, s.woken with
    | .parked, true => some { s with woken := false, receiver := .draining 0 }
    | _, _ => none
  | .receive =>
    match s.receiver with
    | .parked => none
    | .draining taken =>
      if s.queued = 0 then some { s with receiver := .parked }
      else if taken < limit then
        some { s with queued := s.queued - 1, receiver := .draining (taken + 1) }
      else some { s with queued := s.queued - 1, receiver := .parked }

/-- What the receiver will still take without another wake-up is all there is. -/
def Receiver.Covers (limit : ℕ∞) (queued : ℕ) : Receiver → Prop
  | .parked => queued = 0
  | .draining taken => taken + queued ≤ limit

/-- A wake-up is pending or owed, or the receiver takes care of everything by itself. -/
def Attended (limit : ℕ∞) (s : State ι) : Prop :=
  s.woken = true ∨ (∃ i, 0 < s.unannounced i) ∨ s.receiver.Covers limit s.queued

structure Inv (capacity limit : ℕ∞) (s : State ι) : Prop where
  fits : s.queued ≤ capacity
  attended : Attended limit s

variable {capacity limit : ℕ∞} {s s' : State ι} {i : ι}

/-- A sleeping receiver that nobody is about to wake has left nothing in the queue. -/
theorem Inv.empty (h : Inv capacity limit s) (hr : s.receiver = .parked) (hw : s.woken = false)
    (hu : ∀ i, s.unannounced i = 0) : s.queued = 0 := by
  rcases h.attended with hw' | ⟨i, hi⟩ | hc
  · simp [hw] at hw'
  · simp [hu i] at hi
  · simpa [hr, Receiver.Covers] using hc

variable [DecidableEq ι]

theorem inv_of_send (hs : step capacity limit s (.send i) = some s') : Inv capacity limit s' := by
  obtain ⟨hroom, rfl⟩ : (s.queued : ℕ∞) < capacity ∧ _ := by simpa [step] using hs
  refine ⟨by simpa using Order.add_one_le_of_lt hroom, .inr (.inl ⟨i, ?_⟩)⟩
  simp

theorem Inv.announce (h : Inv capacity limit s)
    (hs : step capacity limit s (.announce i) = some s') : Inv capacity limit s' := by
  obtain rfl := Option.some.inj hs
  refine ⟨h.fits, ?_⟩
  rcases h.attended with hw | ⟨j, hj⟩ | hc
  · exact .inl (by simp [hw])
  · by_cases hij : j = i
    · subst hij
      exact .inl (by simp [hj])
    · exact .inr (.inl ⟨j, by simpa [hij] using hj⟩)
  · exact .inr (.inr hc)

/-- A batch may be as large as the queue, so a receiver that starts takes all that is there. -/
theorem Inv.resume (hcap : capacity ≤ limit) (h : Inv capacity limit s)
    (hs : step capacity limit s .resume = some s') : Inv capacity limit s' := by
  simp only [step] at hs
  split at hs
  · obtain rfl := Option.some.inj hs
    refine ⟨h.fits, .inr (.inr ?_)⟩
    simpa [Receiver.Covers] using h.fits.trans hcap
  · cases hs

theorem Inv.receive (h : Inv capacity limit s)
    (hs : step capacity limit s .receive = some s') : Inv capacity limit s' := by
  obtain ⟨queued, woken, unannounced, receiver⟩ := s
  cases receiver with
  | parked => cases hs
  | draining taken =>
    cases queued with
    | zero =>
      obtain rfl := Option.some.inj hs
      exact ⟨h.fits, .inr (.inr rfl)⟩
    | succ queued =>
      have hfits : (queued : ℕ∞) ≤ capacity := le_trans (by simp) h.fits
      by_cases hlt : (taken : ℕ∞) < limit
      · obtain rfl : _ = s' := by simpa [step, hlt] using hs
        refine ⟨hfits, h.attended.imp_right (.imp_right fun hc => ?_)⟩
        simpa [Receiver.Covers, add_comm, add_left_comm, add_assoc] using hc
      · obtain rfl : _ = s' := by simpa [step, hlt] using hs
        -- a full batch with something left over has a wake-up to come
        refine ⟨hfits, h.attended.imp_right (.imp_right fun hc => ?_)⟩
        have hle : (taken : ℕ∞) + (queued + 1 : ℕ) ≤ limit := hc
        refine absurd (lt_of_lt_of_le ?_ hle) hlt
        exact_mod_cast Nat.lt_add_of_pos_right (Nat.succ_pos queued)

theorem step_inv (hcap : capacity ≤ limit) {e : Event ι} (h : Inv capacity limit s)
    (hs : step capacity limit s e = some s') : Inv capacity limit s' := by
  cases e with
  | send i => exact inv_of_send hs
  | announce i => exact h.announce hs
  | wake =>
    obtain rfl := Option.some.inj hs
    exact ⟨h.fits, .inl rfl⟩
  | resume => exact h.resume hcap hs
  | receive => exact h.receive hs
end Wakeup
