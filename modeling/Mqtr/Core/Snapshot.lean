import Mqtr.Core.Transition

/-! A shared cell whose operations read a snapshot and later write back what they computed from it.
Reading and writing are atomic, the computation between them is not protected. -/

namespace Snapshot
variable {σ ο τ : Type}

structure Cell (σ ο : Type) where
  current : σ
  /-- Operations that have read, with what they read. -/
  inFlight : List (ο × σ)
  /-- Operations that have written, in the order of their writes. -/
  finished : List ο

inductive Event (ο : Type) where
  | read (op : ο)
  | write (i : ℕ)
  deriving DecidableEq, Repr

def init (s : σ) : Cell σ ο := ⟨s, [], []⟩

/-- An operation that aborts between its two steps never writes. -/
def step (apply : σ → ο → Option σ) (c : Cell σ ο) : Event ο → Option (Cell σ ο)
  | .read op => some { c with inFlight := c.inFlight ++ [(op, c.current)] }
  | .write i =>
    c.inFlight[i]?.bind fun e => (apply e.2 e.1).map fun s =>
      ⟨s, c.inFlight.eraseIdx i, c.finished ++ [e.1]⟩

/-- The operations started by a list of events. -/
def started (events : List (Event ο)) : List ο :=
  events.filterMap fun
    | .read op => some op
    | .write _ => none

/-- A write is fresh if its snapshot still shows what the cell shows. -/
def Fresh (view : σ → τ) (c : Cell σ ο) : Event ο → Prop
  | .read _ => True
  | .write i => ∀ e, c.inFlight[i]? = some e → view c.current = view e.2

variable {apply : σ → ο → Option σ}

theorem step_write_eq_some {c c' : Cell σ ο} {i : ℕ} :
    step apply c (.write i) = some c' ↔ ∃ e s, c.inFlight[i]? = some e ∧ apply e.2 e.1 = some s ∧
      c' = ⟨s, c.inFlight.eraseIdx i, c.finished ++ [e.1]⟩ := by
  simp only [step, Option.bind_eq_some_iff, Option.map_eq_some_iff]
  constructor
  · rintro ⟨e, he, s, hs, rfl⟩
    exact ⟨e, s, he, hs, rfl⟩
  · rintro ⟨e, s, he, hs, rfl⟩
    exact ⟨e, he, s, hs, rfl⟩

/-- No operation gets lost or doubled: the started ones are the finished ones and those in flight. -/
theorem started_perm {c c' : Cell σ ο} {events : List (Event ο)}
    (hr : Transition.run (step apply) c events = some c') :
    (c.finished ++ c.inFlight.map Prod.fst ++ started events).Perm
      (c'.finished ++ c'.inFlight.map Prod.fst) := by
  induction events generalizing c with
  | nil =>
    obtain rfl := Option.some.inj hr
    simp [started]
  | cons e events ih =>
    obtain ⟨d, hd, hr⟩ := Transition.run_cons.mp hr
    refine List.Perm.trans ?_ (ih hr)
    cases e with
    | read op =>
      obtain rfl := Option.some.inj hd
      simp [started]
    | write i =>
      obtain ⟨e, s, he, -, rfl⟩ := step_write_eq_some.mp hd
      obtain ⟨hi, rfl⟩ := List.getElem?_eq_some_iff.mp he
      have hsplit : (c.inFlight.map Prod.fst).Perm
          (c.inFlight[i].1 :: (c.inFlight.eraseIdx i).map Prod.fst) :=
        (List.getElem_cons_eraseIdx_perm hi).symm.map Prod.fst
      have hstart : started (Event.write i :: events) = started events := rfl
      rw [hstart, List.append_assoc, List.append_assoc, List.append_assoc]
      exact List.Perm.append_left _ (hsplit.append_right _)

/-- If every write is fresh, the cell shows what the finished operations give one after another, in
the order of their writes. -/
theorem finished_serial {view : σ → τ}
    (hview : ∀ a b op b', view a = view b → apply b op = some b' →
      ∃ a', apply a op = some a' ∧ view a' = view b')
    {s₀ : σ} {events : List (Event ο)} {c : Cell σ ο}
    (hf : Transition.Along (step apply) (Fresh view) (init s₀) events)
    (hr : Transition.run (step apply) (init s₀) events = some c) :
    ∃ r, Transition.run apply s₀ c.finished = some r ∧ view r = view c.current := by
  refine Transition.run_invariant_of_along
    (P := fun c => ∃ r, Transition.run apply s₀ c.finished = some r ∧ view r = view c.current)
    ?_ ⟨s₀, rfl, rfl⟩ hf hr
  rintro c e c' ⟨r, hrun, hv⟩ hfresh hstep
  cases e with
  | read op =>
    obtain rfl := Option.some.inj hstep
    exact ⟨r, hrun, hv⟩
  | write i =>
    obtain ⟨e, s, he, hs, rfl⟩ := step_write_eq_some.mp hstep
    obtain ⟨r', hr', hv'⟩ := hview r e.2 e.1 s (hv.trans (hfresh e he)) hs
    exact ⟨r', Transition.run_append.mpr ⟨r, hrun, Transition.run_cons.mpr ⟨r', hr', rfl⟩⟩, hv'⟩

end Snapshot
