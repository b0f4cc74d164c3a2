import Mqtr.Core.Outcome

/-! Computations that change a state and may fail. What was changed before a failure stays changed. -/

def Stateful (σ ε α : Type) : Type := σ → Outcome ε α × σ

namespace Stateful
variable {σ ε α β : Type}

def bind (x : Stateful σ ε α) (f : α → Stateful σ ε β) : Stateful σ ε β := fun s =>
  match x s with
  | (.ok a, s) => f a s
  | (.err e, s) => (.err e, s)
  | (.panic, s) => (.panic, s)

instance : Monad (Stateful σ ε) where
  pure a := fun s => (.ok a, s)
  bind := bind

/-- A computation that changes the state only if it returns. -/
def lift (f : σ → Outcome ε (α × σ)) : Stateful σ ε α := fun s =>
  match f s with
  | .ok (a, s') => (.ok a, s')
  | .err e => (.err e, s)
  | .panic => (.panic, s)

/-- A computation that only reads the state. -/
def inspect (f : σ → Outcome ε α) : Stateful σ ε α := fun s => (f s, s)

/-- A computation that returns its error as a value. -/
def attempt (x : Stateful σ ε α) : Stateful σ ε (Except ε α) := fun s =>
  match x s with
  | (.ok a, s) => (.ok (.ok a), s)
  | (.err e, s) => (.ok (.error e), s)
  | (.panic, s) => (.panic, s)

theorem bind_of_ok {x : Stateful σ ε α} {f : α → Stateful σ ε β} {s t : σ} {a : α}
    (h : x s = (.ok a, t)) : (x >>= f) s = f a t := by
  change bind x f s = _
  rw [bind, h]

theorem bind_of_err {x : Stateful σ ε α} {f : α → Stateful σ ε β} {s t : σ} {e : ε}
    (h : x s = (.err e, t)) : (x >>= f) s = (.err e, t) := by
  change bind x f s = _
  rw [bind, h]

theorem bind_of_panic {x : Stateful σ ε α} {f : α → Stateful σ ε β} {s t : σ}
    (h : x s = (.panic, t)) : (x >>= f) s = (.panic, t) := by
  change bind x f s = _
  rw [bind, h]

theorem bind_eq_ok {x : Stateful σ ε α} {f : α → Stateful σ ε β} {s s' : σ} {b : β} :
    (x >>= f) s = (.ok b, s') ↔ ∃ a t, x s = (.ok a, t) ∧ f a t = (.ok b, s') := by
  rcases hx : x s with ⟨a | e | _, t⟩
  · rw [bind_of_ok hx]
    simp
  · rw [bind_of_err hx]
    simp
  · rw [bind_of_panic hx]
    simp

theorem inspect_eq_ok {f : σ → Outcome ε α} {s s' : σ} {a : α} :
    inspect f s = (.ok a, s') ↔ f s = .ok a ∧ s' = s := by
  simp [inspect, eq_comm]

/-- A sequence fails in its first part, or in its second after the first has returned. -/
theorem bind_eq_err {x : Stateful σ ε α} {f : α → Stateful σ ε β} {s s' : σ} {e : ε} :
    (x >>= f) s = (.err e, s') ↔
      x s = (.err e, s') ∨ ∃ a t, x s = (.ok a, t) ∧ f a t = (.err e, s') := by
  rcases hx : x s with ⟨a | e' | _, t⟩
  · rw [bind_of_ok hx]
    simp
  · rw [bind_of_err hx]
    simp
  · rw [bind_of_panic hx]
    simp

theorem lift_eq_err {f : σ → Outcome ε (α × σ)} {s s' : σ} {e : ε} :
    lift f s = (.err e, s') ↔ f s = .err e ∧ s' = s := by
  unfold lift
  cases f s with
  | ok r => simp
  | err e' => simp [eq_comm]
  | panic => simp

theorem lift_eq_ok {f : σ → Outcome ε (α × σ)} {s s' : σ} {a : α} :
    lift f s = (.ok a, s') ↔ f s = .ok (a, s') := by
  unfold lift
  cases f s with
  | ok r => simp [Prod.ext_iff]
  | err e' => simp
  | panic => simp

/-- From the state `s` the computation does not abort; `Q` holds of what it returns, and `E` of the state
in which it fails. -/
def Sat (x : Stateful σ ε α) (s : σ) (Q : α → σ → Prop) (E : σ → Prop) : Prop :=
  match x s with
  | (.ok a, t) => Q a t
  | (.err _, t) => E t
  | (.panic, _) => False

variable {x : Stateful σ ε α} {s : σ} {Q : α → σ → Prop} {E : σ → Prop}

theorem Sat.bind {f : α → Stateful σ ε β} {R : β → σ → Prop} (h : Sat x s Q E)
    (hf : ∀ a t, Q a t → Sat (f a) t R E) : Sat (x >>= f) s R E := by
  unfold Sat at h ⊢
  rcases hx : x s with ⟨a | e | _, t⟩
  · rw [hx] at h
    rw [bind_of_ok hx]
    exact hf a t h
  · rw [hx] at h
    rw [bind_of_err hx]
    exact h
  · rw [hx] at h
    exact h.elim

theorem sat_inspect {y : Outcome ε α} {P : α → Prop} (h : y.Sat P) (hQ : ∀ a, P a → Q a s)
    (hE : E s) : Sat (inspect fun _ => y) s Q E := by
  cases y with
  | ok a => exact hQ a h
  | err e => exact hE
  | panic => exact h.elim

theorem Sat.ne_panic (h : Sat x s Q E) : (x s).1 ≠ .panic := by
  intro hpanic
  unfold Sat at h
  rcases hx : x s with ⟨a | e | _, t⟩
  · simp [hx] at hpanic
  · simp [hx] at hpanic
  · rw [hx] at h
    exact h

/-- From the state `s`, if the computation returns, `Q` holds of what it returns, and if it fails, `E`
holds of the state. It may abort. -/
def Ensures (x : Stateful σ ε α) (s : σ) (Q : α → σ → Prop) (E : σ → Prop) : Prop :=
  match x s with
  | (.ok a, t) => Q a t
  | (.err _, t) => E t
  | (.panic, _) => True

theorem Sat.ensures (h : Sat x s Q E) : Ensures x s Q E := by
  unfold Sat at h
  unfold Ensures
  rcases hx : x s with ⟨a | e | _, t⟩
  · rw [hx] at h
    exact h
  · rw [hx] at h
    exact h
  · trivial

/-- Sequencing rule: the postcondition of the first part is the precondition of the second. -/
theorem Ensures.bind {f : α → Stateful σ ε β} {R : β → σ → Prop} (h : Ensures x s Q E)
    (hf : ∀ a t, Q a t → Ensures (f a) t R E) : Ensures (x >>= f) s R E := by
  unfold Ensures at h ⊢
  rcases hx : x s with ⟨a | e | _, t⟩
  · rw [hx] at h
    rw [bind_of_ok hx]
    exact hf a t h
  · rw [hx] at h
    rw [bind_of_err hx]
    exact h
  · rw [bind_of_panic hx]
    trivial

/-- A first part that is known to return is stepped over. -/
theorem ensures_bind_of_ok {f : α → Stateful σ ε β} {R : β → σ → Prop} {a : α} {t : σ}
    (hx : x s = (.ok a, t)) (hf : Ensures (f a) t R E) : Ensures (x >>= f) s R E := by
  unfold Ensures
  rw [bind_of_ok hx]
  exact hf

theorem Ensures.mono {Q' : α → σ → Prop} {E' : σ → Prop} (h : Ensures x s Q E)
    (hQ : ∀ a t, Q a t → Q' a t) (hE : ∀ t, E t → E' t) : Ensures x s Q' E' := by
  unfold Ensures at h ⊢
  rcases hx : x s with ⟨a | e | _, t⟩
  · rw [hx] at h
    exact hQ a t h
  · rw [hx] at h
    exact hE t h
  · trivial

/-- An error that is returned as a value is no failure. -/
theorem Ensures.attempt {E' : σ → Prop} (h : Ensures x s Q E) :
    Ensures (attempt x) s
      (fun r t => match r with
        | .ok a => Q a t
        | .error _ => E t) E' := by
  unfold Ensures Stateful.attempt at *
  rcases hx : x s with ⟨a | e | _, t⟩
  · rw [hx] at h
    exact h
  · rw [hx] at h
    exact h
  · trivial

theorem ensures_inspect {f : σ → Outcome ε α} (hQ : ∀ a, f s = .ok a → Q a s) (hE : E s) :
    Ensures (inspect f) s Q E := by
  unfold Ensures inspect
  cases hf : f s with
  | ok a => exact hQ a hf
  | err e => exact hE
  | panic => trivial

theorem ensures_lift {f : σ → Outcome ε (α × σ)} (hQ : ∀ a t, f s = .ok (a, t) → Q a t)
    (hE : E s) : Ensures (lift f) s Q E := by
  unfold Ensures lift
  cases hf : f s with
  | ok r => exact hQ r.1 r.2 hf
  | err e => exact hE
  | panic => trivial

theorem Ensures.of_ok {a : α} {t : σ} (h : Ensures x s Q E) (hx : x s = (.ok a, t)) : Q a t := by
  rw [Ensures, hx] at h
  exact h

theorem Ensures.of_err {e : ε} {t : σ} (h : Ensures x s Q E) (hx : x s = (.err e, t)) : E t := by
  rw [Ensures, hx] at h
  exact h

/-- Every error of the computation meets `P`, whatever state it starts in. -/
def FailsWith (x : Stateful σ ε α) (P : ε → Prop) : Prop := ∀ s e t, x s = (.err e, t) → P e

theorem FailsWith.bind {f : α → Stateful σ ε β} {P : ε → Prop} (h : FailsWith x P)
    (hf : ∀ a, FailsWith (f a) P) : FailsWith (x >>= f) P := by
  intro s e t herr
  rcases bind_eq_err.mp herr with hx | ⟨a, u, -, hfa⟩
  · exact h s e t hx
  · exact hf a u e t hfa

theorem failsWith_pure {P : ε → Prop} (a : α) : FailsWith (pure a : Stateful σ ε α) P := by
  intro s e t herr
  cases herr

theorem failsWith_lift {f : σ → Outcome ε (α × σ)} {P : ε → Prop} (h : ∀ s, (f s).FailsWith P) :
    FailsWith (lift f) P :=
  fun s e _ herr => h s e (lift_eq_err.mp herr).1

theorem failsWith_inspect {f : σ → Outcome ε α} {P : ε → Prop} (h : ∀ s, (f s).FailsWith P) :
    FailsWith (inspect f) P :=
  fun s e _ herr => h s e (Prod.mk.inj herr).1

theorem failsWith_foldlM {f : β → α → Stateful σ ε β} {P : ε → Prop}
    (h : ∀ b a, FailsWith (f b a) P) (l : List α) (b : β) : FailsWith (l.foldlM f b) P := by
  induction l generalizing b with
  | nil => exact failsWith_pure b
  | cons a l ih =>
    rw [List.foldlM_cons]
    exact (h b a).bind ih

end Stateful
