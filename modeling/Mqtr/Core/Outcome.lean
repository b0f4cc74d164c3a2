import Mathlib.Tactic

/-! Computations that return a value, return an error, or abort. The last case stands for a
failed assertion, an out-of-range slice or an overflowing addition. -/

universe u v

inductive Outcome (ε : Type u) (α : Type v) where
  | ok (a : α)
  | err (e : ε)
  | panic
  deriving DecidableEq, Repr

namespace Outcome
variable {ε : Type u} {α β γ : Type v}

def bind (x : Outcome ε α) (f : α → Outcome ε β) : Outcome ε β :=
  match x with
  | .ok a => f a
  | .err e => .err e
  | .panic => .panic

instance : Monad (Outcome ε) where
  pure := .ok
  bind := bind

instance : LawfulMonad (Outcome ε) :=
  LawfulMonad.mk' (Outcome ε) (fun x => by cases x <;> rfl) (fun _ _ => rfl)
    (fun x _ _ => by cases x <;> rfl)

@[simp] theorem pure_eq (a : α) : (pure a : Outcome ε α) = .ok a := rfl

@[simp] theorem ok_bind (a : α) (f : α → Outcome ε β) : (Outcome.ok a >>= f) = f a := rfl

@[simp] theorem err_bind (e : ε) (f : α → Outcome ε β) :
    ((Outcome.err e : Outcome ε α) >>= f) = .err e := rfl

@[simp] theorem panic_bind (f : α → Outcome ε β) :
    ((Outcome.panic : Outcome ε α) >>= f) = .panic := rfl

theorem bind_eq_ok {x : Outcome ε α} {f : α → Outcome ε β} {b : β} :
    (x >>= f) = .ok b ↔ ∃ a, x = .ok a ∧ f a = .ok b := by
  cases x <;> simp

theorem bind_eq_panic {x : Outcome ε α} {f : α → Outcome ε β} :
    (x >>= f) = .panic ↔ x = .panic ∨ ∃ a, x = .ok a ∧ f a = .panic := by
  cases x <;> simp

theorem bind_eq_err {x : Outcome ε α} {f : α → Outcome ε β} {e : ε} :
    (x >>= f) = .err e ↔ x = .err e ∨ ∃ a, x = .ok a ∧ f a = .err e := by
  cases x <;> simp

theorem bind_ok_eq_err {x : Outcome ε α} {b : α → β} {e : ε} :
    (x >>= fun a => .ok (b a)) = .err e ↔ x = .err e := by
  cases x <;> simp

/-- The computation does not abort, and a value it returns satisfies `Q`. Errors are allowed. -/
def Sat (x : Outcome ε α) (Q : α → Prop) : Prop :=
  match x with
  | .ok a => Q a
  | .err _ => True
  | .panic => False

@[simp] theorem sat_ok {a : α} {Q : α → Prop} : (Outcome.ok a : Outcome ε α).Sat Q ↔ Q a :=
  Iff.rfl

@[simp] theorem sat_err {e : ε} {Q : α → Prop} : (Outcome.err e : Outcome ε α).Sat Q ↔ True :=
  Iff.rfl

@[simp] theorem sat_panic {Q : α → Prop} : (Outcome.panic : Outcome ε α).Sat Q ↔ False :=
  Iff.rfl

theorem sat_iff {x : Outcome ε α} {Q : α → Prop} :
    x.Sat Q ↔ x ≠ .panic ∧ ∀ a, x = .ok a → Q a := by
  cases x <;> simp

theorem Sat.ne_panic {x : Outcome ε α} {Q : α → Prop} (h : x.Sat Q) : x ≠ .panic :=
  (sat_iff.mp h).1

theorem Sat.of_ok {x : Outcome ε α} {Q : α → Prop} (h : x.Sat Q) {a : α} (ha : x = .ok a) :
    Q a :=
  (sat_iff.mp h).2 a ha

theorem Sat.mono {x : Outcome ε α} {P Q : α → Prop} (h : x.Sat P) (hpq : ∀ a, P a → Q a) :
    x.Sat Q := by
  cases x with
  | ok a => exact hpq a h
  | err e => trivial
  | panic => exact h

/-- Sequencing rule: the postcondition of the first part is the precondition of the second. -/
theorem Sat.bind {x : Outcome ε α} {f : α → Outcome ε β} {P : α → Prop} {Q : β → Prop}
    (h : x.Sat P) (hf : ∀ a, x = .ok a → P a → (f a).Sat Q) : (x >>= f).Sat Q := by
  cases x with
  | ok a => exact hf a rfl h
  | err e => trivial
  | panic => exact h

theorem mapM_sat {f : α → Outcome ε β} (h : ∀ a, (f a).Sat fun _ => True) (l : List α) :
    (l.mapM f).Sat fun _ => True := by
  induction l with
  | nil => trivial
  | cons a l ih =>
    rw [List.mapM_cons]
    apply (h a).bind
    intro _ _ _
    exact ih.bind fun _ _ _ => trivial

theorem ok_of_mem_forM {f : α → Outcome ε PUnit} {l : List α} (h : l.forM f = .ok ⟨⟩) {a : α}
    (ha : a ∈ l) : f a = .ok ⟨⟩ := by
  induction l with
  | nil => cases ha
  | cons b l ih =>
    obtain ⟨_, hb, hl⟩ := bind_eq_ok.mp h
    rcases List.mem_cons.mp ha with rfl | ha
    · exact hb
    · exact ih hl ha

theorem forM_sat {f : α → Outcome ε PUnit} (h : ∀ a, (f a).Sat fun _ => True) (l : List α) :
    (l.forM f).Sat fun _ => True := by
  induction l with
  | nil => trivial
  | cons a l ih => exact (h a).bind fun _ _ _ => ih

/-- A loop that returns keeps what each of its steps keeps. -/
theorem foldlM_invariant {σ : Type v} {f : σ → α → Outcome ε σ} {P : σ → Prop} {l : List α}
    (hstep : ∀ s, ∀ a ∈ l, ∀ s', P s → f s a = .ok s' → P s') {s s' : σ} (hs : P s)
    (h : l.foldlM f s = .ok s') : P s' := by
  induction l generalizing s with
  | nil =>
    cases h
    exact hs
  | cons a l ih =>
    rw [List.foldlM_cons] at h
    obtain ⟨t, ht, h⟩ := bind_eq_ok.mp h
    exact ih (fun s b hb => hstep s b (by simp [hb])) (hstep s a (by simp) t hs ht) h

/-- What a filter keeps was there, and its test said so. -/
theorem mem_filterM {α : Type} {f : α → Outcome ε Bool} {l l' : List α} (h : l.filterM f = .ok l') {a : α}
    (ha : a ∈ l') : a ∈ l ∧ f a = .ok true := by
  have haux : ∀ (l acc r : List α), l.filterAuxM f acc = .ok r → a ∈ r →
      a ∈ acc ∨ a ∈ l ∧ f a = .ok true := by
    intro l
    induction l with
    | nil =>
      intro acc r hr har
      cases hr
      exact .inl har
    | cons b l ih =>
      intro acc r hr har
      obtain ⟨keep, hkeep, hr⟩ := bind_eq_ok.mp hr
      rcases ih _ r hr har with hacc | ⟨hl, hfa⟩
      · cases keep with
        | false => exact .inl hacc
        | true =>
          rcases List.mem_cons.mp hacc with rfl | hacc
          · exact .inr ⟨by simp, hkeep⟩
          · exact .inl hacc
      · exact .inr ⟨by simp [hl], hfa⟩
  obtain ⟨r, hr, h⟩ := bind_eq_ok.mp h
  cases h
  simpa using haux l [] r hr (List.mem_reverse.mp ha)

def isOk : Outcome ε α → Bool
  | .ok _ => true
  | .err _ | .panic => false

theorem exists_of_isOk {x : Outcome ε α} (h : x.isOk = true) : ∃ a, x = .ok a := by
  cases x with
  | ok a => exact ⟨a, rfl⟩
  | err _ => cases h
  | panic => cases h

def toOption : Outcome ε α → Option α
  | .ok a => some a
  | .err _ | .panic => none

theorem toOption_eq_some {x : Outcome ε α} {a : α} : x.toOption = some a ↔ x = .ok a := by
  cases x <;> simp [toOption]

/-- `unwrap`: an error aborts. -/
def unwrap (x : Outcome ε α) : Outcome ε α :=
  match x with
  | .ok a => .ok a
  | .err _ => .panic
  | .panic => .panic

@[simp] theorem unwrap_ok (a : α) : (Outcome.ok a : Outcome ε α).unwrap = .ok a := rfl

@[simp] theorem unwrap_err (e : ε) : (Outcome.err e : Outcome ε α).unwrap = .panic := rfl

/-- A value that has to be there: `unwrap` of an `Option`. -/
def ofOption (x : Option α) : Outcome ε α :=
  match x with
  | some a => .ok a
  | none => .panic

theorem ofOption_eq_ok {x : Option α} {a : α} :
    (ofOption x : Outcome ε α) = .ok a ↔ x = some a := by
  cases x <;> simp [ofOption]

theorem ofOption_ne_err (x : Option α) (e : ε) : ofOption x ≠ .err e := by
  cases x <;> simp [ofOption]

theorem unwrap_ne_err (x : Outcome ε α) (e : ε) : x.unwrap ≠ .err e := by
  cases x <;> simp [unwrap]

/-- Every error of the computation meets `P`. -/
def FailsWith (x : Outcome ε α) (P : ε → Prop) : Prop := ∀ e, x = .err e → P e

@[simp] theorem failsWith_ok (a : α) (P : ε → Prop) : (ok a : Outcome ε α).FailsWith P := by
  intro e h
  cases h

@[simp] theorem failsWith_panic (P : ε → Prop) : (panic : Outcome ε α).FailsWith P := by
  intro e h
  cases h

theorem FailsWith.bind {x : Outcome ε α} {f : α → Outcome ε β} {P : ε → Prop} (h : x.FailsWith P)
    (hf : ∀ a, (f a).FailsWith P) : (x >>= f).FailsWith P := by
  intro e he
  rcases bind_eq_err.mp he with hx | ⟨a, -, hfa⟩
  · exact h e hx
  · exact hf a e hfa

theorem failsWith_ofOption (x : Option α) (P : ε → Prop) : (ofOption x).FailsWith P :=
  fun e h => absurd h (ofOption_ne_err x e)

theorem failsWith_unwrap (x : Outcome ε α) (P : ε → Prop) : x.unwrap.FailsWith P :=
  fun e h => absurd h (unwrap_ne_err x e)

theorem failsWith_foldlM {σ : Type v} {f : σ → α → Outcome ε σ} {P : ε → Prop}
    (h : ∀ s a, (f s a).FailsWith P) (l : List α) (s : σ) : (l.foldlM f s).FailsWith P := by
  induction l generalizing s with
  | nil => exact failsWith_ok s P
  | cons a l ih =>
    rw [List.foldlM_cons]
    exact (h s a).bind ih

theorem failsWith_mapM {f : α → Outcome ε β} {P : ε → Prop} (h : ∀ a, (f a).FailsWith P)
    (l : List α) : (l.mapM f).FailsWith P := by
  induction l with
  | nil => exact failsWith_ok [] P
  | cons a l ih =>
    rw [List.mapM_cons]
    exact (h a).bind fun _ => ih.bind fun _ => failsWith_ok _ P

/-- `s[a..b]`: both bounds are checked. -/
def slice (s : List α) (a b : ℕ) : Outcome ε (List α) :=
  if a ≤ b ∧ b ≤ s.length then .ok ((s.drop a).take (b - a)) else .panic

/-- `s[a..]`. -/
def sliceFrom (s : List α) (a : ℕ) : Outcome ε (List α) :=
  if a ≤ s.length then .ok (s.drop a) else .panic

theorem slice_eq_panic {s : List α} {a b : ℕ} :
    (slice s a b : Outcome ε (List α)) = .panic ↔ ¬ (a ≤ b ∧ b ≤ s.length) := by
  unfold slice
  split_ifs with h <;> simp [h]

theorem slice_of_le {s : List α} {a b : ℕ} (hab : a ≤ b) (hb : b ≤ s.length) :
    (slice s a b : Outcome ε (List α)) = .ok ((s.drop a).take (b - a)) :=
  if_pos ⟨hab, hb⟩

theorem sliceFrom_of_le {s : List α} {a : ℕ} (h : a ≤ s.length) :
    (sliceFrom s a : Outcome ε (List α)) = .ok (s.drop a) :=
  if_pos h

/-- `while n < limit`, reading an item at `n` and then taking it into the state. Running out of `fuel`
aborts, so a bound on the reads has to be shown. -/
def readLoop {ι σ : Type v} (read : ℕ → Outcome ε (ι × ℕ)) (take : σ → ι → Outcome ε σ)
    (limit : ℕ) : ℕ → ℕ → σ → Outcome ε (σ × ℕ)
  | 0, _, _ => .panic
  | fuel + 1, n, s =>
    if n < limit then do
      let (x, m) ← read n
      let s ← take s x
      readLoop read take limit fuel m s
    else .ok (s, n)

/-- A loop whose reads advance below a bound returns. -/
theorem readLoop_sat {ι σ : Type v} {read : ℕ → Outcome ε (ι × ℕ)} {take : σ → ι → Outcome ε σ}
    {limit bound : ℕ} (hread : ∀ n, (read n).Sat fun r => n < r.2 ∧ r.2 ≤ bound)
    (htake : ∀ s x, (take s x).Sat fun _ => True) {fuel n : ℕ} (hn : n ≤ bound)
    (hfuel : bound < fuel + n) (s : σ) :
    (readLoop read take limit fuel n s).Sat fun r => n ≤ r.2 ∧ r.2 ≤ bound := by
  induction fuel generalizing n s with
  | zero => omega
  | succ fuel ih =>
    unfold readLoop
    split_ifs
    · apply (hread n).bind
      intro r _ hr
      apply (htake s r.1).bind
      intro s' _ _
      exact (ih hr.2 (by omega) s').mono fun _ h => ⟨by omega, h.2⟩
    · exact ⟨le_rfl, hn⟩

/-- Addition of 32-bit words with the overflow check of a debug build. -/
def checkedAdd {ε : Type u} (a b : UInt32) : Outcome ε UInt32 :=
  if a.toNat + b.toNat < 2 ^ 32 then .ok (a + b) else .panic

end Outcome
