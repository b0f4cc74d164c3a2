import Mathlib.Tactic

/-! Runs of a partial step function, and the rule that an invariant of the steps is an invariant of
the runs. A run may be restricted by a condition on the steps it takes, or on the actions alone. Runs of
a step relation, whose labels say what was observed, are at the end. -/

namespace Transition
variable {σ α : Type}

/-- The state after the actions, if every one of them could be taken. -/
def run (step : σ → α → Option σ) : σ → List α → Option σ
  | s, [] => some s
  | s, a :: as => (step s a).bind fun s' => run step s' as

/-- Every step of the run meets `G` in the state where it is taken. -/
def Along (step : σ → α → Option σ) (G : σ → α → Prop) : σ → List α → Prop
  | _, [] => True
  | s, a :: as =>
    G s a ∧
      match step s a with
      | some s' => Along step G s' as
      | none => True

instance Along.decidable (step : σ → α → Option σ) (G : σ → α → Prop)
    [∀ s a, Decidable (G s a)] : ∀ s as, Decidable (Along step G s as)
  | _, [] => inferInstanceAs (Decidable True)
  | s, a :: as => by
    unfold Along
    cases step s a with
    | none => exact inferInstance
    | some t =>
      have := Along.decidable step G t as
      exact inferInstance

/-- Every action meets `G` after the actions before it. -/
def Each (G : List α → α → Prop) : List α → List α → Prop
  | _, [] => True
  | hist, a :: as => G hist a ∧ Each G (hist ++ [a]) as

instance Each.decidable (G : List α → α → Prop) [∀ hist a, Decidable (G hist a)] :
    ∀ hist as, Decidable (Each G hist as)
  | _, [] => inferInstanceAs (Decidable True)
  | hist, a :: as =>
    have := Each.decidable G (hist ++ [a]) as
    inferInstanceAs (Decidable (G hist a ∧ Each G (hist ++ [a]) as))

theorem each_concat {G : List α → α → Prop} {hist as : List α} {a : α} :
    Each G hist (as ++ [a]) ↔ Each G hist as ∧ G (hist ++ as) a := by
  induction as generalizing hist with
  | nil => simp [Each]
  | cons b as ih => simp [Each, ih, and_assoc]

variable {step : σ → α → Option σ} {G : σ → α → Prop} {P : σ → Prop}

theorem run_cons {s s' : σ} {a : α} {as : List α} :
    run step s (a :: as) = some s' ↔ ∃ t, step s a = some t ∧ run step t as = some s' := by
  simp [run, Option.bind_eq_some_iff]

theorem run_append {s s' : σ} {as bs : List α} :
    run step s (as ++ bs) = some s' ↔ ∃ t, run step s as = some t ∧ run step t bs = some s' := by
  induction as generalizing s with
  | nil => simp [run]
  | cons a as ih => simp [run_cons, ih]; grind

/-- A relation between the actions so far and the state, kept by every step. -/
theorem run_history {P : List α → σ → Prop}
    (hstep : ∀ hist s a s', P hist s → G s a → step s a = some s' → P (hist ++ [a]) s')
    (hist : List α) {s s' : σ} {as : List α} (hs : P hist s) (hG : Along step G s as)
    (hr : run step s as = some s') : P (hist ++ as) s' := by
  induction as generalizing hist s with
  | nil =>
    obtain rfl := Option.some.inj hr
    simpa using hs
  | cons a as ih =>
    obtain ⟨t, ht, hr⟩ := run_cons.mp hr
    have hG₂ := hG.2
    rw [ht] at hG₂
    simpa using ih (hist ++ [a]) (hstep hist s a t hs hG.1 ht) hG₂ hr

theorem run_invariant_of_along
    (hstep : ∀ s a s', P s → G s a → step s a = some s' → P s') {s s' : σ} {as : List α}
    (hs : P s) (hG : Along step G s as) (hr : run step s as = some s') : P s' :=
  run_history (P := fun _ => P) (fun _ => hstep) [] hs hG hr

theorem along_last {s t : σ} {a : α} {as : List α} (hG : Along step G s (as ++ [a]))
    (hr : run step s as = some t) : G t a := by
  induction as generalizing s with
  | nil =>
    obtain rfl := Option.some.inj hr
    exact hG.1
  | cons b as ih =>
    obtain ⟨u, hu, hr⟩ := run_cons.mp hr
    have hG₂ := hG.2
    rw [hu] at hG₂
    exact ih hG₂ hr

theorem along_and {H : σ → α → Prop} {s : σ} {as : List α} (hG : Along step G s as)
    (hH : Along step H s as) : Along step (fun s a => G s a ∧ H s a) s as := by
  induction as generalizing s with
  | nil => trivial
  | cons a as ih =>
    refine ⟨⟨hG.1, hH.1⟩, ?_⟩
    have hG₂ := hG.2
    have hH₂ := hH.2
    cases hs : step s a with
    | none => trivial
    | some t =>
      rw [hs] at hG₂ hH₂
      exact ih hG₂ hH₂

/-- Steps that can be taken, and keep a relation to the actions so far, make a run. -/
theorem run_progress {P : List α → σ → Prop}
    (hstep : ∀ hist s a, P hist s → G s a → ∃ s', step s a = some s' ∧ P (hist ++ [a]) s')
    {hist : List α} {s : σ} {as : List α} (hs : P hist s) (hG : Along step G s as) :
    ∃ s', run step s as = some s' ∧ P (hist ++ as) s' := by
  induction as generalizing hist s with
  | nil => exact ⟨s, rfl, by simpa using hs⟩
  | cons a as ih =>
    obtain ⟨t, ht, hP⟩ := hstep hist s a hs hG.1
    have hG₂ := hG.2
    rw [ht] at hG₂
    obtain ⟨s', hr, hP'⟩ := ih hP hG₂
    exact ⟨s', run_cons.mpr ⟨t, ht, hr⟩, by simpa using hP'⟩

/-- What every step that is taken meets, holds along a run that comes to its end. -/
theorem along_of_run {H : σ → α → Prop}
    (hstep : ∀ s a s', P s → G s a → step s a = some s' → P s' ∧ H s a) {s s' : σ} {as : List α}
    (hs : P s) (hG : Along step G s as) (hr : run step s as = some s') : Along step H s as := by
  induction as generalizing s with
  | nil => trivial
  | cons a as ih =>
    obtain ⟨t, ht, hr⟩ := run_cons.mp hr
    have hG₂ := hG.2
    rw [ht] at hG₂
    obtain ⟨hP, hH⟩ := hstep s a t hs hG.1 ht
    refine ⟨hH, ?_⟩
    rw [ht]
    exact ih hP hG₂ hr

/-- What an invariant gives at every step, taken or not. -/
theorem along_of_invariant {H : σ → α → Prop}
    (hstep : ∀ s a s', P s → G s a → step s a = some s' → P s')
    (hH : ∀ s a, P s → G s a → H s a) {s : σ} {as : List α} (hs : P s) (hG : Along step G s as) :
    Along step H s as := by
  induction as generalizing s with
  | nil => trivial
  | cons a as ih =>
    refine ⟨hH s a hs hG.1, ?_⟩
    have hG₂ := hG.2
    cases ht : step s a with
    | none => trivial
    | some t =>
      rw [ht] at hG₂
      exact ih (hstep s a t hs hG.1 ht) hG₂

theorem along_of_forall {s : σ} {as : List α} (h : ∀ s, ∀ a ∈ as, G s a) : Along step G s as := by
  induction as generalizing s with
  | nil => trivial
  | cons a as ih =>
    refine ⟨h s a (by simp), ?_⟩
    cases step s a with
    | none => trivial
    | some t => exact ih fun s b hb => h s b (by simp [hb])

theorem run_invariant (hstep : ∀ s a s', P s → step s a = some s' → P s') {s s' : σ}
    {as : List α} (hs : P s) (hr : run step s as = some s') : P s' :=
  run_invariant_of_along (fun s a s' h _ => hstep s a s' h) hs
    (along_of_forall (G := fun _ _ => True) fun _ _ _ => trivial) hr

/-- Steps of a relation one after another, with their labels. -/
inductive Steps (R : σ → α → σ → Prop) : σ → List α → σ → Prop
  | nil (s : σ) : Steps R s [] s
  | cons {s t u : σ} {a : α} {as : List α} (hstep : R s a t) (hrest : Steps R t as u) :
      Steps R s (a :: as) u

variable {R : σ → α → σ → Prop} {s u : σ} {hist as : List α}

theorem each_const {C : α → Prop} : Each (fun _ a => C a) hist as ↔ ∀ a ∈ as, C a := by
  induction as generalizing hist with
  | nil => simp [Each]
  | cons a as ih => rw [Each, ih, List.forall_mem_cons]

/-- What every step with a label that meets `C` keeps, a run of such steps keeps. -/
theorem Steps.invariant {C : α → Prop} (h : Steps R s as u)
    (hstep : ∀ {s a t}, P s → C a → R s a t → P t) (hs : P s) (hC : ∀ a ∈ as, C a) : P u := by
  induction h with
  | nil s => exact hs
  | cons hR hrest ih =>
    obtain ⟨ha, has⟩ := List.forall_mem_cons.mp hC
    exact ih (hstep hs ha hR) has

/-- Two laws that agree at every step, as long as the second is kept, agree along a run. -/
theorem Steps.each_iff {L M : List α → α → Prop} {P : List α → σ → Prop} (h : Steps R s as u)
    (hstep : ∀ {hist s a t}, P hist s → R s a t →
      (L hist a ↔ M hist a) ∧ (M hist a → P (hist ++ [a]) t))
    (hs : P hist s) : Each L hist as ↔ Each M hist as := by
  induction h generalizing hist with
  | nil s => exact Iff.rfl
  | cons hR hrest ih =>
    obtain ⟨hiff, hnext⟩ := hstep hs hR
    rw [Each, Each, hiff]
    exact and_congr_right fun hM => ih (hnext hM)

end Transition
