import Mqtr.Core.Outcome

/-! Computations that read their input piece by piece, and the list of the pieces they come to. Some
errors say that a piece was not there in full; the trace tells when such an error is returned. -/

universe u v w

namespace Trace
open Outcome

variable {ε : Type u} {α β ι σ : Type v} {ρ : Type w}

/-- What is read after `x`, if it returns a value. -/
def after (x : Outcome ε α) (reads : α → List ρ) : List ρ :=
  match x with
  | .ok a => reads a
  | .err _ | .panic => []

/-- Every error of `x` is known, and it is an ordinary one exactly if every read fits. -/
structure Traced (Known Ordinary : ε → Prop) (Fits : ρ → Prop) (x : Outcome ε α)
    (reads : List ρ) : Prop where
  known {e : ε} : x = .err e → Known e
  fits_iff : (∀ r ∈ reads, Fits r) ↔ ∀ e, x = .err e → Ordinary e

namespace Traced
variable {Known Ordinary : ε → Prop} {Fits : ρ → Prop} {x : Outcome ε α} {f : α → Outcome ε β}
  {reads : List ρ} {next : α → List ρ}

theorem ok (a : α) : Traced Known Ordinary Fits (.ok a) [] := ⟨nofun, by simp⟩

theorem err {e : ε} (hknown : Known e) (hordinary : Ordinary e) :
    Traced Known Ordinary Fits (.err e : Outcome ε α) [] := by
  refine ⟨fun h => ?_, by simpa using hordinary⟩
  cases h
  exact hknown

theorem panic : Traced Known Ordinary Fits (.panic : Outcome ε α) [] := ⟨nofun, by simp⟩

/-- Sequencing rule: the reads of the second part follow those of the first. -/
theorem bind (h : Traced Known Ordinary Fits x reads)
    (hf : ∀ a, x = .ok a → Traced Known Ordinary Fits (f a) (next a)) :
    Traced Known Ordinary Fits (x >>= f) (reads ++ after x next) := by
  cases x with
  | ok a =>
    have hfits : ∀ r ∈ reads, Fits r := h.fits_iff.mpr nofun
    have hnext := hf a rfl
    refine ⟨hnext.known, ?_⟩
    rw [ok_bind, after, ← hnext.fits_iff]
    constructor
    · intro hall r hr
      exact hall r (List.mem_append_right _ hr)
    · intro hall r hr
      rcases List.mem_append.mp hr with hr | hr
      · exact hfits r hr
      · exact hall r hr
  | err e =>
    rw [err_bind, after, List.append_nil]
    refine ⟨fun he => h.known ?_, ?_⟩
    · cases he
      rfl
    · rw [h.fits_iff]
      simp
  | panic =>
    rw [panic_bind, after, List.append_nil]
    refine ⟨nofun, ?_⟩
    rw [h.fits_iff]
    simp

/-- A first part that reads nothing. -/
theorem bind_after (h : Traced Known Ordinary Fits x [])
    (hf : ∀ a, x = .ok a → Traced Known Ordinary Fits (f a) (next a)) :
    Traced Known Ordinary Fits (x >>= f) (after x next) :=
  h.bind hf

/-- A second part that reads nothing. -/
theorem bind_done (h : Traced Known Ordinary Fits x reads)
    (hf : ∀ a, x = .ok a → Traced Known Ordinary Fits (f a) []) :
    Traced Known Ordinary Fits (x >>= f) reads := by
  have hnil : after x (fun _ => ([] : List ρ)) = [] := by cases x <;> rfl
  have hbind := h.bind hf
  rwa [hnil, List.append_nil] at hbind

theorem mono {Known' : ε → Prop} (h : Traced Known Ordinary Fits x reads)
    (hknown : ∀ e, Known e → Known' e) : Traced Known' Ordinary Fits x reads :=
  ⟨fun he => hknown _ (h.known he), h.fits_iff⟩

theorem mapM {f : α → Outcome ε β} (h : ∀ a, Traced Known Ordinary Fits (f a) []) (l : List α) :
    Traced Known Ordinary Fits (l.mapM f) [] := by
  induction l with
  | nil => exact .ok []
  | cons a l ih =>
    rw [List.mapM_cons]
    exact (h a).bind_done fun b _ => ih.bind_done fun bs _ => .ok (b :: bs)

theorem forM {f : α → Outcome ε PUnit} (h : ∀ a, Traced Known Ordinary Fits (f a) [])
    (l : List α) : Traced Known Ordinary Fits (l.forM f) [] := by
  induction l with
  | nil => exact .ok PUnit.unit
  | cons a l ih => exact (h a).bind_done fun _ _ => ih

end Traced

section Loop
variable (read : ℕ → Outcome ε (ι × ℕ)) (take : σ → ι → Outcome ε σ) (readsAt : ℕ → List ρ)
  (limit : ℕ)

/-- What the loop reads, item after item. -/
def loopReads : ℕ → ℕ → σ → List ρ
  | 0, _, _ => []
  | fuel + 1, n, s =>
    if n < limit then
      readsAt n ++ after (read n) fun r => after (take s r.1) fun s => loopReads fuel r.2 s
    else []

variable {read take readsAt} {Known Ordinary : ε → Prop} {Fits : ρ → Prop}

theorem Traced.readLoop (fuel : ℕ) {bound : ℕ}
    (hread : ∀ n, n ≤ bound → Traced Known Ordinary Fits (read n) (readsAt n))
    (hbound : ∀ {n x m}, read n = .ok (x, m) → m ≤ bound)
    (htake : ∀ s x, Traced Known Ordinary Fits (take s x) []) {n : ℕ} (hn : n ≤ bound) (s : σ) :
    Traced Known Ordinary Fits (readLoop read take limit fuel n s)
      (loopReads read take readsAt limit fuel n s) := by
  induction fuel generalizing n s with
  | zero => exact .panic
  | succ fuel ih =>
    unfold Outcome.readLoop loopReads
    split_ifs
    · apply (hread n hn).bind
      rintro ⟨x, m⟩ hx
      apply (htake s x).bind_after
      intro s' _
      exact ih (hbound hx) s'
    · exact .ok _

end Loop

end Trace
