import Mathlib

/-! Functions on a finite type whose fibres have one size. -/

namespace Fibre
variable {α β : Type} [Finite α] {f : α → β} {values : Set β}

/-- If bijections carry the fibre of one value to the fibre of every other, a finite type is the
product of their number and the size of one. -/
theorem ncard_fibre_mul {b₀ : β} (hvalues : values.Finite) (hf : ∀ a, f a ∈ values)
    (hmove : ∀ b ∈ values, ∃ σ : α ≃ α, ∀ a, f (σ a) = b ↔ f a = b₀) {b : β} (hb : b ∈ values) :
    {a | f a = b}.ncard * values.ncard = Nat.card α := by
  classical
  have := Fintype.ofFinite α
  have hsame : ∀ b ∈ values, {a | f a = b}.ncard = {a | f a = b₀}.ncard := by
    intro b hb
    obtain ⟨σ, hσ⟩ := hmove b hb
    have himage : {a | f a = b} = σ '' {a | f a = b₀} := by
      ext a
      simp only [Set.mem_ofPred_eq, Set.mem_image]
      constructor
      · intro ha
        exact ⟨σ.symm a, (hσ _).mp (by simpa using ha), by simp⟩
      · rintro ⟨c, hc, rfl⟩
        exact (hσ c).mpr hc
    rw [himage, Set.ncard_image_of_injective _ σ.injective]
  have hcount := Finset.card_eq_sum_card_fiberwise (s := Finset.univ) (t := hvalues.toFinset)
    (f := f) fun a _ => by simpa using hf a
  have hfibre (c : β) : (Finset.univ.filter fun a => f a = c).card = {a | f a = c}.ncard := by
    rw [← Set.ncard_coe_finset]
    simp
  rw [Finset.card_univ, ← Nat.card_eq_fintype_card, Finset.sum_congr rfl fun c hc => (hfibre c).trans
    (hsame c (by simpa using hc)), Finset.sum_const, smul_eq_mul,
    ← Set.ncard_eq_toFinset_card values hvalues] at hcount
  rw [hcount, hsame b hb, Nat.mul_comm]

end Fibre
