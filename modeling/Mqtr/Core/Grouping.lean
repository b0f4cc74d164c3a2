import Mathlib.Tactic
import Mathlib.Data.List.Perm.Basic

/-! Lists put in groups by a key. -/

namespace Grouping
open List

variable {α κ : Type*} [DecidableEq κ] (key : α → κ)

/-- The items with a given key, in their order. -/
def group (l : List α) (k : κ) : List α := l.filter fun a => key a = k

@[simp] theorem group_nil (k : κ) : group key [] k = [] := rfl

theorem group_append (l₁ l₂ : List α) (k : κ) :
    group key (l₁ ++ l₂) k = group key l₁ k ++ group key l₂ k :=
  List.filter_append ..

theorem group_singleton (a : α) (k : κ) : group key [a] k = if key a = k then [a] else [] := by
  by_cases h : key a = k
  · simp [group, h]
  · simp [group, h]

theorem mem_group {l : List α} {k : κ} {a : α} : a ∈ group key l k ↔ a ∈ l ∧ key a = k := by
  simp [group]

/-- Group after group, a list is a rearrangement of itself. -/
theorem flatMap_group_perm {order : List κ} (hn : order.Nodup) {l : List α}
    (h : ∀ a ∈ l, key a ∈ order) : order.flatMap (group key l) ~ l := by
  induction order generalizing l with
  | nil =>
    obtain rfl : l = [] := List.eq_nil_iff_forall_not_mem.mpr fun a ha => nomatch h a ha
    exact .nil
  | cons k order ih =>
    obtain ⟨hk, hn⟩ := List.nodup_cons.mp hn
    -- the groups after the first one do not see its items
    have hrest : order.flatMap (group key l) =
        order.flatMap (group key (l.filter fun a => !decide (key a = k))) := by
      apply List.flatMap_congr
      intro k' hk'
      have hne : k' ≠ k := fun he => hk (he ▸ hk')
      rw [group, group, List.filter_filter]
      apply List.filter_congr
      intro a _
      by_cases ha : key a = k'
      · simp [ha, hne]
      · simp [ha]
    have htail : order.flatMap (group key (l.filter fun a => !decide (key a = k))) ~
        l.filter fun a => !decide (key a = k) := by
      apply ih hn
      intro a ha
      obtain ⟨hal, hak⟩ := List.mem_filter.mp ha
      rcases List.mem_cons.mp (h a hal) with he | hmem
      · simp [he] at hak
      · exact hmem
    rw [List.flatMap_cons, hrest]
    exact (htail.append_left _).trans (List.filter_append_perm _ l)

/-- A list made of one group for each key has these groups. -/
theorem group_flatMap {f : κ → List α} (hkey : ∀ {k a}, a ∈ f k → key a = k) {order : List κ}
    (hn : order.Nodup) {k : κ} (hk : f k ≠ [] → k ∈ order) :
    group key (order.flatMap f) k = f k := by
  have hf (k' : κ) : group key (f k') k = if k' = k then f k else [] := by
    split_ifs with he
    · subst he
      exact List.filter_eq_self.mpr fun a ha => by simp [hkey ha]
    · apply List.filter_eq_nil_iff.mpr
      intro a ha
      simp [hkey ha, he]
  have hgroup : group key (order.flatMap f) k =
      order.flatMap fun k' => if k' = k then f k else [] := by
    rw [group, List.filter_flatMap]
    exact List.flatMap_congr fun k' _ => hf k'
  rw [hgroup]
  clear hgroup
  induction order with
  | nil =>
    by_contra hne
    exact nomatch hk fun he => hne (by rw [he]; rfl)
  | cons k' order ih =>
    obtain ⟨hk', hn⟩ := List.nodup_cons.mp hn
    rw [List.flatMap_cons]
    by_cases he : k' = k
    · subst he
      have hnone : (order.flatMap fun j => if j = k' then f k' else []) = [] := by
        apply List.flatMap_eq_nil_iff.mpr
        intro j hj
        rw [if_neg]
        rintro rfl
        exact hk' hj
      rw [if_pos rfl, hnone, List.append_nil]
    · rw [if_neg he, List.nil_append]
      apply ih hn
      intro hne
      rcases List.mem_cons.mp (hk hne) with h | h
      · exact absurd h.symm he
      · exact h

end Grouping
