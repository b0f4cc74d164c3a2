import Mathlib.Data.List.Sort
import Mathlib.Tactic

/-! Lists sorted by a key. A list whose entries have different keys is determined by its entries, and two
of them with the same keys line up entry by entry. -/

namespace Keyed
variable {α β κ : Type} {key : α → κ} {key' : β → κ}

/-- Lists with the same keys pair the entries with equal keys. -/
theorem mem_zip_iff {l : List α} {l' : List β} (hkeys : l.map key = l'.map key')
    (hnodup : (l.map key).Nodup) {a : α} {b : β} :
    (a, b) ∈ l.zip l' ↔ a ∈ l ∧ b ∈ l' ∧ key a = key' b := by
  induction l generalizing l' with
  | nil => simp
  | cons c l ih =>
    cases l' with
    | nil => cases hkeys
    | cons d l' =>
      obtain ⟨hhead, htail⟩ := List.cons.inj hkeys
      obtain ⟨hnew, hnodup⟩ := List.nodup_cons.mp hnodup
      rw [List.zip_cons_cons, List.mem_cons, ih htail hnodup, List.mem_cons, List.mem_cons,
        Prod.mk.injEq]
      constructor
      · rintro (⟨rfl, rfl⟩ | ⟨ha, hb, hkey⟩)
        · exact ⟨.inl rfl, .inl rfl, hhead⟩
        · exact ⟨.inr ha, .inr hb, hkey⟩
      · -- an entry of one tail has not the key of the other head
        rintro ⟨rfl | ha, rfl | hb, hkey⟩
        · exact .inl ⟨rfl, rfl⟩
        · refine absurd ?_ hnew
          rw [hkey, htail]
          exact List.mem_map_of_mem hb
        · refine absurd ?_ hnew
          rw [hhead, ← hkey]
          exact List.mem_map_of_mem ha
        · exact .inr ⟨ha, hb, hkey⟩

section Sorting
variable [LE κ] [DecidableLE κ]

/-- `sort_by_key`, which keeps the order of entries with equal keys. -/
def sortByKey (key : α → κ) (l : List α) : List α := l.mergeSort fun a b => key a ≤ key b

theorem sortByKey_perm (key : α → κ) (l : List α) : (sortByKey key l).Perm l :=
  List.mergeSort_perm _ _

theorem sortByKey_nodup {l : List α} (h : (l.map key).Nodup) :
    ((sortByKey key l).map key).Nodup :=
  ((sortByKey_perm key l).map key).nodup_iff.mpr h

variable [Std.IsLinearOrder κ]

theorem sortByKey_pairwise (key : α → κ) (l : List α) :
    (sortByKey key l).Pairwise fun a b => key a ≤ key b := by
  have hsorted : (sortByKey key l).Pairwise fun a b => decide (key a ≤ key b) = true := by
    apply List.pairwise_mergeSort
    · intro a b c hab hbc
      exact decide_eq_true (Std.le_trans (of_decide_eq_true hab) (of_decide_eq_true hbc))
    · intro a b
      rw [Bool.or_eq_true, decide_eq_true_eq, decide_eq_true_eq]
      exact Std.le_total
  exact hsorted.imp of_decide_eq_true

/-- The order of the input plays no part. -/
theorem sortByKey_eq_of_perm {l l' : List α} (h : (l.map key).Nodup) (hperm : l'.Perm l) :
    sortByKey key l' = sortByKey key l := by
  refine List.Perm.eq_of_pairwise ?_ (sortByKey_pairwise key l') (sortByKey_pairwise key l) ?_
  · intro a b ha hb hab hba
    have ha' : a ∈ l := hperm.mem_iff.mp ((sortByKey_perm key l').mem_iff.mp ha)
    have hb' : b ∈ l := (sortByKey_perm key l).mem_iff.mp hb
    exact List.inj_on_of_nodup_map h ha' hb' (Std.le_antisymm hab hba)
  · exact (sortByKey_perm key l').trans (hperm.trans (sortByKey_perm key l).symm)

/-- The keys of the sorted list depend on the set of keys alone. -/
theorem map_sortByKey_eq {l : List α} {l' : List β} (h : (l.map key).Nodup)
    (h' : (l'.map key').Nodup) (hsame : ∀ k, k ∈ l.map key ↔ k ∈ l'.map key') :
    (sortByKey key l).map key = (sortByKey key' l').map key' := by
  have hmem (k : κ) : k ∈ (sortByKey key l).map key ↔ k ∈ (sortByKey key' l').map key' := by
    rw [((sortByKey_perm key l).map key).mem_iff, ((sortByKey_perm key' l').map key').mem_iff]
    exact hsame k
  refine List.Perm.eq_of_pairwise (fun _ _ _ _ => Std.le_antisymm)
    (List.pairwise_map.mpr (sortByKey_pairwise key l))
    (List.pairwise_map.mpr (sortByKey_pairwise key' l')) ?_
  exact (List.perm_ext_iff_of_nodup (sortByKey_nodup h) (sortByKey_nodup h')).mpr hmem

/-- Different keys are in strict order. -/
theorem sortByKey_pairwise_lt [LT κ] [Std.LawfulOrderLT κ] {l : List α} (h : (l.map key).Nodup) :
    (sortByKey key l).Pairwise fun a b => key a < key b := by
  have hne := List.pairwise_map.mp (sortByKey_nodup h)
  exact (sortByKey_pairwise key l).imp₂ (fun _ _ hle hne => Std.lt_of_le_of_ne hle hne) hne

end Sorting
section Insertion
variable [LinearOrder κ]

/-- Into a sorted list an entry goes behind all entries whose keys are not greater. -/
theorem orderedInsert_split {l : List α} (hl : l.Pairwise fun a b => key a ≤ key b) (a : α) :
    ∃ before after, l = before ++ after ∧
      l.orderedInsert (fun x y => key x < key y) a = before ++ a :: after ∧
      (∀ x ∈ before, key x ≤ key a) ∧ ∀ x ∈ after, key a < key x := by
  induction l with
  | nil => exact ⟨[], [], rfl, rfl, by simp, by simp⟩
  | cons b l ih =>
    obtain ⟨hb, hl⟩ := List.pairwise_cons.mp hl
    by_cases hlt : key a < key b
    · refine ⟨[], b :: l, rfl, if_pos hlt, by simp, ?_⟩
      intro x hx
      rcases List.mem_cons.mp hx with rfl | hx
      · exact hlt
      · exact hlt.trans_le (hb x hx)
    · obtain ⟨before, after, hsplit, hinsert, hbefore, hafter⟩ := ih hl
      refine ⟨b :: before, after, congrArg (b :: ·) hsplit, ?_, ?_, hafter⟩
      · rw [List.orderedInsert, if_neg hlt, hinsert]
        rfl
      · exact List.forall_mem_cons.mpr ⟨not_lt.mp hlt, hbefore⟩

end Insertion
end Keyed
