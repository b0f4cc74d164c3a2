import Mathlib

/-! Ordered maps: what is read after an update, and maps from keys to lists, filled one value at a
time. -/

namespace OrdMap
open Std

variable {κ α : Type} [Ord κ] [TransOrd κ]

theorem mem_of_getElem? {m : ExtTreeMap κ α} {k : κ} {a : α} (h : m[k]? = some a) : k ∈ m := by
  simp [ExtTreeMap.mem_iff_isSome_getElem?, h]

theorem toList_nodup (m : ExtTreeMap κ α) : m.toList.Nodup :=
  ExtTreeMap.distinct_keys_toList.imp fun hne heq => hne (by simp [heq])

variable [LawfulEqOrd κ]

theorem mem_insert {m : ExtTreeMap κ α} {k k' : κ} {a : α} :
    k' ∈ m.insert k a ↔ k = k' ∨ k' ∈ m := by
  simp [ExtTreeMap.mem_insert]

theorem mem_erase {m : ExtTreeMap κ α} {k k' : κ} : k' ∈ m.erase k ↔ k ≠ k' ∧ k' ∈ m := by
  simp [ExtTreeMap.mem_erase]

variable [DecidableEq κ]

theorem getElem?_insert (m : ExtTreeMap κ α) (k k' : κ) (a : α) :
    (m.insert k a)[k']? = if k = k' then some a else m[k']? := by
  simp [ExtTreeMap.getElem?_insert]

theorem getElem?_erase (m : ExtTreeMap κ α) (k k' : κ) :
    (m.erase k)[k']? = if k = k' then none else m[k']? := by
  simp [ExtTreeMap.getElem?_erase]

/-- Erasing the keys of a list of entries. -/
theorem getElem?_foldl_erase (m : ExtTreeMap κ α) (entries : List (κ × α)) (k : κ) :
    (entries.foldl (fun m e => m.erase e.1) m)[k]? =
      if k ∈ entries.map Prod.fst then none else m[k]? := by
  induction entries generalizing m with
  | nil => simp
  | cons e entries ih =>
    rw [List.foldl_cons, ih, getElem?_erase, List.map_cons]
    by_cases hmem : k ∈ entries.map Prod.fst
    · rw [if_pos hmem, if_pos (List.mem_cons_of_mem _ hmem)]
    · by_cases he : e.1 = k
      · simp [he]
      · have hne : k ∉ e.1 :: entries.map Prod.fst := by
          simpa [Ne.symm he] using hmem
        rw [if_neg hmem, if_neg he, if_neg hne]

theorem toList_perm_of_getElem? {m : ExtTreeMap κ α} {k : κ} {a : α} (h : m[k]? = some a) :
    m.toList.Perm ((k, a) :: (m.erase k).toList) := by
  have hnot : (k, a) ∉ (m.erase k).toList := by
    simp [ExtTreeMap.mem_toList_iff_getElem?_eq_some]
  refine (List.perm_ext_iff_of_nodup (toList_nodup m)
    (List.nodup_cons.mpr ⟨hnot, toList_nodup _⟩)).mpr ?_
  rintro ⟨k', a'⟩
  rw [List.mem_cons, ExtTreeMap.mem_toList_iff_getElem?_eq_some,
    ExtTreeMap.mem_toList_iff_getElem?_eq_some, getElem?_erase, Prod.mk.injEq]
  by_cases hk : k = k'
  · subst hk
    simp [h, eq_comm]
  · simp [hk, Ne.symm hk]

theorem erase_of_getElem?_none {m : ExtTreeMap κ α} {k : κ} (h : m[k]? = none) : m.erase k = m := by
  apply ExtTreeMap.ext_getElem?
  intro k'
  rw [getElem?_erase]
  split_ifs with hk
  · exact hk ▸ h.symm
  · rfl

theorem toList_insert_perm (m : ExtTreeMap κ α) (k : κ) (a : α) :
    (m.insert k a).toList.Perm ((k, a) :: (m.erase k).toList) := by
  have herase : (m.insert k a).erase k = m.erase k := by
    apply ExtTreeMap.ext_getElem?
    intro k'
    simp only [getElem?_erase, getElem?_insert]
    split_ifs <;> rfl
  rw [← herase]
  exact toList_perm_of_getElem? (by simp)

end OrdMap

namespace Multimap
open Std

variable {κ α : Type} [Ord κ] [TransOrd κ]

/-- Push to the list that is there, or insert a list of one. -/
def push (m : ExtTreeMap κ (List α)) (k : κ) (a : α) : ExtTreeMap κ (List α) :=
  match m[k]? with
  | some as => m.insert k (as ++ [a])
  | none => m.insert k [a]

/-- The values of a list, each under its key, in the order of the list. -/
def groupBy (key : α → κ) (as : List α) : ExtTreeMap κ (List α) :=
  as.foldl (fun m a => push m (key a) a) ∅

variable [LawfulEqOrd κ]

theorem mem_foldl_push {key : α → κ} {as : List α} {m : ExtTreeMap κ (List α)} {k : κ} :
    k ∈ as.foldl (fun m a => push m (key a) a) m ↔ k ∈ m ∨ ∃ a ∈ as, key a = k := by
  induction as generalizing m with
  | nil => simp
  | cons a as ih =>
    have hpush : k ∈ push m (key a) a ↔ key a = k ∨ k ∈ m := by
      unfold push
      cases m[key a]? with
      | none => exact OrdMap.mem_insert
      | some as => exact OrdMap.mem_insert
    rw [List.foldl_cons, ih, hpush, List.exists_mem_cons_iff, or_comm (a := key a = k), or_assoc]

theorem mem_groupBy {key : α → κ} {as : List α} {k : κ} :
    k ∈ groupBy key as ↔ ∃ a ∈ as, key a = k := by
  rw [groupBy, mem_foldl_push]
  simp

theorem toList_flatMap_snd (m : ExtTreeMap κ (List α)) :
    m.toList.flatMap Prod.snd = m.keys.flatMap fun k => m[k]?.getD [] := by
  rw [← ExtTreeMap.map_fst_toList_eq_keys, List.flatMap_map]
  apply List.flatMap_congr
  intro e he
  rw [ExtTreeMap.mem_toList_iff_getElem?_eq_some.mp he]
  rfl

variable [DecidableEq κ]

theorem getElem?_push (m : ExtTreeMap κ (List α)) (k k' : κ) (a : α) :
    (push m k a)[k']? = if k = k' then some (m[k]?.getD [] ++ [a]) else m[k']? := by
  unfold push
  cases m[k]? with
  | none => simp [ExtTreeMap.getElem?_insert]
  | some as => simp [ExtTreeMap.getElem?_insert]

/-- What is found under a key after a push: what was there, and the new value under its own key. -/
theorem mem_getD_push {m : ExtTreeMap κ (List α)} {k k' : κ} {a b : α} :
    b ∈ (push m k a)[k']?.getD [] ↔ b ∈ m[k']?.getD [] ∨ k = k' ∧ b = a := by
  rw [getElem?_push]
  split_ifs with h
  · subst h
    simp
  · simp [h]

theorem getD_foldl_push (key : α → κ) (as : List α) (m : ExtTreeMap κ (List α)) (k : κ) :
    (as.foldl (fun m a => push m (key a) a) m)[k]?.getD [] =
      m[k]?.getD [] ++ as.filter (fun a => key a = k) := by
  induction as generalizing m with
  | nil => simp
  | cons a as ih =>
    rw [List.foldl_cons, ih, getElem?_push]
    by_cases h : key a = k
    · subst h
      simp
    · simp [h]

theorem getD_groupBy (key : α → κ) (as : List α) (k : κ) :
    (groupBy key as)[k]?.getD [] = as.filter fun a => key a = k := by
  rw [groupBy, getD_foldl_push]
  simp

end Multimap
