import Mqtr.Wire.Types

/-! The grammar of topic filters. `validate` looks at the levels of a filter through their length in
bytes and through what comes after the first `#`; what it accepts is the grammar. -/
namespace Mqtr
open Outcome

namespace TopicFilter

/-- Levels are what lies between the separators. One with a wildcard in it is that wildcard, and the
wildcard for all levels comes last. -/
structure WellFormed (s : String) : Prop where
  nonempty : s ≠ ""
  no_nul : '\x00' ∉ s.toList
  alone : ∀ level ∈ splitLevels s, ∀ c ∈ level.toList, c = '+' ∨ c = '#' → level.toList = [c]
  hash_once : (splitLevels s).count "#" ≤ 1
  hash_last : ∀ i, (splitLevels s)[i]? = some "#" → i + 1 = (splitLevels s).length

/-- Nothing is left after the first `a` exactly if no `a` comes before the end. -/
theorem dropWhile_ne_tail {α : Type} [DecidableEq α] (a : α) (l : List α) :
    (l.dropWhile (· != a)).drop 1 = [] ↔ ∀ i, l[i]? = some a → i + 1 = l.length := by
  induction l with
  | nil => simp
  | cons b l ih =>
    by_cases hb : b = a
    · subst hb
      simp only [List.dropWhile_cons, bne_self_eq_false, Bool.false_eq_true, ↓reduceIte,
        List.drop_one, List.tail_cons]
      constructor
      · rintro rfl i hi
        cases i with
        | zero => rfl
        | succ i => simp at hi
      · intro h
        have hlen := h 0 rfl
        simpa using hlen
    · rw [List.dropWhile_cons_of_pos (by simpa using hb), ih]
      constructor
      · intro h i hi
        cases i with
        | zero => exact absurd (Option.some.inj hi) hb
        | succ i =>
          have hlen := h i (by simpa using hi)
          rw [List.length_cons, hlen]
      · intro h i hi
        have hlen := h (i + 1) (by simpa using hi)
        simpa using hlen

/-- What comes only at the end comes at most once. -/
theorem count_le_one_of_last {α : Type} [DecidableEq α] {a : α} {l : List α}
    (h : ∀ i, l[i]? = some a → i + 1 = l.length) : l.count a ≤ 1 := by
  induction l with
  | nil => simp
  | cons b l ih =>
    rw [List.count_cons]
    split_ifs with hb
    · have hlen := h 0 (by simpa using hb)
      have hnil : l = [] := by simpa using hlen
      simp [hnil]
    · refine ih fun i hi => ?_
      have hlen := h (i + 1) (by simpa using hi)
      simpa using hlen

/-- Every character takes at least one byte. -/
theorem length_le_utf8ByteSize (chars : List Char) :
    chars.length ≤ (String.ofList chars).utf8ByteSize := by
  induction chars with
  | nil => simp
  | cons c chars ih =>
    have hpos := c.utf8Size_pos
    rw [String.ofList_cons, String.utf8ByteSize_append, String.utf8ByteSize_singleton,
      List.length_cons]
    omega

/-- By the number of its bytes a level is told from a wildcard alone. -/
theorem long_of_wildcard_iff {level : String} {c : Char} (hc : c ∈ level.toList)
    (hwild : c = '+' ∨ c = '#') : 1 < level.utf8ByteSize ↔ level.toList ≠ [c] := by
  have hsize : c.utf8Size = 1 := by rcases hwild with rfl | rfl <;> rfl
  constructor
  · intro hlong halone
    rw [← String.ofList_toList (s := level), halone, ← String.singleton_eq_ofList,
      String.utf8ByteSize_singleton, hsize] at hlong
    omega
  · intro hne
    by_contra hshort
    have hlen := length_le_utf8ByteSize level.toList
    rw [String.ofList_toList] at hlen
    have hone : level.toList.length = 1 := by
      have hpos := List.length_pos_of_mem hc
      omega
    obtain ⟨d, hd⟩ := List.length_eq_one_iff.mp hone
    rw [hd] at hc hne
    exact hne (by rw [List.mem_singleton.mp hc])

/-- No long level has a wildcard in it. -/
theorem any_mixed_eq_false_iff (levels : List String) :
    ((levels.filter (1 < ·.utf8ByteSize)).any
        fun l => l.toList.any fun c => c == '#' || c == '+') = false ↔
      ∀ level ∈ levels, ∀ c ∈ level.toList, c = '+' ∨ c = '#' → level.toList = [c] := by
  simp only [List.any_eq_false, List.mem_filter, decide_eq_true_eq, List.any_eq_true,
    Bool.or_eq_true, beq_iff_eq, not_exists, not_and, and_imp]
  constructor
  · intro h level hlevel c hc hwild
    by_contra hne
    exact h level hlevel ((long_of_wildcard_iff hc hwild).mpr hne) c hc hwild.symm
  · intro h level hlevel hlong c hc hwild
    exact (long_of_wildcard_iff hc hwild.symm).mp hlong (h level hlevel c hc hwild.symm)

/-- `validate` accepts the strings of the grammar and no others. -/
theorem validate_iff_wellFormed (s : String) :
    (TopicFilter.mk s).validate = .ok () ↔ WellFormed s := by
  have hlevels : (iterTopicPath (TopicFilter.mk s) : List String) = splitLevels s := rfl
  unfold validate
  rw [hlevels]
  dsimp only
  split_ifs with hsize hnul hmixed hhash
  · have hempty : s = "" := String.utf8ByteSize_eq_zero_iff.mp hsize
    exact iff_of_false (errCode_ne_ok _ _ _ _) fun h => h.nonempty hempty
  · have hmem : '\x00' ∈ s.toList := by simpa using hnul
    exact iff_of_false (errCode_ne_ok _ _ _ _) fun h => h.no_nul hmem
  · refine iff_of_false (errCode_ne_ok _ _ _ _) fun h => ?_
    rw [(any_mixed_eq_false_iff _).mpr h.alone] at hmixed
    cases hmixed
  · exact iff_of_false (errCode_ne_ok _ _ _ _) fun h =>
      hhash ((dropWhile_ne_tail "#" _).mpr h.hash_last)
  · have hlast := (dropWhile_ne_tail "#" _).mp (not_not.mp hhash)
    refine iff_of_true rfl ⟨?_, ?_, ?_, count_le_one_of_last hlast, hlast⟩
    · rintro rfl
      exact hsize rfl
    · simpa using hnul
    · exact (any_mixed_eq_false_iff _).mp (Bool.eq_false_iff.mpr hmixed)

end TopicFilter
end Mqtr
