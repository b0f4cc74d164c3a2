import Mqtr.Core.Outcome

/-! Buffers that are changed in place. The bounds of every access are checked. -/

universe u v

namespace Buffer
open Outcome

variable {ε : Type u} {α : Type v}

/-- The items from a position on are overwritten; the buffer keeps its length. -/
def overwrite (s : List α) (start : ℕ) (items : List α) : Outcome ε (List α) :=
  if start + items.length ≤ s.length then
    .ok (s.take start ++ items ++ s.drop (start + items.length))
  else .panic

/-- `copy_within(..count, dest)`: the items are read before any is overwritten. -/
def copyWithin (s : List α) (count dest : ℕ) : Outcome ε (List α) := do
  let items ← slice s 0 count
  overwrite s dest items

/-- The buffer grows at its end, its content is moved up, and the front is overwritten. -/
def insertFront (s head : List α) : Outcome ε (List α) := do
  let grown := s ++ head
  let moved ← copyWithin grown s.length head.length
  overwrite moved 0 head

variable {s items : List α} {start : ℕ}

theorem overwrite_of_le (h : start + items.length ≤ s.length) :
    (overwrite s start items : Outcome ε (List α)) =
      .ok (s.take start ++ items ++ s.drop (start + items.length)) :=
  if_pos h

/-- Moving the content of a buffer up to its end leaves what was in front of the new place. -/
theorem copyWithin_append (s tail : List α) :
    (copyWithin (s ++ tail) s.length tail.length : Outcome ε (List α)) =
      .ok ((s ++ tail).take tail.length ++ s) := by
  have hitems : (slice (s ++ tail) 0 s.length : Outcome ε (List α)) = .ok s := by
    rw [slice_of_le (Nat.zero_le _) (by simp)]
    simp
  have hend : (s ++ tail).drop (tail.length + s.length) = [] :=
    List.drop_eq_nil_of_le (by simp; omega)
  rw [copyWithin, hitems, ok_bind, overwrite_of_le (by simp; omega), hend, List.append_nil]

/-- However short the content is against what goes in front of it, nothing of it is lost. -/
theorem insertFront_eq (s head : List α) :
    (insertFront s head : Outcome ε (List α)) = .ok (head ++ s) := by
  have hfront : ((s ++ head).take head.length).length = head.length :=
    List.length_take_of_le (by simp)
  have hbehind : ((s ++ head).take head.length ++ s).drop (0 + head.length) = s := by
    rw [Nat.zero_add, List.drop_append_of_le_length hfront.ge, List.drop_eq_nil_of_le hfront.le,
      List.nil_append]
  rw [insertFront, copyWithin_append, ok_bind, overwrite_of_le (by simp), hbehind]
  simp

section Array
variable {n : ℕ} {data : Vector α n}

/-- `data[a..b].copy_from_slice(src)`: the range has to lie in the array and to be as long as the source. -/
def copyFromSlice (data : Vector α n) (a b : ℕ) (src : List α) : Outcome ε (Vector α n) :=
  if h : (a ≤ b ∧ b ≤ n) ∧ src.length = b - a then
    .ok ⟨(data.toList.take a ++ src ++ data.toList.drop b).toArray, by simp; omega⟩
  else .panic

/-- The range behind what the array holds, as long as there is room for it. -/
theorem copyFromSlice_append (hdata : items <+: data.toList) {src : List α}
    (hroom : items.length + src.length ≤ n) :
    ∃ data', (copyFromSlice data items.length (items.length + src.length) src :
        Outcome ε (Vector α n)) = .ok data' ∧ items ++ src <+: data'.toList := by
  refine ⟨_, dif_pos ⟨⟨Nat.le_add_right _ _, hroom⟩, (Nat.add_sub_cancel_left ..).symm⟩, ?_⟩
  change items ++ src <+: data.toList.take items.length ++ src ++ _
  rw [← List.prefix_iff_eq_take.mp hdata]
  exact List.prefix_append _ _

/-- The array is full of one item at first. -/
theorem copyFromSlice_replicate (a : α) {src : List α} (hroom : src.length ≤ n) :
    ∃ data', (copyFromSlice (Vector.replicate n a) 0 src.length src : Outcome ε (Vector α n)) =
      .ok data' ∧ src <+: data'.toList := by
  have hempty : [] <+: (Vector.replicate n a).toList := List.nil_prefix
  have hroom' : ([] : List α).length + src.length ≤ n := by simpa using hroom
  simpa using copyFromSlice_append (ε := ε) hempty hroom'

theorem slice_of_isPrefix (hdata : items <+: data.toList) :
    (slice data.toList 0 items.length : Outcome ε (List α)) = .ok items := by
  rw [slice_of_le (Nat.zero_le _) hdata.length_le, List.drop_zero, Nat.sub_zero,
    ← List.prefix_iff_eq_take.mp hdata]

end Array
end Buffer
