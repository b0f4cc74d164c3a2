import Mathlib.Tactic

/-! Binary search in a sorted list, with a comparison that may abort. The loop keeps the half-open
interval `[left, right)` and probes its midpoint; the answer is the index of a match (`ok`) or the
place where a match could be inserted (`error`). -/

namespace Bisect
universe u
variable {α : Type u}

def loop (probe : α → Option Ordering) (xs : List α) : ℕ → ℕ → ℕ → Option (Except ℕ ℕ)
  | 0, left, _ => some (.error left)
  | fuel + 1, left, right =>
    if left < right then
      let mid := left + (right - left) / 2
      match xs[mid]?.bind probe with
      | some .lt => loop probe xs fuel (mid + 1) right
      | some .gt => loop probe xs fuel left mid
      | some .eq => some (.ok mid)
      | none => none
    else some (.error left)

/-- The interval shrinks at every probe, so its initial length is enough fuel. -/
def search (probe : α → Option Ordering) (xs : List α) : Option (Except ℕ ℕ) :=
  loop probe xs xs.length 0 xs.length

/-- Along the list the comparison goes from `lt` through `eq` to `gt`. -/
def Ascending (f : α → Ordering) (xs : List α) : Prop :=
  xs.Pairwise fun a b => (f b = .lt → f a = .lt) ∧ (f a = .gt → f b = .gt)

/-- What the search may answer, with the list split at the answer. -/
def Answer (f : α → Ordering) (xs : List α) : Except ℕ ℕ → Prop
  | .ok i => ∃ l x r, xs = l ++ x :: r ∧ l.length = i ∧ f x = .eq
  | .error i => ∃ l r, xs = l ++ r ∧ l.length = i ∧ (∀ x ∈ l, f x = .lt) ∧ ∀ x ∈ r, f x = .gt

/-- A list sorted by a key is in ascending position to any fixed key. -/
theorem ascending_of_sorted {β : Type*} [Ord β] [Std.TransOrd β] {key : α → β} {xs : List α}
    (h : xs.Pairwise fun a b => compare (key a) (key b) = .lt) (k : β) :
    Ascending (fun a => compare (key a) k) xs := by
  refine h.imp fun {a b} hab => ⟨fun hb => Std.TransCmp.lt_trans hab hb, fun ha => ?_⟩
  rw [Std.OrientedCmp.gt_iff_lt] at ha ⊢
  exact Std.TransCmp.lt_trans ha hab

theorem Ascending.take_lt {f : α → Ordering} {xs : List α} (hs : Ascending f xs) {i : ℕ}
    (hi : i < xs.length) (hlt : f xs[i] = .lt) : ∀ x ∈ xs.take (i + 1), f x = .lt := by
  intro x hx
  obtain ⟨j, hj, rfl⟩ := List.mem_take_iff_getElem.mp hx
  have hj' : j ≤ i := by omega
  rcases hj'.lt_or_eq with h | rfl
  · exact ((List.pairwise_iff_getElem.mp hs) j i (by omega) hi h).1 hlt
  · exact hlt

theorem Ascending.drop_gt {f : α → Ordering} {xs : List α} (hs : Ascending f xs) {i : ℕ}
    (hi : i < xs.length) (hgt : f xs[i] = .gt) : ∀ x ∈ xs.drop i, f x = .gt := by
  intro x hx
  obtain ⟨j, hj, rfl⟩ := List.mem_drop_iff_getElem.mp hx
  rcases Nat.eq_zero_or_pos j with rfl | h
  · simpa using hgt
  · exact ((List.pairwise_iff_getElem.mp hs) i (i + j) hi (by omega) (by omega)).2 hgt

theorem loop_answer {probe : α → Option Ordering} {f : α → Ordering} {xs : List α}
    (hp : ∀ x ∈ xs, probe x = some (f x)) (hs : Ascending f xs) :
    ∀ fuel left right, left ≤ right → right ≤ xs.length → right - left ≤ fuel →
      (∀ x ∈ xs.take left, f x = .lt) → (∀ x ∈ xs.drop right, f x = .gt) →
      ∃ a, loop probe xs fuel left right = some a ∧ Answer f xs a := by
  have done (left right : ℕ) (hle : left ≤ right) (hr : right ≤ xs.length) (he : right ≤ left)
      (hl : ∀ x ∈ xs.take left, f x = .lt) (hg : ∀ x ∈ xs.drop right, f x = .gt) :
      Answer f xs (.error left) := by
    obtain rfl : left = right := le_antisymm hle he
    exact ⟨xs.take left, xs.drop left, (List.take_append_drop _ _).symm,
      List.length_take_of_le hr, hl, hg⟩
  intro fuel
  induction fuel with
  | zero =>
    intro left right hle hr hf hl hg
    exact ⟨.error left, rfl, done left right hle hr (by omega) hl hg⟩
  | succ fuel ih =>
    intro left right hle hr hf hl hg
    by_cases hlt : left < right
    · have hm : left + (right - left) / 2 < xs.length := by omega
      have hx := hp _ (List.getElem_mem hm)
      simp only [loop, hlt, ↓reduceIte, List.getElem?_eq_getElem hm, Option.bind_some, hx]
      cases hc : f xs[left + (right - left) / 2] with
      | lt => exact ih _ _ (by omega) hr (by omega) (hs.take_lt hm hc) hg
      | eq =>
        refine ⟨.ok _, rfl, xs.take (left + (right - left) / 2), _,
          xs.drop (left + (right - left) / 2 + 1), ?_, List.length_take_of_le hm.le, hc⟩
        rw [← List.drop_eq_getElem_cons hm, List.take_append_drop]
      | gt => exact ih _ _ (by omega) (by omega) (by omega) hl (hs.drop_gt hm hc)
    · exact ⟨.error left, by simp [loop, hlt], done left right hle hr (by omega) hl hg⟩

/-- On a sorted list the search never aborts and its answer is the documented one. -/
theorem search_answer {probe : α → Option Ordering} {f : α → Ordering} {xs : List α}
    (hp : ∀ x ∈ xs, probe x = some (f x)) (hs : Ascending f xs) :
    ∃ a, search probe xs = some a ∧ Answer f xs a :=
  loop_answer hp hs _ _ _ (Nat.zero_le _) le_rfl (by omega) (by simp) (by simp)

theorem loop_total {f : α → Ordering} {xs : List α} :
    ∀ fuel left right, left ≤ right → right ≤ xs.length →
      ∃ a, loop (fun x => some (f x)) xs fuel left right = some a ∧
        ∀ i, a = .error i → i ≤ xs.length := by
  intro fuel
  induction fuel with
  | zero =>
    intro left right hle hr
    refine ⟨.error left, rfl, fun i hi => ?_⟩
    cases hi
    omega
  | succ fuel ih =>
    intro left right hle hr
    by_cases hlt : left < right
    · have hm : left + (right - left) / 2 < xs.length := by omega
      simp only [loop, hlt, ↓reduceIte, List.getElem?_eq_getElem hm, Option.bind_some]
      cases f xs[left + (right - left) / 2] with
      | lt => exact ih _ _ (by omega) hr
      | eq => exact ⟨.ok _, rfl, fun i hi => by cases hi⟩
      | gt => exact ih _ _ (by omega) (by omega)
    · refine ⟨.error left, by simp [loop, hlt], fun i hi => ?_⟩
      cases hi
      omega

/-- With a comparison that never aborts the search answers, on a list in any order, and it answers
with a place inside the list. -/
theorem search_total (f : α → Ordering) (xs : List α) :
    ∃ a, search (fun x => some (f x)) xs = some a ∧ ∀ i, a = .error i → i ≤ xs.length :=
  loop_total _ _ _ (Nat.zero_le _) le_rfl

/-- Remove and return the element at index `i`; an index past the end aborts. -/
def removeAt (xs : List α) (i : ℕ) : Option (α × List α) :=
  xs[i]?.map fun a => (a, xs.eraseIdx i)

/-- Insert `a` before index `i`; an index past the end of the list aborts. -/
def insertAt (xs : List α) (i : ℕ) (a : α) : Option (List α) :=
  if i ≤ xs.length then some (xs.insertIdx i a) else none

theorem removeAt_append (l : List α) (a : α) (r : List α) :
    removeAt (l ++ a :: r) l.length = some (a, l ++ r) := by
  simp [removeAt, List.eraseIdx_append_of_length_le]

theorem insertAt_append (l r : List α) (a : α) :
    insertAt (l ++ r) l.length a = some (l ++ a :: r) := by
  simp only [insertAt, List.length_append, Nat.le_add_right, ↓reduceIte, Option.some.injEq]
  induction l with
  | nil => rfl
  | cons b l ih => simpa using ih

/-- The offsets of the elements with the property. -/
def offsets (p : α → Bool) (xs : List α) : List ℕ :=
  xs.zipIdx.filterMap fun entry => if p entry.1 then some entry.2 else none

/-- Remove the elements at the offsets, one after the other. -/
def removeEach (xs : List α) (offs : List ℕ) : Option (List α) :=
  offs.foldlM (fun xs off => (removeAt xs off).map Prod.snd) xs

theorem removeEach_cons (xs : List α) (off : ℕ) (offs : List ℕ) :
    removeEach xs (off :: offs) = (removeAt xs off).bind fun r => removeEach r.2 offs := by
  rw [removeEach, List.foldlM_cons]
  cases removeAt xs off <;> rfl

theorem offsets_concat (p : α → Bool) (xs : List α) (a : α) :
    offsets p (xs ++ [a]) = offsets p xs ++ if p a then [xs.length] else [] := by
  cases h : p a <;> simp [offsets, List.zipIdx_append, h]

/-- From the last offset to the first, no removal shifts an element that is still to be removed. -/
theorem removeEach_offsets (p : α → Bool) (xs ys : List α) :
    removeEach (xs ++ ys) (offsets p xs).reverse = some (xs.filter (fun a => !p a) ++ ys) := by
  induction xs using List.reverseRecOn generalizing ys with
  | nil => rfl
  | append_singleton xs a ih =>
    rw [offsets_concat, List.append_assoc, List.singleton_append]
    cases h : p a with
    | false => simpa [h] using ih (a :: ys)
    | true =>
      rw [if_pos rfl, List.reverse_append, List.reverse_singleton, List.singleton_append,
        removeEach_cons, removeAt_append, Option.bind_some, ih ys]
      simp [h]

section Sorted
variable {β : Type*} [Ord β] [Std.TransOrd β] [Std.LawfulEqOrd β]

/-- Searching a key in a strictly ascending list of keys finds it exactly if it is there, and where it
is not, the answer is the place to insert it at. -/
theorem search_sorted {keys : List β} (h : keys.Pairwise (compare · · = .lt)) (k : β) :
    ∃ a, search (fun x => some (compare x k)) keys = some a ∧ (a.isOk = true ↔ k ∈ keys) ∧
      ∀ i, a = .error i → ∃ keys', insertAt keys i k = some keys' ∧
        keys'.Pairwise (compare · · = .lt) ∧ ∀ x, x ∈ keys' ↔ x = k ∨ x ∈ keys := by
  have hasc : Ascending (fun x => compare x k) keys := ascending_of_sorted h k
  obtain ⟨a, ha, hanswer⟩ := search_answer (fun _ _ => rfl) hasc
  refine ⟨a, ha, ?_⟩
  cases a with
  | ok i =>
    obtain ⟨l, x, r, rfl, -, hx⟩ := hanswer
    obtain rfl := Std.LawfulEqCmp.eq_of_compare hx
    exact ⟨by simp [Except.isOk, Except.toBool], by simp⟩
  | error i =>
    obtain ⟨l, r, rfl, rfl, hl, hr⟩ := hanswer
    obtain ⟨hleft, hright, hacross⟩ := List.pairwise_append.mp h
    refine ⟨?_, ?_⟩
    · simp only [Except.isOk, Except.toBool, Bool.false_eq_true, false_iff, List.mem_append, not_or]
      refine ⟨fun hk => ?_, fun hk => ?_⟩
      · simpa using hl k hk
      · simpa using hr k hk
    · rintro _ ⟨⟩
      refine ⟨l ++ k :: r, insertAt_append l r k, ?_, ?_⟩
      · refine List.pairwise_append.mpr ⟨hleft, List.pairwise_cons.mpr ⟨?_, hright⟩, ?_⟩
        · intro x hx
          exact Std.OrientedCmp.gt_iff_lt.mp (hr x hx)
        · intro x hx y hy
          rcases List.mem_cons.mp hy with rfl | hy
          · exact hl x hx
          · exact hacross x hx y hy
      · intro x
        simp only [List.mem_append, List.mem_cons]
        tauto

end Sorted
end Bisect
