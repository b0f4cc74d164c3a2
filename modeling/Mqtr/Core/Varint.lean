import Mathlib.Data.Nat.Digits.Defs
import Mathlib.Tactic

/-! Little-endian base-128 numbers: seven value bits a byte, the top bit marks continuation. -/

namespace Varint

/-- A decidable property of one byte can be settled by enumeration. -/
theorem forall_byte {P : UInt8 → Prop} [DecidablePred P]
    (h : ∀ n : Fin 256, P (UInt8.ofNat n.val)) (b : UInt8) : P b := by
  simpa using h ⟨b.toNat, b.toNat_lt⟩

/-- The number written by a digit string; continuation bits do not count. -/
def value : List UInt8 → ℕ
  | [] => 0
  | b :: bs => b.toNat % 128 + 128 * value bs

/-- Length of the field at the head of the bytes: it ends with the first byte below 128. -/
def width : List UInt8 → Option ℕ
  | [] => none
  | b :: bs => if b < 0x80 then some 1 else (width bs).map (· + 1)

theorem value_lt (bs : List UInt8) : value bs < 128 ^ bs.length := by
  induction bs with
  | nil => simp [value]
  | cons b bs ih =>
    have hb : b.toNat % 128 < 128 := Nat.mod_lt _ (by decide)
    simp only [value, List.length_cons, pow_succ]
    omega

theorem width_bounds {bs : List UInt8} {k : ℕ} (h : width bs = some k) :
    0 < k ∧ k ≤ bs.length := by
  induction bs generalizing k with
  | nil => simp [width] at h
  | cons b bs ih =>
    simp only [width] at h
    split_ifs at h with hb
    · obtain rfl := Option.some.inj h
      simp
    · obtain ⟨j, hj, rfl⟩ := Option.map_eq_some_iff.mp h
      have := ih hj
      simp only [List.length_cons]
      omega

/-- The byte at position `n`, counted from one, is the first below 128. -/
def EndsAt (bs : List UInt8) (n : ℕ) : Prop :=
  ∃ init last rest, bs = init ++ last :: rest ∧ n = init.length + 1 ∧ last < 0x80 ∧
    ∀ b ∈ init, ¬ b < 0x80

theorem width_eq_some_iff {bs : List UInt8} {n : ℕ} : width bs = some n ↔ EndsAt bs n := by
  induction bs generalizing n with
  | nil => simp [width, EndsAt]
  | cons b bs ih =>
    rw [width]
    split_ifs with hb
    · constructor
      · intro h
        obtain rfl := Option.some.inj h
        exact ⟨[], b, bs, rfl, rfl, hb, by simp⟩
      · rintro ⟨init, last, rest, hbs, rfl, -, hinit⟩
        cases init with
        | nil => rfl
        | cons c init =>
          obtain ⟨rfl, -⟩ := List.cons.inj hbs
          exact absurd hb (hinit b (by simp))
    · rw [Option.map_eq_some_iff]
      constructor
      · rintro ⟨k, hk, rfl⟩
        obtain ⟨init, last, rest, rfl, rfl, hlast, hinit⟩ := ih.mp hk
        exact ⟨b :: init, last, rest, rfl, rfl, hlast, List.forall_mem_cons.mpr ⟨hb, hinit⟩⟩
      · rintro ⟨init, last, rest, hbs, rfl, hlast, hinit⟩
        cases init with
        | nil =>
          obtain ⟨rfl, -⟩ := List.cons.inj hbs
          exact absurd hlast hb
        | cons c init =>
          obtain ⟨rfl, rfl⟩ := List.cons.inj hbs
          have hend : EndsAt (init ++ last :: rest) (init.length + 1) :=
            ⟨init, last, rest, rfl, rfl, hlast, (List.forall_mem_cons.mp hinit).2⟩
          exact ⟨init.length + 1, ih.mpr hend, rfl⟩

theorem value_eq_ofDigits (bs : List UInt8) :
    value bs = Nat.ofDigits 128 (bs.map (·.toNat % 128)) := by
  induction bs with
  | nil => rfl
  | cons b bs ih => rw [value, ih, List.map_cons, Nat.ofDigits_cons]

/-- A field is read from its own bytes: what follows it does not matter. -/
theorem width_append {bs : List UInt8} {k : ℕ} (h : width bs = some k) (cs : List UInt8) :
    width (bs ++ cs) = some k := by
  induction bs generalizing k with
  | nil => simp [width] at h
  | cons b bs ih =>
    simp only [width] at h
    split_ifs at h with hb
    · simp [width, hb, h]
    · obtain ⟨j, hj, rfl⟩ := Option.map_eq_some_iff.mp h
      simp [width, hb, ih hj]

theorem width_eq_none_iff {bs : List UInt8} : width bs = none ↔ ∀ b ∈ bs, ¬ b < 0x80 := by
  induction bs with
  | nil => simp [width]
  | cons b bs ih =>
    by_cases hb : b < 0x80
    · simp [width, hb]
    · rw [width, if_neg hb, Option.map_eq_none_iff, ih, List.forall_mem_cons]
      simp only [hb, not_false_eq_true, true_and]

theorem width_take {bs : List UInt8} {k n : ℕ} (h : width bs = some k) (hn : k ≤ n) :
    width (bs.take n) = some k := by
  induction bs generalizing k n with
  | nil => simp [width] at h
  | cons b bs ih =>
    obtain ⟨m, rfl⟩ : ∃ m, n = m + 1 := ⟨n - 1, by have := (width_bounds h).1; omega⟩
    simp only [width] at h
    split_ifs at h with hb
    · simpa [width, hb] using h
    · obtain ⟨j, hj, rfl⟩ := Option.map_eq_some_iff.mp h
      simp [width, hb, ih hj (by omega : j ≤ m)]

theorem width_take_eq_some_iff {bs : List UInt8} {k n : ℕ} :
    width (bs.take n) = some k ↔ k ≤ n ∧ width bs = some k := by
  constructor
  · intro h
    have hk := (width_bounds h).2.trans (List.length_take_le _ _)
    have hbs := width_append h (bs.drop n)
    rw [List.take_append_drop] at hbs
    exact ⟨hk, hbs⟩
  · rintro ⟨hk, h⟩
    exact width_take h hk

/-- A field is open before its last byte. -/
theorem width_take_none {bs : List UInt8} {k j : ℕ} (h : width bs = some k) (hj : j < k) :
    width (bs.take j) = none := by
  cases hw : width (bs.take j) with
  | none => rfl
  | some i =>
    have hi : i ≤ j := (width_bounds hw).2.trans (List.length_take_le _ _)
    have hbs := width_append hw (bs.drop j)
    rw [List.take_append_drop, h] at hbs
    have hki : k = i := Option.some.inj hbs
    omega

/-- After bytes without an end the field goes on. -/
theorem width_append_of_none {xs : List UInt8} (h : width xs = none) (ys : List UInt8) :
    width (xs ++ ys) = (width ys).map (· + xs.length) := by
  induction xs with
  | nil => simp
  | cons x xs ih =>
    simp only [width] at h
    split_ifs at h with hx
    rw [List.cons_append, width, if_neg hx, ih (Option.map_eq_none_iff.mp h), Option.map_map]
    congr 1

theorem value_append (xs ys : List UInt8) :
    value (xs ++ ys) = value xs + 128 ^ xs.length * value ys := by
  induction xs with
  | nil => simp [value]
  | cons x xs ih =>
    simp only [List.cons_append, value, ih, List.length_cons, pow_succ]
    ring

theorem value_singleton {b : UInt8} (hb : b < 0x80) : value [b] = b.toNat := by
  have hlt : b.toNat < 128 := hb
  simp only [value]
  omega

/-- In a zero, a byte that is not the last has the continuation bit and no other. -/
theorem head_of_value_zero {b : UInt8} {bs : List UInt8} (hb : ¬ b < 0x80) (h : value (b :: bs) = 0) :
    b = 0x80 ∧ value bs = 0 := by
  have hge : ¬ b.toNat < 128 := hb
  have hlt := b.toNat_lt
  simp only [value] at h
  have hdigit : b.toNat = 128 := by omega
  exact ⟨UInt8.toNat_inj.mp hdigit, by omega⟩

/-- Bytes that are one field, with a last digit other than zero, are worth at least one. -/
theorem value_pos {bs : List UInt8} (h : width bs = some bs.length)
    (hlast : bs.getLast? ≠ some 0) : 0 < value bs := by
  induction bs with
  | nil => simp [width] at h
  | cons b bs ih =>
    simp only [width] at h
    split_ifs at h with hb
    · -- the only digit
      have hnil : bs = [] := by simpa using h
      subst hnil
      have hne : b.toNat ≠ 0 := by
        intro he
        have hzero : b = 0 := UInt8.toNat_inj.mp (by simpa using he)
        exact hlast (by simp [hzero])
      have hlt : b.toNat < 128 := hb
      simp only [value]
      omega
    · obtain ⟨j, hj, hjl⟩ := Option.map_eq_some_iff.mp h
      have hne : bs ≠ [] := by
        rintro rfl
        simp [width] at hj
      have hpos := ih (by rw [hj]; simpa using hjl)
        (by rwa [List.getLast?_cons_of_ne_nil hne] at hlast)
      simp only [value]
      omega

end Varint
