import Mqtr.Core.Outcome

/-! Readers and writers of lists. A reader returns a value with the number of items it used, a writer
returns the items of a value. A cursor follows a reader through what a writer has produced. -/

universe u v

namespace Codec
open Outcome

/-- In `s`, `tail` begins at position `n`. -/
def At {β : Type v} (s : List β) (n : ℕ) (tail : List β) : Prop :=
  n ≤ s.length ∧ s.drop n = tail

namespace At
variable {β : Type v} {s tail rest bytes : List β} {n : ℕ}

theorem start (s : List β) : At s 0 s :=
  ⟨Nat.zero_le _, List.drop_zero⟩

/-- The cursor after the first part of the tail. -/
theorem next (h : At s n (bytes ++ rest)) : At s (n + bytes.length) rest := by
  obtain ⟨hn, hdrop⟩ := h
  have hlen : s.length - n = bytes.length + rest.length := by
    rw [← List.length_drop, hdrop, List.length_append]
  constructor
  · omega
  · rw [← List.drop_drop, hdrop, List.drop_left]

end At

section Concat
variable {ε : Type u} {α β : Type v}

/-- Several outputs one after the other; the first that fails is the failure of all. -/
def concat : List (Outcome ε (List β)) → Outcome ε (List β)
  | [] => .ok []
  | x :: xs => do
    let b ← x
    let bs ← concat xs
    .ok (b ++ bs)

@[simp] theorem concat_nil : concat ([] : List (Outcome ε (List β))) = .ok [] := rfl

theorem concat_cons_eq_ok {x : Outcome ε (List β)} {xs : List (Outcome ε (List β))}
    {data : List β} :
    concat (x :: xs) = .ok data ↔ ∃ b bs, x = .ok b ∧ concat xs = .ok bs ∧ data = b ++ bs := by
  constructor
  · intro h
    obtain ⟨b, hb, h⟩ := bind_eq_ok.mp h
    obtain ⟨bs, hbs, h⟩ := bind_eq_ok.mp h
    exact ⟨b, bs, hb, hbs, (Outcome.ok.inj h).symm⟩
  · rintro ⟨b, bs, rfl, hbs, rfl⟩
    rw [concat, ok_bind, hbs]
    rfl

theorem concat_two_eq_ok {x y : Outcome ε (List β)} {data : List β} :
    concat [x, y] = .ok data ↔ ∃ a b, x = .ok a ∧ y = .ok b ∧ data = a ++ b := by
  simp only [concat_cons_eq_ok, concat_nil, Outcome.ok.injEq]
  constructor
  · rintro ⟨a, _, hx, ⟨b, _, hy, rfl, rfl⟩, rfl⟩
    exact ⟨a, b, hx, hy, by rw [List.append_nil]⟩
  · rintro ⟨a, b, hx, hy, rfl⟩
    exact ⟨a, b, hx, ⟨b, [], hy, rfl, by rw [List.append_nil]⟩, rfl⟩

theorem concat_three_eq_ok {x y z : Outcome ε (List β)} {data : List β} :
    concat [x, y, z] = .ok data ↔
      ∃ a b c, x = .ok a ∧ y = .ok b ∧ z = .ok c ∧ data = a ++ (b ++ c) := by
  rw [concat_cons_eq_ok]
  simp only [concat_two_eq_ok]
  constructor
  · rintro ⟨a, _, hx, ⟨b, c, hy, hz, rfl⟩, rfl⟩
    exact ⟨a, b, c, hx, hy, hz, rfl⟩
  · rintro ⟨a, b, c, hx, hy, hz, rfl⟩
    exact ⟨a, b ++ c, hx, ⟨b, c, hy, hz, rfl⟩, rfl⟩

theorem ok_of_mem_concat {xs : List (Outcome ε (List β))} {data : List β}
    (h : concat xs = .ok data) : ∀ x ∈ xs, ∃ b, x = .ok b := by
  induction xs generalizing data with
  | nil => simp
  | cons x xs ih =>
    obtain ⟨b, bs, hb, hbs, -⟩ := concat_cons_eq_ok.mp h
    intro y hy
    rcases List.mem_cons.mp hy with rfl | hy
    · exact ⟨b, hb⟩
    · exact ih hbs y hy

theorem concat_append (xs ys : List (Outcome ε (List β))) :
    concat (xs ++ ys) = (do
      let a ← concat xs
      let b ← concat ys
      .ok (a ++ b)) := by
  induction xs with
  | nil =>
    rw [List.nil_append, concat_nil, ok_bind]
    cases concat ys <;> rfl
  | cons x xs ih =>
    rw [List.cons_append, concat, concat, ih]
    cases x with
    | ok b =>
      simp only [ok_bind]
      cases concat xs with
      | ok bs => cases concat ys <;> simp
      | err e => rfl
      | panic => rfl
    | err e => rfl
    | panic => rfl

/-- The order of the outputs matters neither for whether all succeed nor for their total length. -/
theorem concat_perm {xs ys : List (Outcome ε (List β))} (h : xs.Perm ys) {data : List β}
    (hdata : concat xs = .ok data) :
    ∃ data', concat ys = .ok data' ∧ data'.length = data.length := by
  induction h generalizing data with
  | nil => exact ⟨data, hdata, rfl⟩
  | cons x _ ih =>
    obtain ⟨b, bs, hb, hbs, rfl⟩ := concat_cons_eq_ok.mp hdata
    obtain ⟨bs', hbs', hlen⟩ := ih hbs
    exact ⟨b ++ bs', concat_cons_eq_ok.mpr ⟨b, bs', hb, hbs', rfl⟩, by simp [hlen]⟩
  | swap x y xs =>
    obtain ⟨b, bs, hb, hbs, rfl⟩ := concat_cons_eq_ok.mp hdata
    obtain ⟨c, cs, hc, hcs, rfl⟩ := concat_cons_eq_ok.mp hbs
    refine ⟨c ++ (b ++ cs), ?_, ?_⟩
    · exact concat_cons_eq_ok.mpr ⟨c, _, hc, concat_cons_eq_ok.mpr ⟨b, cs, hb, hcs, rfl⟩, rfl⟩
    · simp only [List.length_append]
      omega
  | trans _ _ ih₁ ih₂ =>
    obtain ⟨data₁, h₁, hlen₁⟩ := ih₁ hdata
    obtain ⟨data₂, h₂, hlen₂⟩ := ih₂ h₁
    exact ⟨data₂, h₂, hlen₂.trans hlen₁⟩

end Concat

section Loop
variable {ε : Type u} {β ι σ : Type v} {write : ι → Outcome ε (List β)} {s : List β}
  {read : ℕ → Outcome ε (ι × ℕ)} (take : σ → ι → Outcome ε σ)

/-- A loop over what was written item by item folds the items. -/
theorem readLoop_concat
    (hread : ∀ {v b n rest}, write v = .ok b → At s n (b ++ rest) → read n = .ok (v, n + b.length))
    (hpos : ∀ {v b}, write v = .ok b → 0 < b.length) {items : List ι} {data rest : List β}
    {n fuel : ℕ} (hdata : concat (items.map write) = .ok data) (hat : At s n (data ++ rest))
    (hfuel : data.length < fuel) (st : σ) :
    readLoop read take (n + data.length) fuel n st =
      items.foldlM take st >>= fun st => .ok (st, n + data.length) := by
  induction items generalizing data n fuel st with
  | nil =>
    obtain rfl : [] = data := Outcome.ok.inj hdata
    obtain ⟨fuel, rfl⟩ : ∃ k, fuel = k + 1 := ⟨fuel - 1, by simp at hfuel; omega⟩
    simp [readLoop]
  | cons v items ih =>
    obtain ⟨b, bs, hb, hbs, rfl⟩ := concat_cons_eq_ok.mp hdata
    obtain ⟨fuel, rfl⟩ : ∃ k, fuel = k + 1 := ⟨fuel - 1, by omega⟩
    have hb0 := hpos hb
    rw [List.append_assoc] at hat
    simp only [List.length_append] at hfuel ⊢
    rw [readLoop, if_pos (by omega), hread hb hat, ok_bind, List.foldlM_cons, bind_assoc]
    dsimp only
    congr 1
    funext st'
    rw [← Nat.add_assoc]
    exact ih hbs hat.next (by omega) st'

/-- What a loop has folded, if every item that can be read can be written in as many bytes. -/
theorem items_of_readLoop
    (hwrite : ∀ {n v m}, read n = .ok (v, m) → ∃ b, write v = .ok b ∧ n + b.length ≤ m)
    {limit fuel n m : ℕ} {st st' : σ} (h : readLoop read take limit fuel n st = .ok (st', m)) :
    ∃ items data, items.foldlM take st = .ok st' ∧ concat (items.map write) = .ok data ∧
      n + data.length ≤ m ∧ (n < limit → items ≠ []) := by
  induction fuel generalizing n st with
  | zero => exact absurd h nofun
  | succ fuel ih =>
    unfold readLoop at h
    split_ifs at h with hn
    · obtain ⟨⟨v, k⟩, hv, h⟩ := bind_eq_ok.mp h
      obtain ⟨st₁, hst, h⟩ := bind_eq_ok.mp h
      obtain ⟨b, hb, hlen⟩ := hwrite hv
      obtain ⟨items, data, hfold, hdata, hle, -⟩ := ih h
      refine ⟨v :: items, b ++ data, ?_, ?_, ?_, fun _ => List.cons_ne_nil _ _⟩
      · rw [List.foldlM_cons, hst, ok_bind, hfold]
      · exact concat_cons_eq_ok.mpr ⟨b, data, hb, hdata, rfl⟩
      · rw [List.length_append]
        omega
    · obtain ⟨rfl, rfl⟩ := Prod.mk.inj (Outcome.ok.inj h)
      exact ⟨[], [], rfl, rfl, le_rfl, fun h => absurd h hn⟩

/-- Items read one after the other from a position on, until the limit is reached or passed. -/
inductive ReadsUntil (read : ℕ → Outcome ε (ι × ℕ)) (limit : ℕ) : ℕ → List ι → ℕ → Prop
  | stop {n : ℕ} : limit ≤ n → ReadsUntil read limit n [] n
  | next {n m k : ℕ} {x : ι} {xs : List ι} : n < limit → read n = .ok (x, m) →
      ReadsUntil read limit m xs k → ReadsUntil read limit n (x :: xs) k

theorem ReadsUntil.unique {limit n k k' : ℕ} {xs xs' : List ι} (h : ReadsUntil read limit n xs k)
    (h' : ReadsUntil read limit n xs' k') : xs = xs' ∧ k = k' := by
  induction h generalizing xs' k' with
  | stop hstop =>
    cases h' with
    | stop _ => exact ⟨rfl, rfl⟩
    | next hlt _ _ => omega
  | next hlt hx _ ih =>
    cases h' with
    | stop hstop => omega
    | next _ hx' hxs' =>
      obtain ⟨rfl, rfl⟩ := Prod.mk.inj (Outcome.ok.inj (hx.symm.trans hx'))
      obtain ⟨rfl, rfl⟩ := ih hxs'
      exact ⟨rfl, rfl⟩

/-- A loop with enough fuel folds what can be read one after the other. -/
theorem readLoop_eq_ok {bound : ℕ} (hread : ∀ {n x m}, read n = .ok (x, m) → n < m ∧ m ≤ bound)
    {limit fuel n k : ℕ} {st st' : σ} (hn : n ≤ bound) (hfuel : bound < fuel + n) :
    readLoop read take limit fuel n st = .ok (st', k) ↔
      ∃ xs, ReadsUntil read limit n xs k ∧ xs.foldlM take st = .ok st' := by
  induction fuel generalizing n st with
  | zero => omega
  | succ fuel ih =>
    rw [readLoop]
    split_ifs with hlimit
    · rw [bind_eq_ok]
      constructor
      · rintro ⟨⟨x, m⟩, hx, h⟩
        obtain ⟨st₁, hst, h⟩ := bind_eq_ok.mp h
        obtain ⟨hlt, hle⟩ := hread hx
        obtain ⟨xs, hxs, hfold⟩ := (ih hle (by omega)).mp h
        exact ⟨x :: xs, .next hlimit hx hxs, by rw [List.foldlM_cons, hst, ok_bind, hfold]⟩
      · rintro ⟨_, hxs, hfold⟩
        cases hxs with
        | stop hstop => omega
        | @next _ m _ x xs _ hx hxs =>
          rw [List.foldlM_cons] at hfold
          obtain ⟨st₁, hst, hfold⟩ := bind_eq_ok.mp hfold
          obtain ⟨hlt, hle⟩ := hread hx
          have hrest := (ih hle (by omega)).mpr ⟨xs, hxs, hfold⟩
          exact ⟨(x, m), hx, bind_eq_ok.mpr ⟨st₁, hst, hrest⟩⟩
    · constructor
      · intro h
        obtain ⟨rfl, rfl⟩ := Prod.mk.inj (Outcome.ok.inj h)
        exact ⟨[], .stop (not_lt.mp hlimit), rfl⟩
      · rintro ⟨_, hxs, hfold⟩
        cases hxs with
        | stop _ =>
          obtain rfl := Outcome.ok.inj hfold
          rfl
        | next hlt _ _ => exact absurd hlt hlimit

end Loop
end Codec
