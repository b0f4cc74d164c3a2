import Mqtr.Sync.Spinlock

/-! Threads that spin on the lock can always get through: from every state that is reached there is an
order of the operations to come in which every call gets its guard and gives it back. A reader inside
leaves first, then the writer with the latch, then the others one at a time. -/
namespace Mqtr
namespace Spinlock
open Transition

/-- So many atomic operations of one thread, with no other thread in between. -/
def solo : ℕ → UInt32 × Pc → UInt32 × Pc
  | 0, s => s
  | k + 1, s => solo k (s.2.next s.1)

variable {s : State} {w : UInt32} {pc : Pc} {others : List Pc} {i k : ℕ}

theorem run_solo (hi : s.threads[i]? = some pc) :
    run step s (List.replicate k (.advance i)) =
      some ⟨(solo k (s.latchlock, pc)).1, s.threads.set i (solo k (s.latchlock, pc)).2⟩ := by
  induction k generalizing s pc with
  | zero =>
    obtain ⟨hlt, rfl⟩ := List.getElem?_eq_some_iff.mp hi
    simp [run, solo]
  | succ k ih =>
    have hlt := (List.getElem?_eq_some_iff.mp hi).1
    refine run_cons.mpr ⟨⟨(pc.next s.latchlock).1, s.threads.set i (pc.next s.latchlock).2⟩, ?_, ?_⟩
    · simp [step, hi]
    · have hset : (s.threads.set i (pc.next s.latchlock).2)[i]? = some (pc.next s.latchlock).2 :=
        List.getElem?_set_self hlt
      rw [ih hset]
      simp [solo, List.set_set]

theorem Inv.solo (h : Inv w (pc :: others)) (hroom : others.countP Pc.holdsRead < 2 ^ 30 - 1) :
    Inv (solo k (w, pc)).1 ((solo k (w, pc)).2 :: others) := by
  induction k generalizing w pc with
  | zero => exact h
  | succ k ih => exact ih (h.next hroom)

theorem Encodes.eq {readers latches locks : ℕ} {w' : UInt32} (h : Encodes w readers latches locks)
    (h' : Encodes w' readers latches locks) : w = w' :=
  UInt32.toNat_inj.mp (h.1.trans h'.1.symm)

/-- Without readers, the thread with the latch gets the lock and gives it back. -/
theorem solo_of_latch (h : Inv w (pc :: others)) (hpc : pc.holdsLatch = true)
    (hreaders : others.countP Pc.holdsRead = 0) : ∃ k, solo k (w, pc) = (0, .idle) := by
  obtain ⟨hword, hfact, -⟩ := inv_cons.mp h
  rw [hpc] at hword
  obtain ⟨hfree, hlocks⟩ := alone_of_latch hword.2.2.1
  rw [hreaders, hfree, hlocks] at hword
  have hlatched : Encodes latchFlag 0 1 0 := ⟨rfl, by decide, le_rfl, by decide⟩
  have hlocked : Encodes latchLockFlag 0 1 1 := ⟨rfl, by decide, le_rfl, le_rfl⟩
  cases pc with
  | lockLoad =>
    obtain rfl := hword.eq hlatched
    exact ⟨4, by decide⟩
  | lockCas old =>
    obtain rfl := hword.eq hlatched
    obtain ⟨rfl, -⟩ := hfact
    exact ⟨3, by decide⟩
  | writing =>
    obtain rfl := hword.eq hlocked
    exact ⟨2, by decide⟩
  | dropCas old =>
    obtain rfl := hword.eq hlocked
    obtain ⟨rfl, -⟩ := hfact
    exact ⟨1, by decide⟩
  | _ => cases hpc

/-- With nobody inside and no latch, a call runs through. A word that was loaded before may be an old
one, which costs another turn of the loop. -/
theorem solo_of_free (hfact : pc.Fact 0) (hread : pc.holdsRead = false)
    (hlatch : pc.holdsLatch = false) : ∃ k, solo k (0, pc) = (0, .idle) := by
  cases pc with
  | idle => exact ⟨0, rfl⟩
  | readLoad => exact ⟨3, by decide⟩
  | readCas old =>
    by_cases hold : old = 0
    · subst hold
      exact ⟨2, by decide⟩
    · refine ⟨4, ?_⟩
      have hnext : Pc.next 0 (.readCas old) = (0, .readLoad) := if_neg (Ne.symm hold)
      rw [solo, hnext]
      decide
  | latchLoad => exact ⟨6, by decide⟩
  | latchCas old =>
    by_cases hold : old = 0
    · subst hold
      exact ⟨5, by decide⟩
    · refine ⟨7, ?_⟩
      have hnext : Pc.next 0 (.latchCas old) = (0, .latchLoad) := if_neg (Ne.symm hold)
      rw [solo, hnext]
      decide
  | panicked => exact absurd hfact id
  | reading => cases hread
  | _ => cases hlatch

/-- The others of a thread are among all of them. -/
theorem countP_others_le (p : Pc → Bool) (hperm : s.threads.Perm (pc :: others)) :
    others.countP p ≤ s.threads.countP p := by
  rw [hperm.countP_eq]
  exact (List.sublist_cons_self pc others).countP_le

theorem inv_solo (h : s.Inv) (hi : s.threads[i]? = some pc)
    (hroom : ∀ others, s.threads.Perm (pc :: others) → others.countP Pc.holdsRead < 2 ^ 30 - 1)
    (hsolo : solo k (s.latchlock, pc) = (w, .idle)) : State.Inv ⟨w, s.threads.set i .idle⟩ := by
  refine inv_set hi h fun others hperm hinv => ?_
  have hafter := hinv.solo (k := k) (hroom others hperm)
  rwa [hsolo] at hafter

/-- Some thread that is not idle can be brought to its end while the others wait. -/
theorem exists_solo (h : s.Inv) (hsome : ∃ pc ∈ s.threads, pc ≠ .idle) :
    ∃ i pc k w, s.threads[i]? = some pc ∧ pc ≠ .idle ∧ solo k (s.latchlock, pc) = (w, .idle) ∧
      State.Inv ⟨w, s.threads.set i .idle⟩ := by
  by_cases hread : ∃ pc ∈ s.threads, pc.holdsRead = true
  · -- a reader leaves
    obtain ⟨pc, hmem, hpc⟩ := hread
    obtain ⟨i, hi⟩ := List.mem_iff_getElem?.mp hmem
    obtain rfl : pc = .reading := by cases pc <;> first | rfl | cases hpc
    refine ⟨i, _, 1, s.latchlock - 1, hi, by simp, rfl,
      inv_solo (k := 1) h hi (fun others hperm => ?_) rfl⟩
    have hfew := h.word.2.1
    rw [hperm.countP_eq, List.countP_cons_of_pos rfl] at hfew
    omega
  have hnone : s.threads.countP Pc.holdsRead = 0 :=
    List.countP_eq_zero.mpr fun pc hpc hholds => hread ⟨pc, hpc, hholds⟩
  have hroom (pc : Pc) (others : List Pc) (hperm : s.threads.Perm (pc :: others)) :
      others.countP Pc.holdsRead < 2 ^ 30 - 1 := by
    have hle := countP_others_le Pc.holdsRead hperm
    omega
  by_cases hlatch : ∃ pc ∈ s.threads, pc.holdsLatch = true
  · -- the writer with the latch goes through
    obtain ⟨pc, hmem, hpc⟩ := hlatch
    obtain ⟨i, hi⟩ := List.mem_iff_getElem?.mp hmem
    obtain ⟨others, hperm⟩ : ∃ others, s.threads.Perm (pc :: others) :=
      ⟨_, List.perm_cons_erase hmem⟩
    have hothers : others.countP Pc.holdsRead = 0 :=
      Nat.le_zero.mp ((countP_others_le _ hperm).trans_eq hnone)
    obtain ⟨k, hk⟩ := solo_of_latch (h.perm hperm) hpc hothers
    refine ⟨i, pc, k, 0, hi, ?_, hk, inv_solo h hi (hroom pc) hk⟩
    rintro rfl
    cases hpc
  · -- nobody is inside, so the word is zero
    obtain ⟨pc, hmem, hpc⟩ := hsome
    obtain ⟨i, hi⟩ := List.mem_iff_getElem?.mp hmem
    have hfree : s.threads.countP Pc.holdsLatch = 0 :=
      List.countP_eq_zero.mpr fun pc hpc hholds => hlatch ⟨pc, hpc, hholds⟩
    have hlocks := Nat.le_zero.mp (h.word.2.2.2.trans_eq hfree)
    have hword := h.word
    rw [hnone, hfree, hlocks] at hword
    have hzero : s.latchlock = 0 := hword.eq ⟨rfl, by decide, by decide, le_rfl⟩
    have hfact := h.facts pc hmem
    rw [hzero] at hfact
    obtain ⟨k, hk⟩ := solo_of_free hfact
      (by simpa using fun hholds => hread ⟨pc, hmem, hholds⟩)
      (by simpa using fun hholds => hlatch ⟨pc, hmem, hholds⟩)
    rw [← hzero] at hk
    exact ⟨i, pc, k, s.latchlock, hi, hpc, hk, inv_solo h hi (hroom pc) hk⟩

/-- The number of threads that are not idle goes down by one. -/
theorem countP_set_idle (hi : s.threads[i]? = some pc) (hpc : pc ≠ .idle) :
    (s.threads.set i .idle).countP (· ≠ .idle) + 1 = s.threads.countP (· ≠ .idle) := by
  obtain ⟨hlt, rfl⟩ := List.getElem?_eq_some_iff.mp hi
  rw [(List.set_perm_cons_eraseIdx hlt .idle).countP_eq,
    ← (List.getElem_cons_eraseIdx_perm hlt).countP_eq]
  simp [hpc]

theorem inv_release (h : s.Inv) : ∃ es, (∀ e ∈ es, ∃ i, e = .advance i) ∧
    run step s es = some (new s.threads.length) := by
  induction hm : s.threads.countP (· ≠ .idle) generalizing s with
  | zero =>
    have hidle : ∀ pc ∈ s.threads, pc = .idle := by simpa using List.countP_eq_zero.mp hm
    have hthreads := List.eq_replicate_of_mem hidle
    refine ⟨[], by simp, ?_⟩
    have hnone (p : Pc → Bool) (hp : p .idle = false) : s.threads.countP p = 0 :=
      List.countP_eq_zero.mpr fun pc hpc => by simp [hidle pc hpc, hp]
    have hword := h.word
    rw [hnone _ rfl, hnone _ rfl, hnone _ rfl] at hword
    have hzero : s.latchlock = 0 := hword.eq ⟨rfl, by decide, by decide, le_rfl⟩
    obtain ⟨latchlock, threads⟩ := s
    subst hzero
    exact congrArg (fun l => some (State.mk 0 l)) hthreads
  | succ m ih =>
    have hsome : ∃ pc ∈ s.threads, pc ≠ .idle := by
      have hpos : 0 < s.threads.countP (· ≠ .idle) := by omega
      simpa using List.countP_pos_iff.mp hpos
    obtain ⟨i, pc, k, w, hi, hpc, hsolo, hinv⟩ := exists_solo h hsome
    have hcount := countP_set_idle hi hpc
    obtain ⟨es, hes, hr⟩ := ih hinv (by simp only; omega)
    refine ⟨List.replicate k (.advance i) ++ es, ?_, ?_⟩
    · intro e he
      rcases List.mem_append.mp he with he | he
      · exact ⟨i, List.eq_of_mem_replicate he⟩
      · exact hes e he
    · refine run_append.mpr ⟨_, run_solo hi, ?_⟩
      rw [hsolo]
      simpa using hr

/-- Whatever the interleaving so far, with fewer than `2 ^ 30 - 1` readers inside at any time, the operations
to come can be ordered such that every call gets its guard and drops it: the lock never deadlocks, and at
rest its word is zero. -/
theorem released_from_anywhere {n : ℕ} {events : List Event}
    (hroom : Along step FewReaders (new n) events) (hrun : run step (new n) events = some s) :
    ∃ es, (∀ e ∈ es, ∃ i, e = .advance i) ∧ run step s es = some (new s.threads.length) :=
  inv_release (run_invariant_of_along (fun _ _ _ => step_inv) (new_inv n) hroom hrun)

/-- A writer waits with the latch for a reader inside, and another reader waits for the writer. -/
def crowded : List Event :=
  [.read 0, .advance 0, .advance 0, .write 1, .advance 1, .advance 1, .read 2, .advance 2]

theorem released_from_anywhere_crowded : ∃ s es, run step (new 3) crowded = some s ∧
    s.threads = [.reading, .lockLoad, .readLoad] ∧ run step s es = some (new 3) := by
  have hrun : run step (new 3) crowded =
      some ⟨latchFlag + 1, [.reading, .lockLoad, .readLoad]⟩ := by decide
  obtain ⟨es, -, hes⟩ := released_from_anywhere (by decide) hrun
  exact ⟨_, es, hrun, rfl, hes⟩

end Spinlock
end Mqtr
