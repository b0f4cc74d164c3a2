import Mathlib.Data.Nat.Bitwise
import Mqtr.Core.Transition

/-! The read-write spinlock behind which the tries are shared. One word holds the number of readers in
its low bits, a latch that a writer takes first, and a lock that it takes once the readers are gone.
Threads are interleaved at every load, `compare_exchange` and `fetch_sub` of that word. -/
namespace Mqtr
namespace Spinlock

def latchFlag : UInt32 := 0x40000000
def lockFlag : UInt32 := 0x80000000
def latchLockFlag : UInt32 := 0xC0000000
def readersFlag : UInt32 := 0x3FFFFFFF

/-- Where a thread stands. A word is kept that was loaded for the `compare_exchange` to come. -/
inductive Pc where
  | idle
  /-- `read`, at the top of its loop. -/
  | readLoad
  | readCas (old : UInt32)
  /-- A `ReadGuard` is held. -/
  | reading
  /-- `write`, at the top of its first loop. -/
  | latchLoad
  | latchCas (old : UInt32)
  /-- `write`, at the top of its second loop. -/
  | lockLoad
  | lockCas (old : UInt32)
  /-- A `WriteGuard` is held. -/
  | writing
  /-- In the drop of a `WriteGuard`. -/
  | dropCas (old : UInt32)
  | panicked
  deriving DecidableEq, Repr

namespace Pc

def holdsRead : Pc → Bool
  | .reading => true
  | _ => false

def holdsWrite : Pc → Bool
  | .writing | .dropCas _ => true
  | _ => false

/-- The thread has taken the latch. -/
def holdsLatch : Pc → Bool
  | .lockLoad | .lockCas _ | .writing | .dropCas _ => true
  | _ => false

/-- The lock is taken under the latch. -/
theorem holdsLatch_of_holdsWrite {pc : Pc} (h : pc.holdsWrite = true) : pc.holdsLatch = true := by
  cases pc with
  | writing => rfl
  | dropCas => rfl
  | _ => cases h

/-- The next atomic operation of a thread: the word and the place after it. -/
def next (latchlock : UInt32) : Pc → UInt32 × Pc
  | .idle => (latchlock, .idle)
  | .readLoad =>
    if latchlock &&& latchLockFlag = 0 then (latchlock, .readCas latchlock)
    else (latchlock, .readLoad)
  | .readCas old => if latchlock = old then (old + 1, .reading) else (latchlock, .readLoad)
  | .reading => (latchlock - 1, .idle)
  | .latchLoad =>
    if latchlock &&& latchFlag = 0 then
      if latchlock &&& lockFlag ≠ 0 then (latchlock, .panicked) else (latchlock, .latchCas latchlock)
    else (latchlock, .latchLoad)
  | .latchCas old =>
    if latchlock = old then (old ||| latchFlag, .lockLoad) else (latchlock, .latchLoad)
  | .lockLoad =>
    if latchlock &&& readersFlag = 0 then (latchlock, .lockCas latchlock)
    else (latchlock, .lockLoad)
  | .lockCas old =>
    if latchlock = old then (old ||| lockFlag, .writing) else (latchlock, .panicked)
  | .writing =>
    if latchlock &&& readersFlag > 0 then (latchlock, .panicked) else (latchlock, .dropCas latchlock)
  | .dropCas old => if latchlock = old then (0, .idle) else (latchlock, .panicked)
  | .panicked => (latchlock, .panicked)

end Pc

structure State where
  latchlock : UInt32
  threads : List Pc
  deriving DecidableEq, Repr

/-- `Spinlock::new`, with so many threads that may use it. -/
def new (n : ℕ) : State := ⟨0, List.replicate n .idle⟩

inductive Event where
  /-- A thread calls `read`. -/
  | read (i : ℕ)
  /-- A thread calls `write`. -/
  | write (i : ℕ)
  /-- A thread takes its next atomic operation; with a guard in hand, that is the drop. -/
  | advance (i : ℕ)
  deriving DecidableEq, Repr

def call (s : State) (i : ℕ) (pc : Pc) : Option State :=
  match s.threads[i]? with
  | some .idle => some { s with threads := s.threads.set i pc }
  | _ => none

def step (s : State) : Event → Option State
  | .read i => call s i .readLoad
  | .write i => call s i .latchLoad
  | .advance i =>
    s.threads[i]?.map fun pc =>
      ⟨(pc.next s.latchlock).1, s.threads.set i (pc.next s.latchlock).2⟩

/-- There is room for one more reader in the low bits. -/
def FewReaders (s : State) (_ : Event) : Prop := s.threads.countP Pc.holdsRead < 2 ^ 30 - 1

instance (s : State) : DecidablePred (FewReaders s) := fun _ => inferInstanceAs (Decidable (_ < _))

/-- The word for so many readers, latches and locks. -/
def Encodes (w : UInt32) (readers latches locks : ℕ) : Prop :=
  w.toNat = readers + 2 ^ 30 * latches + 2 ^ 31 * locks ∧ readers < 2 ^ 30 ∧ latches ≤ 1 ∧
    locks ≤ latches

namespace Encodes
variable {w : UInt32} {readers latches locks : ℕ}

theorem toNat_readers (h : Encodes w readers latches locks) :
    (w &&& readersFlag).toNat = readers := by
  obtain ⟨hw, hreaders, -, -⟩ := h
  have hmask : (w &&& readersFlag).toNat = w.toNat &&& 2 ^ 30 - 1 := rfl
  rw [hmask, Nat.and_two_pow_sub_one_eq_mod]
  omega

theorem readers_eq_zero (h : Encodes w readers latches locks) :
    w &&& readersFlag = 0 ↔ readers = 0 := by
  rw [← h.toNat_readers, ← UInt32.toNat_inj]
  rfl

/-- A flag of one bit is off exactly if the bit is. -/
theorem and_flag {flag : UInt32} {i : ℕ} (hflag : flag.toNat = 2 ^ i) :
    w &&& flag = 0 ↔ w.toNat / 2 ^ i % 2 = 0 := by
  rw [← UInt32.toNat_inj, UInt32.toNat_and, hflag, Nat.and_two_pow,
    Nat.testBit_eq_decide_div_mod_eq]
  rcases Nat.mod_two_eq_zero_or_one (w.toNat / 2 ^ i) with hbit | hbit <;> simp [hbit]

theorem latch_eq_zero (h : Encodes w readers latches locks) :
    w &&& latchFlag = 0 ↔ latches = 0 := by
  obtain ⟨hw, hreaders, hlatches, hlocks⟩ := h
  rw [and_flag (i := 30) rfl]
  omega

theorem lock_eq_zero (h : Encodes w readers latches locks) : w &&& lockFlag = 0 ↔ locks = 0 := by
  obtain ⟨hw, hreaders, hlatches, hlocks⟩ := h
  rw [and_flag (i := 31) rfl]
  omega

/-- Without a latch there is no lock, and only readers are left. -/
theorem latchLock_eq_zero (h : Encodes w readers latches locks) :
    w &&& latchLockFlag = 0 ↔ latches = 0 := by
  have hsplit : w &&& latchLockFlag = (w &&& latchFlag) ||| (w &&& lockFlag) := by
    have hflags : latchLockFlag = latchFlag ||| lockFlag := by decide
    rw [hflags]
    apply UInt32.toBitVec_inj.mp
    simp [BitVec.and_or_distrib_left]
  rw [hsplit, UInt32.or_eq_zero_iff, h.latch_eq_zero, h.lock_eq_zero]
  have := h.2.2.2
  omega

theorem add_reader (h : Encodes w readers 0 locks) (hroom : readers + 1 < 2 ^ 30) :
    Encodes (w + 1) (readers + 1) 0 0 := by
  obtain ⟨hw, hreaders, -, hlocks⟩ := h
  refine ⟨?_, hroom, by omega, by omega⟩
  rw [UInt32.toNat_add, hw]
  simp
  omega

theorem sub_reader (h : Encodes w (readers + 1) latches locks) :
    Encodes (w - 1) readers latches locks := by
  obtain ⟨hw, hreaders, hlatches, hlocks⟩ := h
  refine ⟨?_, by omega, hlatches, hlocks⟩
  have hone : (1 : UInt32) ≤ w := by
    rw [UInt32.le_iff_toNat_le, hw]
    simp
    omega
  rw [UInt32.toNat_sub_of_le _ _ hone, hw]
  simp
  omega

theorem set_latch (h : Encodes w readers 0 locks) : Encodes (w ||| latchFlag) readers 1 0 := by
  obtain ⟨hw, hreaders, -, hlocks⟩ := h
  refine ⟨?_, hreaders, le_rfl, by omega⟩
  have hor := Nat.two_pow_add_eq_or_of_lt hreaders 1
  have hword : w.toNat = readers := by omega
  have hlatch : latchFlag.toNat = 2 ^ 30 * 1 := rfl
  rw [UInt32.toNat_or, hword, hlatch, Nat.or_comm, ← hor]
  omega

theorem set_lock (h : Encodes w 0 1 0) : Encodes (w ||| lockFlag) 0 1 1 := by
  have hw : w = latchFlag := UInt32.toNat_inj.mp h.1
  subst hw
  exact ⟨rfl, by decide, le_rfl, le_rfl⟩

end Encodes

/-- What a thread may rely on. A word loaded for taking the latch had no latch; while a thread with
the latch has seen that no reader is left, the word does not change. -/
def Pc.Fact (latchlock : UInt32) : Pc → Prop
  | .readCas old => old &&& latchLockFlag = 0
  | .latchCas old => old &&& latchFlag = 0
  | .lockCas old | .dropCas old => latchlock = old ∧ latchlock &&& readersFlag = 0
  | .writing => latchlock &&& readersFlag = 0
  | .panicked => False
  | .idle | .readLoad | .reading | .latchLoad | .lockLoad => True

structure Inv (latchlock : UInt32) (threads : List Pc) : Prop where
  word : Encodes latchlock (threads.countP Pc.holdsRead) (threads.countP Pc.holdsLatch)
    (threads.countP Pc.holdsWrite)
  facts : ∀ pc ∈ threads, pc.Fact latchlock

theorem Inv.perm {w : UInt32} {l l' : List Pc} (h : Inv w l) (hperm : l.Perm l') : Inv w l' where
  word := by
    rw [← hperm.countP_eq, ← hperm.countP_eq, ← hperm.countP_eq]
    exact h.word
  facts pc hpc := h.facts pc (hperm.mem_iff.mpr hpc)

/-- What a thread without the latch relies on does not depend on the word. -/
theorem Pc.Fact.of_not_latch {pc : Pc} {w w' : UInt32} (h : pc.Fact w)
    (hpc : pc.holdsLatch = false) : pc.Fact w' := by
  cases pc <;> first | exact h | cases hpc

section Step
variable {w w' : UInt32} {pc pc' : Pc} {others : List Pc}

theorem inv_cons : Inv w (pc :: others) ↔
    Encodes w (others.countP Pc.holdsRead + pc.holdsRead.toNat)
      (others.countP Pc.holdsLatch + pc.holdsLatch.toNat)
      (others.countP Pc.holdsWrite + pc.holdsWrite.toNat) ∧
    pc.Fact w ∧ ∀ x ∈ others, x.Fact w := by
  have hcons (p : Pc → Bool) : (pc :: others).countP p = others.countP p + (p pc).toNat := by
    rw [List.countP_cons]
    cases p pc <;> rfl
  constructor
  · rintro ⟨hword, hfacts⟩
    rw [hcons, hcons, hcons] at hword
    exact ⟨hword, List.forall_mem_cons.mp hfacts⟩
  · rintro ⟨hword, hfacts⟩
    refine ⟨?_, List.forall_mem_cons.mpr hfacts⟩
    rwa [hcons, hcons, hcons]

/-- A step that leaves the word and the guards as they are. -/
theorem Inv.stutter (h : Inv w (pc :: others)) (hread : pc'.holdsRead = pc.holdsRead)
    (hlatch : pc'.holdsLatch = pc.holdsLatch) (hwrite : pc'.holdsWrite = pc.holdsWrite)
    (hfact : pc'.Fact w) : Inv w (pc' :: others) := by
  obtain ⟨hword, -, hothers⟩ := inv_cons.mp h
  refine inv_cons.mpr ⟨?_, hfact, hothers⟩
  rwa [hread, hlatch, hwrite]

/-- A thread with the latch is the only one that has it. -/
theorem alone_of_latch (hlatch : others.countP Pc.holdsLatch + 1 ≤ 1) :
    others.countP Pc.holdsLatch = 0 ∧ others.countP Pc.holdsWrite = 0 := by
  have hle : others.countP Pc.holdsWrite ≤ others.countP Pc.holdsLatch :=
    List.countP_mono_left fun _ _ => Pc.holdsLatch_of_holdsWrite
  omega

/-- While no other thread has the latch, the word may change. -/
theorem facts_of_free (hfree : others.countP Pc.holdsLatch = 0) (h : ∀ x ∈ others, x.Fact w) :
    ∀ x ∈ others, x.Fact w' := by
  intro x hx
  have hlatch := List.countP_eq_zero.mp hfree x hx
  exact (h x hx).of_not_latch (by simpa using hlatch)

/-- While there is a reader, the number of readers may change: no thread has seen that none is left. -/
theorem facts_of_reader (hsome : w &&& readersFlag ≠ 0) (h : ∀ x ∈ others, x.Fact w) :
    ∀ x ∈ others, x.Fact w' := by
  intro x hx
  have hfact := h x hx
  cases x with
  | lockCas | dropCas => exact absurd hfact.2 hsome
  | writing => exact absurd hfact hsome
  | _ => exact hfact

/-- Each atomic operation keeps the invariant. -/
theorem Inv.next (h : Inv w (pc :: others))
    (hroom : others.countP Pc.holdsRead < 2 ^ 30 - 1) :
    Inv (pc.next w).1 ((pc.next w).2 :: others) := by
  obtain ⟨hword, hfact, hothers⟩ := inv_cons.mp h
  have hle := hword.2.2.2
  cases pc with
  | idle | panicked => exact h
  | readLoad =>
    dsimp only [Pc.next]
    split_ifs with hfree
    · exact h.stutter rfl rfl rfl hfree
    · exact h
  | readCas old =>
    dsimp only [Pc.next]
    split_ifs with heq
    · subst heq
      have hfree : others.countP Pc.holdsLatch = 0 := hword.latchLock_eq_zero.mp hfact
      have hlocks : others.countP Pc.holdsWrite = 0 := Nat.le_zero.mp (hle.trans_eq hfree)
      refine inv_cons.mpr ⟨?_, trivial, facts_of_free hfree hothers⟩
      rw [hfree, hlocks] at hword ⊢
      exact hword.add_reader (show others.countP Pc.holdsRead + 1 < 2 ^ 30 by omega)
    · exact h.stutter rfl rfl rfl trivial
  | reading =>
    have hsome : w &&& readersFlag ≠ 0 := by
      rw [ne_eq, hword.readers_eq_zero]
      exact Nat.succ_ne_zero _
    exact inv_cons.mpr ⟨hword.sub_reader, trivial, facts_of_reader hsome hothers⟩
  | latchLoad =>
    dsimp only [Pc.next]
    split_ifs with hfree hlock
    · rw [hword.latch_eq_zero] at hfree
      rw [ne_eq, hword.lock_eq_zero] at hlock
      omega
    · exact h.stutter rfl rfl rfl hfree
    · exact h
  | latchCas old =>
    dsimp only [Pc.next]
    split_ifs with heq
    · subst heq
      have hfree : others.countP Pc.holdsLatch = 0 := hword.latch_eq_zero.mp hfact
      have hlocks : others.countP Pc.holdsWrite = 0 := Nat.le_zero.mp (hle.trans_eq hfree)
      refine inv_cons.mpr ⟨?_, trivial, facts_of_free hfree hothers⟩
      rw [hfree, hlocks] at hword ⊢
      exact hword.set_latch
    · exact h.stutter rfl rfl rfl trivial
  | lockLoad =>
    dsimp only [Pc.next]
    split_ifs with hnone
    · exact h.stutter rfl rfl rfl ⟨rfl, hnone⟩
    · exact h
  | lockCas old =>
    obtain ⟨rfl, hnone⟩ := hfact
    obtain ⟨hfree, hlocks⟩ := alone_of_latch hword.2.2.1
    have hreaders : others.countP Pc.holdsRead = 0 := hword.readers_eq_zero.mp hnone
    rw [hfree, hlocks, hreaders] at hword
    have hset : Encodes (w ||| lockFlag) 0 1 1 := hword.set_lock
    rw [Pc.next, if_pos rfl]
    refine inv_cons.mpr ⟨?_, hset.readers_eq_zero.mpr rfl, facts_of_free hfree hothers⟩
    rw [hfree, hlocks, hreaders]
    exact hset
  | writing =>
    have hnone : w &&& readersFlag = 0 := hfact
    rw [Pc.next, if_neg (by rw [hnone]; decide)]
    exact h.stutter rfl rfl rfl ⟨rfl, hnone⟩
  | dropCas old =>
    obtain ⟨rfl, hnone⟩ := hfact
    obtain ⟨hfree, hlocks⟩ := alone_of_latch hword.2.2.1
    have hreaders : others.countP Pc.holdsRead = 0 := hword.readers_eq_zero.mp hnone
    rw [Pc.next, if_pos rfl]
    refine inv_cons.mpr ⟨?_, trivial, facts_of_free hfree hothers⟩
    rw [hfree, hlocks, hreaders]
    exact ⟨rfl, by decide, by decide, le_rfl⟩

end Step

variable {s s' : State}

def State.Inv (s : State) : Prop := Spinlock.Inv s.latchlock s.threads

theorem new_inv (n : ℕ) : (new n).Inv where
  word := by
    have hnone (p : Pc → Bool) (hp : p .idle = false) : (List.replicate n Pc.idle).countP p = 0 := by
      simp [List.countP_replicate, hp]
    change Encodes 0 _ _ _
    rw [new, hnone _ rfl, hnone _ rfl, hnone _ rfl]
    exact ⟨rfl, by decide, by decide, le_rfl⟩
  facts pc hpc := by
    obtain rfl := List.eq_of_mem_replicate hpc
    trivial

/-- One thread moves, and the others stay where they are. -/
theorem inv_set {i : ℕ} {pc pc' : Pc} {w' : UInt32} (hi : s.threads[i]? = some pc)
    (h : s.Inv)
    (hmove : ∀ others, s.threads.Perm (pc :: others) → Spinlock.Inv s.latchlock (pc :: others) →
      Spinlock.Inv w' (pc' :: others)) :
    State.Inv ⟨w', s.threads.set i pc'⟩ := by
  obtain ⟨hlt, rfl⟩ := List.getElem?_eq_some_iff.mp hi
  have hsplit := (List.getElem_cons_eraseIdx_perm hlt).symm
  exact (hmove _ hsplit (h.perm hsplit)).perm (List.set_perm_cons_eraseIdx hlt pc').symm

theorem call_inv {i : ℕ} (pc : Pc) (h : s.Inv) (hread : pc.holdsRead = false)
    (hlatch : pc.holdsLatch = false) (hwrite : pc.holdsWrite = false)
    (hfact : pc.Fact s.latchlock) (hs : call s i pc = some s') : s'.Inv := by
  unfold call at hs
  split at hs
  next hi =>
    cases hs
    exact inv_set hi h fun _ _ hinv => hinv.stutter hread hlatch hwrite hfact
  · cases hs

theorem step_inv {e : Event} (h : s.Inv) (hroom : FewReaders s e) (hs : step s e = some s') :
    s'.Inv := by
  cases e with
  | read i => exact call_inv .readLoad h rfl rfl rfl trivial hs
  | write i => exact call_inv .latchLoad h rfl rfl rfl trivial hs
  | advance i =>
    obtain ⟨pc, hi, rfl⟩ := Option.map_eq_some_iff.mp hs
    refine inv_set hi h fun others hperm hinv => hinv.next ?_
    have hle : others.countP Pc.holdsRead ≤ s.threads.countP Pc.holdsRead := by
      rw [hperm.countP_eq]
      exact (List.sublist_cons_self pc others).countP_le
    exact hle.trans_lt hroom

/-- The thread is at a place where it holds a guard. -/
def State.Holds (s : State) (guard : Pc → Bool) (i : ℕ) : Prop :=
  ∃ pc, s.threads[i]? = some pc ∧ guard pc

/-- A thread with a `WriteGuard` is alone: no other thread has one, and no thread has a `ReadGuard`. -/
theorem State.Inv.alone {i : ℕ} (h : s.Inv) (hi : s.Holds Pc.holdsWrite i) :
    (∀ j, ¬ s.Holds Pc.holdsRead j) ∧ ∀ j, s.Holds Pc.holdsWrite j → j = i := by
  obtain ⟨pc, hpc, hwrite⟩ := hi
  have hmem : pc ∈ s.threads := List.mem_of_getElem? hpc
  constructor
  · rintro j ⟨pc', hpc', hread⟩
    have hnone : s.latchlock &&& readersFlag = 0 := by
      have hfact := h.facts pc hmem
      cases pc with
      | writing => exact hfact
      | dropCas => exact hfact.2
      | _ => cases hwrite
    have hzero := List.countP_eq_zero.mp (h.word.readers_eq_zero.mp hnone)
    exact hzero pc' (List.mem_of_getElem? hpc') hread
  · rintro j ⟨pc', hpc', hwrite'⟩
    by_contra hne
    obtain ⟨hlt, rfl⟩ := List.getElem?_eq_some_iff.mp hpc
    have hsplit := inv_cons.mp (h.perm (List.getElem_cons_eraseIdx_perm hlt).symm)
    have hlatch := Pc.holdsLatch_of_holdsWrite hwrite
    have hone := hsplit.1.2.2.1
    rw [hlatch] at hone
    have hzero := List.countP_eq_zero.mp (alone_of_latch hone).2
    exact hzero pc' (List.mem_eraseIdx_iff_getElem?.mpr ⟨j, hne, hpc'⟩) hwrite'

/-- Whatever the interleaving: a `WriteGuard` excludes every other guard, the low bits count the
`ReadGuard`s, the lock comes with the latch, and no thread panics. -/
theorem exclusion {n : ℕ} {events : List Event}
    (hroom : Transition.Along step FewReaders (new n) events)
    (hrun : Transition.run step (new n) events = some s) :
    (∀ i, s.Holds Pc.holdsWrite i →
        (∀ j, ¬ s.Holds Pc.holdsRead j) ∧ ∀ j, s.Holds Pc.holdsWrite j → j = i) ∧
      (s.latchlock &&& readersFlag).toNat = s.threads.countP Pc.holdsRead ∧
      (s.latchlock &&& lockFlag ≠ 0 → s.latchlock &&& latchFlag ≠ 0) ∧
      .panicked ∉ s.threads := by
  have hinv : s.Inv :=
    Transition.run_invariant_of_along (fun _ _ _ => step_inv) (new_inv n) hroom hrun
  refine ⟨fun i => hinv.alone, hinv.word.toNat_readers, ?_, ?_⟩
  · rw [ne_eq, ne_eq, hinv.word.lock_eq_zero, hinv.word.latch_eq_zero]
    have hle := hinv.word.2.2.2
    omega
  · exact fun hpanic => hinv.facts _ hpanic

/-- A reader is inside while a writer takes the latch; the writer gets the lock when it has left. -/
def readerThenWriter : List Event :=
  [.read 0, .advance 0, .advance 0, .write 1, .advance 1, .advance 1, .advance 1, .advance 0,
    .advance 1, .advance 1]

theorem exclusion_readerThenWriter : ∃ s,
    Transition.run step (new 2) readerThenWriter = some s ∧ s.Holds Pc.holdsWrite 1 ∧
      (∀ j, ¬ s.Holds Pc.holdsRead j) ∧ ∀ j, s.Holds Pc.holdsWrite j → j = 1 := by
  have hrun : Transition.run step (new 2) readerThenWriter =
      some ⟨latchLockFlag, [.idle, .writing]⟩ := by decide
  have hholds : State.Holds ⟨latchLockFlag, [.idle, .writing]⟩ Pc.holdsWrite 1 :=
    ⟨.writing, rfl, rfl⟩
  exact ⟨_, hrun, hholds, (exclusion (by decide) hrun).1 1 hholds⟩

end Spinlock
end Mqtr
