import Mqtr.Core.Snapshot
import Mqtr.Sync.Spinlock
import Mqtr.Trie.Shared

/-! The value behind the spinlock, an `Arc` that a call clones under a `ReadGuard` and later replaces
under a `WriteGuard`. The threads are interleaved at every operation on the word of the lock, at the
clone and inside the assignment, so a thread that read the value during an assignment would be seen. -/
namespace Mqtr
namespace Guarded
open Transition

/-- How far a thread is with its call. `snap` is the `Arc` it has cloned. -/
inductive Job (σ ο : Type) where
  | idle
  /-- Before the clone. -/
  | wanted (op : ο)
  /-- With the clone, in the scope of the `ReadGuard`. -/
  | cloned (op : ο) (snap : σ)
  /-- Without a guard. -/
  | computing (op : ο) (snap : σ)
  /-- Before the assignment. -/
  | computed (op : ο) (snap new : σ)
  | assigning (op : ο) (snap new : σ)
  | assigned (op : ο)
  | aborted (op : ο) (snap : σ)

structure Thread (σ ο : Type) where
  pc : Spinlock.Pc
  job : Job σ ο

/-- `value` is nothing in the middle of an assignment, and `raced` tells that it was read there.
`finished` records the calls in the order of their assignments. -/
structure State (σ ο : Type) where
  latchlock : UInt32
  threads : List (Thread σ ο)
  value : Option σ
  raced : Bool
  finished : List ο

inductive Event (ο : Type) where
  | call (i : ℕ) (op : ο)
  | advance (i : ℕ)
  deriving DecidableEq, Repr

variable {σ ο : Type}

def new (n : ℕ) (value : σ) : State σ ο :=
  ⟨0, List.replicate n ⟨.idle, .idle⟩, some value, false, []⟩

/-- The next operation of a thread on the lock. -/
def lockStep (s : State σ ο) (i : ℕ) (t : Thread σ ο) (job : Job σ ο) : State σ ο :=
  { s with
    latchlock := (t.pc.next s.latchlock).1
    threads := s.threads.set i ⟨(t.pc.next s.latchlock).2, job⟩ }

/-- The next operation of a thread. -/
def advance (apply : σ → ο → Option σ) (s : State σ ο) (i : ℕ) (t : Thread σ ο) :
    Option (State σ ο) :=
  match t.job, t.pc with
  | .idle, _ | .aborted _ _, _ => none
  | .wanted op, .reading =>
    match s.value with
    | some value => some { s with threads := s.threads.set i ⟨.reading, .cloned op value⟩ }
    | none => some { s with raced := true }
  | .cloned op snap, .reading => some (lockStep s i t (.computing op snap))
  | .computing op snap, _ =>
    match apply snap op with
    | some new => some { s with threads := s.threads.set i ⟨.latchLoad, .computed op snap new⟩ }
    | none => some { s with threads := s.threads.set i ⟨.idle, .aborted op snap⟩ }
  | .computed op snap new, .writing =>
    some { s with
      value := none
      raced := s.raced || s.value.isNone
      threads := s.threads.set i ⟨.writing, .assigning op snap new⟩ }
  | .assigning op _ new, _ =>
    some { s with
      value := some new
      threads := s.threads.set i ⟨.writing, .assigned op⟩
      finished := s.finished ++ [op] }
  | .assigned _, .dropCas _ => some (lockStep s i t .idle)
  | job, _ => some (lockStep s i t job)

def step (apply : σ → ο → Option σ) (s : State σ ο) : Event ο → Option (State σ ο)
  | .call i op =>
    match s.threads[i]? with
    | some ⟨.idle, .idle⟩ => some { s with threads := s.threads.set i ⟨.readLoad, .wanted op⟩ }
    | _ => none
  | .advance i => s.threads[i]?.bind (advance apply s i)

/-- The places that belong to a stage of a call. -/
def Job.At (pc : Spinlock.Pc) : Job σ ο → Prop
  | .idle | .aborted _ _ | .computing _ _ => pc = .idle
  | .wanted _ => pc = .readLoad ∨ (∃ old, pc = .readCas old) ∨ pc = .reading
  | .cloned _ _ => pc = .reading
  | .computed _ _ _ => pc = .latchLoad ∨ (∃ old, pc = .latchCas old) ∨ pc = .lockLoad ∨
      (∃ old, pc = .lockCas old) ∨ pc = .writing
  | .assigning _ _ _ => pc = .writing
  | .assigned _ => pc = .writing ∨ ∃ old, pc = .dropCas old

/-- The stages in which a thread only works on the lock, with the places where it does. -/
inductive Spins : Thread σ ο → Prop
  | readLoad (op : ο) : Spins ⟨.readLoad, .wanted op⟩
  | readCas (op : ο) (old : UInt32) : Spins ⟨.readCas old, .wanted op⟩
  | latchLoad (op : ο) (snap new : σ) : Spins ⟨.latchLoad, .computed op snap new⟩
  | latchCas (op : ο) (snap new : σ) (old : UInt32) : Spins ⟨.latchCas old, .computed op snap new⟩
  | lockLoad (op : ο) (snap new : σ) : Spins ⟨.lockLoad, .computed op snap new⟩
  | lockCas (op : ο) (snap new : σ) (old : UInt32) : Spins ⟨.lockCas old, .computed op snap new⟩
  | drop (op : ο) : Spins ⟨.writing, .assigned op⟩

/-- The steps, each with the condition under which it is taken. -/
inductive Took (apply : σ → ο → Option σ) (s : State σ ο) : State σ ο → Prop
  | call (i : ℕ) (op : ο) (hi : s.threads[i]? = some ⟨.idle, .idle⟩) :
      Took apply s { s with threads := s.threads.set i ⟨.readLoad, .wanted op⟩ }
  | spin (i : ℕ) (t : Thread σ ο) (hi : s.threads[i]? = some t) (ht : Spins t) :
      Took apply s (lockStep s i t t.job)
  | clone (i : ℕ) (op : ο) (value : σ) (hi : s.threads[i]? = some ⟨.reading, .wanted op⟩)
      (hvalue : s.value = some value) :
      Took apply s { s with threads := s.threads.set i ⟨.reading, .cloned op value⟩ }
  | tornRead (i : ℕ) (op : ο) (hi : s.threads[i]? = some ⟨.reading, .wanted op⟩)
      (hvalue : s.value = none) : Took apply s { s with raced := true }
  | dropRead (i : ℕ) (op : ο) (snap : σ) (hi : s.threads[i]? = some ⟨.reading, .cloned op snap⟩) :
      Took apply s (lockStep s i ⟨.reading, .cloned op snap⟩ (.computing op snap))
  | compute (i : ℕ) (op : ο) (snap new : σ) (hi : s.threads[i]? = some ⟨.idle, .computing op snap⟩)
      (hnew : apply snap op = some new) :
      Took apply s { s with threads := s.threads.set i ⟨.latchLoad, .computed op snap new⟩ }
  | abort (i : ℕ) (op : ο) (snap : σ) (hi : s.threads[i]? = some ⟨.idle, .computing op snap⟩)
      (hnew : apply snap op = none) :
      Took apply s { s with threads := s.threads.set i ⟨.idle, .aborted op snap⟩ }
  | assign (i : ℕ) (op : ο) (snap new : σ)
      (hi : s.threads[i]? = some ⟨.writing, .computed op snap new⟩) :
      Took apply s { s with
        value := none
        raced := s.raced || s.value.isNone
        threads := s.threads.set i ⟨.writing, .assigning op snap new⟩ }
  | assigned (i : ℕ) (op : ο) (snap new : σ)
      (hi : s.threads[i]? = some ⟨.writing, .assigning op snap new⟩) :
      Took apply s { s with
        value := some new
        threads := s.threads.set i ⟨.writing, .assigned op⟩
        finished := s.finished ++ [op] }
  | dropWrite (i : ℕ) (op : ο) (old : UInt32)
      (hi : s.threads[i]? = some ⟨.dropCas old, .assigned op⟩) :
      Took apply s (lockStep s i ⟨.dropCas old, .assigned op⟩ .idle)

section Steps
variable {apply : σ → ο → Option σ} {s s' : State σ ο} {i : ℕ} {t : Thread σ ο}

theorem took_of_advance (hi : s.threads[i]? = some t) (hat : t.job.At t.pc)
    (hs : advance apply s i t = some s') : Took apply s s' := by
  obtain ⟨pc, job⟩ := t
  cases job with
  | idle => cases hs
  | aborted op snap => cases hs
  | wanted op =>
    obtain rfl | ⟨old, rfl⟩ | rfl := hat
    · obtain rfl := Option.some.inj hs
      exact .spin i _ hi (.readLoad op)
    · obtain rfl := Option.some.inj hs
      exact .spin i _ hi (.readCas op old)
    · simp only [advance] at hs
      split at hs
      next value hvalue =>
        obtain rfl := Option.some.inj hs
        exact .clone i op value hi hvalue
      next hvalue =>
        obtain rfl := Option.some.inj hs
        exact .tornRead i op hi hvalue
  | cloned op snap =>
    obtain rfl : pc = .reading := hat
    obtain rfl := Option.some.inj hs
    exact .dropRead i op snap hi
  | computing op snap =>
    obtain rfl : pc = .idle := hat
    simp only [advance] at hs
    split at hs
    next new hnew =>
      obtain rfl := Option.some.inj hs
      exact .compute i op snap new hi hnew
    next hnew =>
      obtain rfl := Option.some.inj hs
      exact .abort i op snap hi hnew
  | computed op snap new =>
    obtain rfl | ⟨old, rfl⟩ | rfl | ⟨old, rfl⟩ | rfl := hat
    all_goals obtain rfl := Option.some.inj hs
    · exact .spin i _ hi (.latchLoad op snap new)
    · exact .spin i _ hi (.latchCas op snap new old)
    · exact .spin i _ hi (.lockLoad op snap new)
    · exact .spin i _ hi (.lockCas op snap new old)
    · exact .assign i op snap new hi
  | assigning op snap new =>
    obtain rfl : pc = .writing := hat
    obtain rfl := Option.some.inj hs
    exact .assigned i op snap new hi
  | assigned op =>
    obtain rfl | ⟨old, rfl⟩ := hat
    · obtain rfl := Option.some.inj hs
      exact .spin i _ hi (.drop op)
    · obtain rfl := Option.some.inj hs
      exact .dropWrite i op old hi

theorem took_of_step {e : Event ο} (hat : ∀ t ∈ s.threads, t.job.At t.pc)
    (hs : step apply s e = some s') : Took apply s s' := by
  cases e with
  | call i op =>
    simp only [step] at hs
    split at hs
    next hi =>
      obtain rfl := Option.some.inj hs
      exact .call i op hi
    next => cases hs
  | advance i =>
    obtain ⟨t, hi, hs⟩ := Option.bind_eq_some_iff.mp hs
    exact took_of_advance hi (hat t (List.mem_of_getElem? hi)) hs

end Steps

/-- The lock alone. -/
def State.lock (s : State σ ο) : Spinlock.State := ⟨s.latchlock, s.threads.map Thread.pc⟩

/-- What is about to be assigned was computed from the clone. -/
def Job.Sound (apply : σ → ο → Option σ) : Job σ ο → Prop
  | .computed op snap new | .assigning op snap new => apply snap op = some new
  | _ => True

structure Thread.Ok (apply : σ → ο → Option σ) (t : Thread σ ο) : Prop where
  place : t.job.At t.pc
  sound : t.job.Sound apply

/-- In the middle of an assignment the value is nothing, and some thread is there. -/
def State.Torn (s : State σ ο) : Prop :=
  s.value = none → ∃ (i : ℕ) (op : ο) (snap new : σ),
    s.threads[i]? = some ⟨.writing, .assigning op snap new⟩

structure Safe (apply : σ → ο → Option σ) (s : State σ ο) : Prop where
  lock : s.lock.Inv
  few : s.threads.length < 2 ^ 30 - 1
  threads : ∀ t ∈ s.threads, t.Ok apply
  torn : s.Torn
  calm : s.raced = false

section Lock
variable {apply : σ → ο → Option σ} {s s' : State σ ο} {i : ℕ} {t : Thread σ ο}

theorem lock_getElem? (hi : s.threads[i]? = some t) : s.lock.threads[i]? = some t.pc := by
  simp [State.lock, hi]

/-- A change of the job alone is none of the lock's business. -/
theorem map_pc_setJob (hi : s.threads[i]? = some t) (job : Job σ ο) :
    (s.threads.set i ⟨t.pc, job⟩).map Thread.pc = s.threads.map Thread.pc := by
  obtain ⟨hlt, rfl⟩ := List.getElem?_eq_some_iff.mp hi
  rw [List.map_set]
  refine List.ext_getElem (by simp) fun j _ _ => ?_
  rw [List.getElem_set]
  split
  next hj => simp [hj]
  next => rfl

theorem lock_lockStep (hi : s.threads[i]? = some t) (job : Job σ ο) :
    Spinlock.step s.lock (.advance i) = some (lockStep s i t job).lock := by
  simp [Spinlock.step, hi, State.lock, lockStep, List.map_set]

/-- A step of the code is a step of the lock, or nothing there. -/
theorem Took.lock (h : Took apply s s') :
    s'.lock = s.lock ∨ ∃ e, Spinlock.step s.lock e = some s'.lock := by
  cases h with
  | call i op hi =>
    refine .inr ⟨.read i, ?_⟩
    simp [Spinlock.step, Spinlock.call, hi, State.lock, List.map_set]
  | spin i t hi ht => exact .inr ⟨_, lock_lockStep hi _⟩
  | clone i op value hi hvalue => exact .inl (congrArg (Spinlock.State.mk _) (map_pc_setJob hi _))
  | tornRead i op hi hvalue => exact .inl rfl
  | dropRead i op snap hi => exact .inr ⟨_, lock_lockStep hi _⟩
  | compute i op snap new hi hnew =>
    refine .inr ⟨.write i, ?_⟩
    simp [Spinlock.step, Spinlock.call, hi, State.lock, List.map_set]
  | abort i op snap hi hnew => exact .inl (congrArg (Spinlock.State.mk _) (map_pc_setJob hi _))
  | assign i op snap new hi => exact .inl (congrArg (Spinlock.State.mk _) (map_pc_setJob hi _))
  | assigned i op snap new hi => exact .inl (congrArg (Spinlock.State.mk _) (map_pc_setJob hi _))
  | dropWrite i op old hi => exact .inr ⟨_, lock_lockStep hi _⟩

theorem Safe.lock_step (h : Safe apply s) (hs : Took apply s s') : s'.lock.Inv := by
  obtain hlock | ⟨e, hlock⟩ := hs.lock
  · rw [hlock]
    exact h.lock
  · refine Spinlock.step_inv h.lock ?_ hlock
    have hle : s.lock.threads.countP Spinlock.Pc.holdsRead ≤ s.threads.length := by
      simpa [State.lock] using s.lock.threads.countP_le_length
    exact hle.trans_lt h.few

/-- What every thread meets, and the one that has moved still meets, every thread meets. -/
theorem forall_set {P : Thread σ ο → Prop} {l : List (Thread σ ο)} (h : ∀ t ∈ l, P t) (ht : P t) :
    ∀ u ∈ l.set i t, P u := by
  intro u hu
  rcases List.mem_or_eq_of_mem_set hu with hu | rfl
  · exact h u hu
  · exact ht

/-- A thread that works on the lock stays at the places of its stage, unless it panics. -/
theorem Spins.place {w : UInt32} (h : Spins t) (hcalm : (t.pc.next w).2 ≠ .panicked) :
    t.job.At (t.pc.next w).2 := by
  cases h with
  | readLoad op | readCas op old | latchLoad op snap new | latchCas op snap new old
  | lockLoad op snap new | lockCas op snap new old | drop op =>
    simp only [Spinlock.Pc.next, Job.At] at hcalm ⊢
    split_ifs at hcalm ⊢ <;> simp_all

theorem lockStep_place {job : Job σ ο} (hinv : (lockStep s i t job).lock.Inv)
    (hi : s.threads[i]? = some t) : (t.pc.next s.latchlock).2 ≠ .panicked := by
  intro hpanic
  have hlt := (List.getElem?_eq_some_iff.mp hi).1
  have hmem : Spinlock.Pc.panicked ∈ (lockStep s i t job).lock.threads := by
    refine List.mem_map.mpr ⟨⟨_, job⟩, List.mem_set hlt _, hpanic⟩
  exact hinv.facts _ hmem

theorem Safe.threads_step (h : Safe apply s) (hs : Took apply s s') :
    ∀ t ∈ s'.threads, t.Ok apply := by
  have hinv := h.lock_step hs
  cases hs with
  | call i op hi => exact forall_set h.threads ⟨.inl rfl, trivial⟩
  | spin i t hi ht =>
    have hok := h.threads t (List.mem_of_getElem? hi)
    exact forall_set h.threads ⟨ht.place (lockStep_place hinv hi), hok.sound⟩
  | clone i op value hi hvalue => exact forall_set h.threads ⟨rfl, trivial⟩
  | tornRead i op hi hvalue => exact h.threads
  | dropRead i op snap hi => exact forall_set h.threads ⟨rfl, trivial⟩
  | compute i op snap new hi hnew => exact forall_set h.threads ⟨.inl rfl, hnew⟩
  | abort i op snap hi hnew => exact forall_set h.threads ⟨rfl, trivial⟩
  | assign i op snap new hi =>
    exact forall_set h.threads ⟨rfl, (h.threads _ (List.mem_of_getElem? hi)).sound⟩
  | assigned i op snap new hi => exact forall_set h.threads ⟨.inl rfl, trivial⟩
  | dropWrite i op old hi =>
    refine forall_set h.threads ⟨?_, trivial⟩
    have hcalm := lockStep_place hinv hi
    simp only [Spinlock.Pc.next, Job.At] at hcalm ⊢
    split_ifs at hcalm ⊢
    · rfl
    · exact absurd rfl hcalm

/-- The thread that is assigning is not the one that takes a step, so it stays there. -/
theorem State.Torn.set (h : s.Torn) (hi : s.threads[i]? = some t)
    (ht : ∀ op snap new, t.job ≠ .assigning op snap new) (u : Thread σ ο) (hnone : s.value = none) :
    ∃ (j : ℕ) (op : ο) (snap new : σ),
      (s.threads.set i u)[j]? = some ⟨.writing, .assigning op snap new⟩ := by
  obtain ⟨j, op, snap, new, hj⟩ := h hnone
  have hne : i ≠ j := by
    rintro rfl
    rw [hi] at hj
    exact ht op snap new (congrArg Thread.job (Option.some.inj hj))
  exact ⟨j, op, snap, new, by rw [List.getElem?_set_ne hne]; exact hj⟩

theorem Safe.torn_step (h : Safe apply s) (hs : Took apply s s') : s'.Torn := by
  cases hs with
  | call i op hi => exact h.torn.set hi (by simp) _
  | spin i t hi ht =>
    refine h.torn.set hi ?_ _
    cases ht <;> simp
  | clone i op value hi hvalue => exact h.torn.set hi (by simp) _
  | tornRead i op hi hvalue => exact h.torn
  | dropRead i op snap hi => exact h.torn.set hi (by simp) _
  | compute i op snap new hi hnew => exact h.torn.set hi (by simp) _
  | abort i op snap hi hnew => exact h.torn.set hi (by simp) _
  | assign i op snap new hi =>
    have hlt := (List.getElem?_eq_some_iff.mp hi).1
    exact fun _ => ⟨i, op, snap, new, List.getElem?_set_self hlt⟩
  | assigned i op snap new hi => exact fun hnone => by simp at hnone
  | dropWrite i op old hi => exact h.torn.set hi (by simp) _

/-- During an assignment no other thread has a guard. -/
theorem Safe.alone (h : Safe apply s) (hnone : s.value = none) :
    ∃ (i : ℕ) (op : ο) (snap new : σ),
      s.threads[i]? = some ⟨.writing, .assigning op snap new⟩ ∧
        (∀ j, ¬ s.lock.Holds Spinlock.Pc.holdsRead j) ∧
        ∀ j, s.lock.Holds Spinlock.Pc.holdsWrite j → j = i := by
  obtain ⟨i, op, snap, new, hi⟩ := h.torn hnone
  exact ⟨i, op, snap, new, hi, h.lock.alone ⟨.writing, lock_getElem? hi, rfl⟩⟩

theorem Safe.calm_step (h : Safe apply s) (hs : Took apply s s') : s'.raced = false := by
  cases hs with
  | tornRead i op hi hvalue =>
    obtain ⟨j, -, -, -, -, hread, -⟩ := h.alone hvalue
    exact absurd ⟨.reading, lock_getElem? hi, rfl⟩ (hread i)
  | assign i op snap new hi =>
    cases hvalue : s.value with
    | some value => simpa [hvalue] using h.calm
    | none =>
      obtain ⟨j, op', snap', new', hj, -, hwrite⟩ := h.alone hvalue
      obtain rfl := hwrite i ⟨.writing, lock_getElem? hi, rfl⟩
      rw [hi] at hj
      cases hj
  | _ => exact h.calm

theorem Safe.step {e : Event ο} (h : Safe apply s) (hs : step apply s e = some s') :
    Safe apply s' := by
  have htook := took_of_step (fun t ht => (h.threads t ht).place) hs
  refine ⟨h.lock_step htook, ?_, h.threads_step htook, h.torn_step htook, h.calm_step htook⟩
  cases htook <;> simpa [lockStep] using h.few

theorem new_safe {n : ℕ} (hn : n < 2 ^ 30 - 1) (value : σ) : Safe apply (new n value) where
  lock := by simpa [State.lock, new, Spinlock.new] using Spinlock.new_inv n
  few := by simpa [new] using hn
  threads t ht := by
    obtain rfl := List.eq_of_mem_replicate ht
    exact ⟨rfl, trivial⟩
  torn hnone := by simp [new] at hnone
  calm := rfl

end Lock

/-- What a call that has cloned the value, and has not replaced it yet, was started with. -/
def Job.inFlight : Job σ ο → Option (ο × σ)
  | .cloned op snap | .computing op snap | .computed op snap _ | .assigning op snap _
  | .aborted op snap => some (op, snap)
  | .idle | .wanted _ | .assigned _ => none

structure Sim (s : State σ ο) (c : Snapshot.Cell σ ο) : Prop where
  current : ∀ value, s.value = some value → c.current = value
  inFlight : c.inFlight.Perm (s.threads.filterMap fun t => t.job.inFlight)
  finished : c.finished = s.finished

section Sim
variable {apply : σ → ο → Option σ} {s s' : State σ ο} {c : Snapshot.Cell σ ο} {i : ℕ}
  {t u : Thread σ ο}

/-- One thread moves; what the others have in flight stays. -/
theorem inFlight_set (hi : s.threads[i]? = some t) : ∃ rest : List (ο × σ),
    (s.threads.filterMap fun t => t.job.inFlight).Perm (t.job.inFlight.toList ++ rest) ∧
    ∀ u : Thread σ ο, ((s.threads.set i u).filterMap fun t => t.job.inFlight).Perm
      (u.job.inFlight.toList ++ rest) := by
  obtain ⟨hlt, rfl⟩ := List.getElem?_eq_some_iff.mp hi
  have hcons (u : Thread σ ο) : ((u :: s.threads.eraseIdx i).filterMap fun t => t.job.inFlight) =
      u.job.inFlight.toList ++ (s.threads.eraseIdx i).filterMap fun t => t.job.inFlight := by
    cases hu : u.job.inFlight <;> simp [hu]
  refine ⟨(s.threads.eraseIdx i).filterMap fun t => t.job.inFlight, ?_, fun u => ?_⟩
  · rw [← hcons]
    exact (List.getElem_cons_eraseIdx_perm hlt).symm.filterMap _
  · rw [← hcons]
    exact (List.set_perm_cons_eraseIdx hlt u).filterMap _

/-- A step that neither clones nor replaces the value is nothing to the cell. -/
theorem Sim.stutter (h : Sim s c) (hi : s.threads[i]? = some t)
    (hu : u.job.inFlight = t.job.inFlight) (latchlock : UInt32) {value : Option σ}
    (hvalue : ∀ v, value = some v → s.value = some v) (raced : Bool) :
    Sim ⟨latchlock, s.threads.set i u, value, raced, s.finished⟩ c := by
  obtain ⟨rest, hold, hnew⟩ := inFlight_set hi
  refine ⟨fun v hv => h.current v (hvalue v hv), h.inFlight.trans (hold.trans ?_), h.finished⟩
  rw [← hu]
  exact (hnew u).symm

theorem Sim.clone {op : ο} {value : σ} (h : Sim s c)
    (hi : s.threads[i]? = some ⟨.reading, .wanted op⟩) (hvalue : s.value = some value) :
    Sim { s with threads := s.threads.set i ⟨.reading, .cloned op value⟩ }
      { c with inFlight := c.inFlight ++ [(op, c.current)] } := by
  obtain ⟨rest, hold, hnew⟩ := inFlight_set hi
  refine ⟨h.current, ?_, h.finished⟩
  have hrest : c.inFlight.Perm rest := h.inFlight.trans hold
  have hcons := (hnew ⟨.reading, .cloned op value⟩).symm
  rw [h.current value hvalue]
  exact ((hrest.append_right _).trans List.perm_append_comm).trans hcons

theorem Sim.assigned {op : ο} {snap new : σ} (h : Sim s c)
    (hi : s.threads[i]? = some ⟨.writing, .assigning op snap new⟩) (hnew : apply snap op = some new) :
    ∃ k c', Snapshot.step apply c (.write k) = some c' ∧
      Sim { s with
        value := some new
        threads := s.threads.set i ⟨.writing, .assigned op⟩
        finished := s.finished ++ [op] } c' := by
  obtain ⟨rest, hold, hset⟩ := inFlight_set hi
  have hperm : c.inFlight.Perm ((op, snap) :: rest) := h.inFlight.trans hold
  obtain ⟨k, hk⟩ := List.mem_iff_getElem?.mp (hperm.mem_iff.mpr List.mem_cons_self)
  refine ⟨k, _, Snapshot.step_write_eq_some.mpr ⟨_, _, hk, hnew, rfl⟩, ?_, ?_, ?_⟩
  · intro v hv
    exact Option.some.inj hv
  · obtain ⟨hlt, hget⟩ := List.getElem?_eq_some_iff.mp hk
    have herase : ((op, snap) :: c.inFlight.eraseIdx k).Perm c.inFlight := by
      rw [← hget]
      exact List.getElem_cons_eraseIdx_perm hlt
    exact ((herase.trans hperm).cons_inv).trans (hset ⟨.writing, .assigned op⟩).symm
  · exact congrArg (· ++ [op]) h.finished

/-- A step of the threads is a step of the cell, or nothing there. -/
theorem Sim.step (h : Sim s c) (hsafe : Safe apply s) (hs : Took apply s s') :
    ∃ c', (c' = c ∨ ∃ e, Snapshot.step apply c e = some c') ∧ Sim s' c' := by
  cases hs with
  | call i op hi => exact ⟨c, .inl rfl, h.stutter hi (by rfl) _ (fun _ => id) _⟩
  | spin i t hi ht => exact ⟨c, .inl rfl, h.stutter hi (by rfl) _ (fun _ => id) _⟩
  | clone i op value hi hvalue => exact ⟨_, .inr ⟨.read op, rfl⟩, h.clone hi hvalue⟩
  | tornRead i op hi hvalue => exact ⟨c, .inl rfl, ⟨h.current, h.inFlight, h.finished⟩⟩
  | dropRead i op snap hi => exact ⟨c, .inl rfl, h.stutter hi (by rfl) _ (fun _ => id) _⟩
  | compute i op snap new hi hnew => exact ⟨c, .inl rfl, h.stutter hi (by rfl) _ (fun _ => id) _⟩
  | abort i op snap hi hnew => exact ⟨c, .inl rfl, h.stutter hi (by rfl) _ (fun _ => id) _⟩
  | assign i op snap new hi => exact ⟨c, .inl rfl, h.stutter hi (by rfl) _ (by simp) _⟩
  | assigned i op snap new hi =>
    have hnew := (hsafe.threads _ (List.mem_of_getElem? hi)).sound
    obtain ⟨k, c', hc', hsim⟩ := h.assigned hi hnew
    exact ⟨c', .inr ⟨_, hc'⟩, hsim⟩
  | dropWrite i op old hi => exact ⟨c, .inl rfl, h.stutter hi (by rfl) _ (fun _ => id) _⟩

theorem new_sim (n : ℕ) (value : σ) : Sim (new n value) (Snapshot.init value : Snapshot.Cell σ ο) where
  current v hv := Option.some.inj hv
  inFlight := by simp [new, Snapshot.init, Job.inFlight]
  finished := rfl

theorem run_safe {n : ℕ} (hn : n < 2 ^ 30 - 1) {value : σ} {es : List (Event ο)}
    (hr : run (Guarded.step apply) (new n value) es = some s) :
    Safe apply s ∧ ∃ events c, run (Snapshot.step apply) (Snapshot.init value) events = some c ∧
      Sim s c := by
  refine run_invariant (P := fun s => Safe apply s ∧ ∃ events c,
    run (Snapshot.step apply) (Snapshot.init value) events = some c ∧ Sim s c) ?_
    ⟨new_safe hn value, [], _, rfl, new_sim n value⟩ hr
  rintro s e s' ⟨hsafe, events, c, hc, hsim⟩ hs
  refine ⟨hsafe.step hs, ?_⟩
  have htook := took_of_step (fun t ht => (hsafe.threads t ht).place) hs
  obtain ⟨c', rfl | ⟨e', he'⟩, hsim'⟩ := hsim.step hsafe htook
  · exact ⟨events, c', hc, hsim'⟩
  · exact ⟨events ++ [e'], c', run_append.mpr ⟨c, hc, run_cons.mpr ⟨c', he', rfl⟩⟩, hsim'⟩

end Sim

/-- Calls on a shared trie from fewer than `2 ^ 30 - 1` threads, interleaved inside the lock and inside the
assignment, do to the trie what the same calls do with one atomic read and one atomic write each. No
thread sees a trie that is being replaced. -/
theorem trie_calls_atomic {V : Type} [Ord V] [BEq V] {n : ℕ} (hn : n < 2 ^ 30 - 1) {inner : Inner V}
    {es : List (Event (TrieOp V))} {s : State (Inner V) (TrieOp V)}
    (hr : run (step TrieOp.apply) (new n inner) es = some s) :
    s.raced = false ∧ s.Torn ∧
      ∃ events c, run (Snapshot.step TrieOp.apply) (Snapshot.init inner) events = some c ∧
        c.finished = s.finished ∧
        c.inFlight.Perm (s.threads.filterMap fun t => t.job.inFlight) ∧
        ∀ value, s.value = some value → c.current = value := by
  obtain ⟨hsafe, events, c, hc, hsim⟩ := run_safe hn hr
  exact ⟨hsafe.calm, hsafe.torn, events, c, hc, hsim.finished, hsim.inFlight, hsim.current⟩

/-- Two threads clone the empty trie; the second waits for the latch while the first assigns. -/
def twoThreads : List (Event (TrieOp Subscription)) :=
  [.call 0 (.subscribe ["a"] (plainSubscription "c" "a")),
    .call 1 (.subscribe ["b"] (plainSubscription "d" "b"))] ++
    [0, 0, 0, 1, 1, 1, 0, 1, 0, 0, 1, 1, 0, 1, 1, 0, 0, 0, 1, 0, 0, 0, 1, 1, 1, 1, 1, 1, 1, 1].map
      .advance

theorem trie_calls_atomic_twoThreads : ∃ s, run (step TrieOp.apply) (new 2 Inner.default) twoThreads =
      some s ∧ s.finished.length = 2 ∧ s.raced = false ∧
    ∃ events c, run SharedTrie.step (Snapshot.init Inner.default) events = some c ∧
      c.finished = s.finished ∧ ∀ value, s.value = some value → c.current = value := by
  have hrun : (run (step TrieOp.apply) (new 2 Inner.default) twoThreads).map
      (fun s => s.finished.length) = some 2 := by rfl
  obtain ⟨s, hr, hs⟩ := Option.map_eq_some_iff.mp hrun
  obtain ⟨hcalm, -, events, c, hc, hfinished, -, hcurrent⟩ := trie_calls_atomic (by decide) hr
  exact ⟨s, hr, hs, hcalm, events, c, hc, hfinished, hcurrent⟩

end Guarded
end Mqtr
