import Mqtr.Core.Transition

/-! The differential timer: a list of values, each with the seconds between it and the value before
it. Time is counted in whole seconds. -/
namespace Mqtr

/-- `Titem::Timeout`. The other two variants, `Head` and `Sentinel`, are the ends of the list. -/
structure Titem (T : Type) where
  delta : UInt32
  value : T
  deriving DecidableEq, Repr

structure Timer (T : Type) where
  instant : ℕ
  items : List (Titem T)
  deriving DecidableEq, Repr

namespace Timer
variable {T : Type}

/-- `Timer::default`, at a time. -/
def default (now : ℕ) : Timer T := ⟨now, []⟩

/-- `instant.elapsed().as_secs() as u32`. -/
def elapsed (self : Timer T) (now : ℕ) : UInt32 := UInt32.ofNat (now - self.instant)

/-- The loop of `expired`. The seconds stay the same from item to item; what they leave of the first
item that is not taken becomes its delta. -/
def expireItems (isDeleted : T → Bool) (secs : UInt32) : List (Titem T) → List T × List (Titem T)
  | [] => ([], [])
  | item :: next =>
    if secs < item.delta then ([], { item with delta := item.delta - secs } :: next)
    else
      let (expired, left) := expireItems isDeleted secs next
      if isDeleted item.value then (expired, left) else (item.value :: expired, left)

def expired (self : Timer T) (isDeleted : T → Bool) (now : ℕ) : List T × Timer T :=
  let secs := self.elapsed now
  let (expired, left) := expireItems isDeleted secs self.items
  (expired, ⟨self.instant + secs.toNat, left⟩)

/-- The loop of `add_timeout`. -/
def insertItem (ndelta : UInt32) (value : T) : List (Titem T) → List (Titem T)
  | [] => [⟨ndelta, value⟩]
  | item :: next =>
    if ndelta < item.delta then
      ⟨ndelta, value⟩ :: { item with delta := item.delta - ndelta } :: next
    else item :: insertItem (ndelta - item.delta) value next

def addTimeout (self : Timer T) (now : ℕ) (secs : UInt32) (value : T) : Timer T :=
  let elapsed := self.elapsed now
  let ndelta := if elapsed ≤ secs then secs - elapsed else 0
  { self with items := insertItem ndelta value self.items }

/-- What `prev` of the loop of `gc` is: the head, or an item that was kept. -/
inductive Prev where
  | head
  | timeout
  deriving DecidableEq, Repr

/-- The loop of `gc`. A deleted item goes with its delta. At a kept item `prev` moves to the item
after it, and a `prev` that is the head is not expected there. -/
def gcItems (isDeleted : T → Bool) : Prev → List (Titem T) → Option (List (Titem T))
  | _, [] => some []
  | prev, item :: next =>
    if isDeleted item.value then gcItems isDeleted prev next
    else
      match prev with
      | .head => none
      | .timeout => (gcItems isDeleted .timeout next).map (item :: ·)

def gc (self : Timer T) (isDeleted : T → Bool) : Option (Timer T) :=
  (gcItems isDeleted .head self.items).map fun items => { self with items := items }

/-- The items' deadlines, for deltas that count from a base. -/
def deadlinesFrom : ℕ → List (Titem T) → List (ℕ × T)
  | _, [] => []
  | base, item :: next =>
    (base + item.delta.toNat, item.value) :: deadlinesFrom (base + item.delta.toNat) next

/-- The values with their absolute deadlines. -/
def deadlines (self : Timer T) : List (ℕ × T) := deadlinesFrom self.instant self.items

theorem le_of_mem_deadlinesFrom {base : ℕ} {items : List (Titem T)} {p : ℕ × T}
    (h : p ∈ deadlinesFrom base items) : base ≤ p.1 := by
  induction items generalizing base with
  | nil => simp [deadlinesFrom] at h
  | cons item next ih =>
    rcases List.mem_cons.mp h with rfl | h
    · exact Nat.le_add_right ..
    · exact (Nat.le_add_right ..).trans (ih h)

theorem deadlinesFrom_pairwise (base : ℕ) (items : List (Titem T)) :
    (deadlinesFrom base items).Pairwise fun p q => p.1 ≤ q.1 := by
  induction items generalizing base with
  | nil => exact .nil
  | cons item next ih => exact .cons (fun p hp => le_of_mem_deadlinesFrom hp) (ih _)

/-- The loop of `add_timeout` inserts into the ordered list of the deadlines, behind equal ones. -/
theorem deadlinesFrom_insertItem (base : ℕ) (ndelta : UInt32) (value : T)
    (items : List (Titem T)) :
    deadlinesFrom base (insertItem ndelta value items) =
      (deadlinesFrom base items).orderedInsert (fun p q => p.1 < q.1)
        (base + ndelta.toNat, value) := by
  induction items generalizing base ndelta with
  | nil => rfl
  | cons item next ih =>
    have horder : base + ndelta.toNat < base + item.delta.toNat ↔ ndelta < item.delta := by
      rw [Nat.add_lt_add_iff_left, UInt32.lt_iff_toNat_lt]
    simp only [insertItem, deadlinesFrom, List.orderedInsert, horder]
    split_ifs with hlt
    · have hsub : (item.delta - ndelta).toNat = item.delta.toNat - ndelta.toNat :=
        UInt32.toNat_sub_of_le _ _ (UInt32.le_of_lt hlt)
      have hlt' : ndelta.toNat < item.delta.toNat := UInt32.lt_iff_toNat_lt.mp hlt
      have hbase : base + ndelta.toNat + (item.delta - ndelta).toNat = base + item.delta.toNat := by
        omega
      simp only [deadlinesFrom, hbase]
    · have hle : item.delta ≤ ndelta := UInt32.not_lt.mp hlt
      have hsub : (ndelta - item.delta).toNat = ndelta.toNat - item.delta.toNat :=
        UInt32.toNat_sub_of_le _ _ hle
      have hle' : item.delta.toNat ≤ ndelta.toNat := UInt32.le_iff_toNat_le.mp hle
      have hbase : base + item.delta.toNat + (ndelta - item.delta).toNat = base + ndelta.toNat := by
        omega
      rw [deadlinesFrom, ih, hbase]

theorem elapsed_toNat {self : Timer T} {now : ℕ} (h : now - self.instant < 2 ^ 32) :
    (self.elapsed now).toNat = now - self.instant :=
  UInt32.toNat_ofNat_of_lt' h

/-- An addition puts the value at the seconds that the elapsed ones leave of its own, after the
timer's instant, and moves no other deadline. -/
theorem deadlines_addTimeout (self : Timer T) (now : ℕ) (secs : UInt32) (value : T)
    (h : now - self.instant < 2 ^ 32) :
    (self.addTimeout now secs value).deadlines.Perm
      ((self.instant + (secs.toNat - (now - self.instant)), value) :: self.deadlines) := by
  have hdelta : (if self.elapsed now ≤ secs then secs - self.elapsed now else 0).toNat =
      secs.toNat - (now - self.instant) := by
    rw [← elapsed_toNat h]
    split_ifs with hle
    · exact UInt32.toNat_sub_of_le _ _ hle
    · have hlt := UInt32.lt_iff_toNat_lt.mp (UInt32.not_le.mp hle)
      exact (Nat.sub_eq_zero_of_le hlt.le).symm
  rw [← hdelta, deadlines, addTimeout, deadlinesFrom_insertItem]
  exact List.perm_orderedInsert _ _ _

/-- The value comes to lie at the time of the addition plus its seconds exactly if no full second
has passed since the timer's instant. -/
theorem deadline_addTimeout_iff (self : Timer T) (e : ℕ) (secs : UInt32) (value : T)
    (h : e + secs.toNat ≤ 2 ^ 32 - 1) :
    (self.addTimeout (self.instant + e) secs value).deadlines.Perm
        ((self.instant + e + secs.toNat, value) :: self.deadlines) ↔ e = 0 := by
  have helapsed : self.instant + e - self.instant = e := by omega
  have hadd := self.deadlines_addTimeout (self.instant + e) secs value (by omega)
  rw [helapsed] at hadd
  constructor
  · intro hperm
    -- the two deadlines of the value have the same list beside them
    have hsum := ((hadd.symm.trans hperm).map Prod.fst).sum_eq
    simp only [List.map_cons, List.sum_cons] at hsum
    omega
  · rintro rfl
    simpa using hadd

theorem deadline_addTimeout_iff_at_instant :
    0 + (3 : UInt32).toNat ≤ 2 ^ 32 - 1 ∧
      ((⟨7, [⟨5, 'a'⟩]⟩ : Timer Char).addTimeout (7 + 0) 3 'b').deadlines.Perm
        ((7 + 0 + (3 : UInt32).toNat, 'b') :: (⟨7, [⟨5, 'a'⟩]⟩ : Timer Char).deadlines) :=
  ⟨by decide, (deadline_addTimeout_iff ⟨7, [⟨5, 'a'⟩]⟩ 0 3 'b' (by decide)).mpr rfl⟩

/-- Two seconds late, a timeout of three seconds is one second after the instant instead of five. -/
theorem late_addition_too_early :
    ¬ ∀ (self : Timer Char) (e : ℕ) (secs : UInt32) (value : Char),
      e + secs.toNat ≤ 2 ^ 32 - 1 →
        (self.addTimeout (self.instant + e) secs value).deadlines.Perm
          ((self.instant + e + secs.toNat, value) :: self.deadlines) := by
  intro h
  exact absurd (h ⟨0, []⟩ 2 3 'v' (by decide)) (by decide)

theorem gcItems_head (isDeleted : T → Bool) (items : List (Titem T)) :
    gcItems isDeleted .head items =
      if items.all fun item => isDeleted item.value then some [] else none := by
  induction items with
  | nil => rfl
  | cons item next ih =>
    unfold gcItems
    cases hitem : isDeleted item.value with
    | false => simp [hitem]
    | true => simpa [hitem] using ih

theorem map_snd_deadlinesFrom (base : ℕ) (items : List (Titem T)) :
    (deadlinesFrom base items).map Prod.snd = items.map Titem.value := by
  induction items generalizing base with
  | nil => rfl
  | cons item next ih => simp [deadlinesFrom, ih]

/-- `gc` removes the deleted items and keeps the others, with their deadlines and in their order,
exactly if there are no others: at the first item that is to stay it aborts. -/
theorem gc_iff (self : Timer T) (isDeleted : T → Bool) :
    (∃ s, self.gc isDeleted = some s ∧
        s.deadlines = self.deadlines.filter fun p => !isDeleted p.2) ↔
      ∀ item ∈ self.items, isDeleted item.value := by
  unfold gc
  rw [gcItems_head]
  constructor
  · rintro ⟨s, hs, -⟩
    split_ifs at hs with hall
    · exact List.all_eq_true.mp hall
    · cases hs
  · intro hall
    rw [if_pos (List.all_eq_true.mpr hall)]
    refine ⟨_, rfl, (List.filter_eq_nil_iff.mpr fun p hp => ?_).symm⟩
    have hvalue : p.2 ∈ self.items.map Titem.value :=
      map_snd_deadlinesFrom self.instant self.items ▸ List.mem_map_of_mem hp
    obtain ⟨item, hitem, hp⟩ := List.mem_map.mp hvalue
    simp [← hp, hall item hitem]

/-- A timer with one item, and nothing deleted. -/
theorem gc_aborts_at_live_item :
    ¬ ∀ (self : Timer Char) (isDeleted : Char → Bool), ∃ s, self.gc isDeleted = some s ∧
      s.deadlines = self.deadlines.filter fun p => !isDeleted p.2 := by
  intro h
  obtain ⟨s, hs, -⟩ := h ⟨0, [⟨5, 'v'⟩]⟩ fun _ => false
  cases hs

/-- The whole list goes if every deadline has come. -/
theorem expireItems_of_all_due (isDeleted : T → Bool) {secs : UInt32} {limit base : ℕ}
    {items : List (Titem T)} (hlimit : limit ≤ base + secs.toNat)
    (h : ∀ p ∈ deadlinesFrom base items, p.1 ≤ limit) :
    expireItems isDeleted secs items =
      ((items.map Titem.value).filter fun value => !isDeleted value, []) := by
  induction items generalizing base with
  | nil => rfl
  | cons item next ih =>
    have hitem : base + item.delta.toNat ≤ limit := h _ List.mem_cons_self
    have hdelta : ¬ secs < item.delta := by
      rw [UInt32.lt_iff_toNat_lt]
      omega
    have hrest : ∀ p ∈ deadlinesFrom (base + item.delta.toNat) next, p.1 ≤ limit :=
      fun p hp => h p (List.mem_cons_of_mem _ hp)
    have hnext := ih (by omega) hrest
    unfold expireItems
    rw [if_neg hdelta, hnext]
    cases hdel : isDeleted item.value <;> simp [hdel]

/-- No deadline comes before that of the first item. -/
theorem lt_of_lt_head {secs : UInt32} {base : ℕ} {item : Titem T} {next : List (Titem T)}
    (hlt : secs < item.delta) :
    ∀ p ∈ deadlinesFrom base (item :: next), base + secs.toNat < p.1 := by
  have hhead : base + secs.toNat < base + item.delta.toNat :=
    Nat.add_lt_add_left (UInt32.lt_iff_toNat_lt.mp hlt) base
  intro p hp
  rcases List.mem_cons.mp hp with rfl | hp
  · exact hhead
  · exact hhead.trans_le (le_of_mem_deadlinesFrom hp)

/-- Where nothing has a deadline between the base and the time of the call, the items at the base
go and the others keep their deadlines. -/
theorem expireItems_of_none_between (isDeleted : T → Bool) {secs : UInt32} {base : ℕ}
    {items : List (Titem T)}
    (h : ∀ p ∈ deadlinesFrom base items, p.1 ≤ base + secs.toNat → p.1 ≤ base) :
    (expireItems isDeleted secs items).1 = ((deadlinesFrom base items).filter fun p =>
        decide (p.1 ≤ base + secs.toNat) && !isDeleted p.2).map Prod.snd ∧
      deadlinesFrom (base + secs.toNat) (expireItems isDeleted secs items).2 =
        (deadlinesFrom base items).filter fun p => base + secs.toNat < p.1 := by
  induction items with
  | nil => exact ⟨rfl, rfl⟩
  | cons item next ih =>
    unfold expireItems
    by_cases hlt : secs < item.delta
    · rw [if_pos hlt]
      have hlt' : secs.toNat < item.delta.toNat := UInt32.lt_iff_toNat_lt.mp hlt
      have hsub : (item.delta - secs).toNat = item.delta.toNat - secs.toNat :=
        UInt32.toNat_sub_of_le _ _ (UInt32.le_of_lt hlt)
      have hlater : ∀ p ∈ deadlinesFrom base (item :: next), base + secs.toNat < p.1 :=
        lt_of_lt_head hlt
      constructor
      · rw [List.filter_eq_nil_iff.mpr fun p hp => by simp [Nat.not_le.mpr (hlater p hp)]]
        rfl
      · rw [List.filter_eq_self.mpr fun p hp => by simpa using hlater p hp]
        have hbase : base + secs.toNat + (item.delta - secs).toNat = base + item.delta.toNat := by
          omega
        simp only [deadlinesFrom, hbase]
    · rw [if_neg hlt]
      -- the item lies at the base, so the deadlines of the next ones count from there
      have hle : item.delta.toNat ≤ secs.toNat := Nat.le_of_not_lt (mt UInt32.lt_iff_toNat_lt.mpr hlt)
      have hzero : item.delta.toNat = 0 := by
        have := h _ List.mem_cons_self (Nat.add_le_add_left hle base)
        dsimp only at this
        omega
      have hcons : deadlinesFrom base (item :: next) = (base, item.value) :: deadlinesFrom base next := by
        simp [deadlinesFrom, hzero]
      rw [hcons] at h ⊢
      obtain ⟨hout, hleft⟩ := ih fun p hp => h p (List.mem_cons_of_mem _ hp)
      cases hdel : isDeleted item.value <;> simp [hdel, hout, hleft]

/-- A call at a time returns what is due then and leaves the rest with its deadlines, if all is due
or nothing lies between the timer's instant and the call. -/
theorem expired_spec {self : Timer T} {now : ℕ} (isDeleted : T → Bool) (hnow : self.instant ≤ now)
    (hfits : now - self.instant < 2 ^ 32)
    (h : (∀ p ∈ self.deadlines, p.1 ≤ now) ∨
      ∀ p ∈ self.deadlines, p.1 ≤ now → p.1 ≤ self.instant) :
    (self.expired isDeleted now).1 = (self.deadlines.filter fun p =>
        decide (p.1 ≤ now) && !isDeleted p.2).map Prod.snd ∧
      (self.expired isDeleted now).2.instant = now ∧
      (self.expired isDeleted now).2.deadlines = self.deadlines.filter fun p => now < p.1 := by
  have hsecs : self.instant + (self.elapsed now).toNat = now := by
    rw [elapsed_toNat hfits]
    omega
  rcases h with hall | hnone
  · have hitems := expireItems_of_all_due isDeleted hsecs.ge hall
    unfold expired
    refine ⟨?_, hsecs, ?_⟩
    · simp only [hitems]
      rw [← map_snd_deadlinesFrom self.instant, List.filter_map]
      congr 1
      refine List.filter_congr fun p hp => ?_
      simp [hall p hp]
    · rw [List.filter_eq_nil_iff.mpr fun p hp => by simpa using hall p hp]
      simp only [hitems, deadlines, deadlinesFrom]
  · rw [← hsecs] at hnone
    obtain ⟨hout, hleft⟩ := expireItems_of_none_between isDeleted hnone
    rw [hsecs] at hout hleft
    refine ⟨hout, hsecs, ?_⟩
    simp only [expired, deadlines, hsecs]
    exact hleft

end Timer

/-- What is done with a timer and its values. -/
inductive TimerOp (T : Type) where
  | addTimeout (secs : UInt32) (value : T)
  | delete (value : T)
  | expired
  deriving DecidableEq, Repr

structure Timed (T : Type) where
  now : ℕ
  op : TimerOp T
  deriving DecidableEq, Repr

namespace Timed
variable {T : Type}

/-- A value with its deadline, for an addition. -/
def added (e : Timed T) : List (ℕ × T) :=
  match e.op with
  | .addTimeout secs value => [(e.now + secs.toNat, value)]
  | .delete _ | .expired => []

/-- A call of `expired` at the deadline or after it. -/
def collects (e : Timed T) (deadline : ℕ) : Bool :=
  match e.op with
  | .expired => deadline ≤ e.now
  | .addTimeout .. | .delete _ => false

def deletes [DecidableEq T] (e : Timed T) (value : T) : Bool :=
  match e.op with
  | .delete v => v = value
  | .addTimeout .. | .expired => false

def isAddition (e : Timed T) : Bool :=
  match e.op with
  | .addTimeout .. => true
  | .delete _ | .expired => false

def isCall (e : Timed T) : Bool :=
  match e.op with
  | .expired => true
  | .addTimeout .. | .delete _ => false

/-- The time of the last call of `expired`, or of the start if there was none. -/
def lastCall (start : ℕ) (hist : List (Timed T)) : ℕ :=
  hist.foldl (fun last e => if e.isCall then e.now else last) start

/-- The time of the last operation. -/
def clock (start : ℕ) (hist : List (Timed T)) : ℕ :=
  hist.foldl (fun _ e => e.now) start

/-- Each addition that no later call has come to, with its deadline. -/
def pending : List (Timed T) → List (ℕ × T)
  | [] => []
  | e :: later => (e.added.filter fun p => !later.any (·.collects p.1)) ++ pending later

/-- The values that a call has to return: the deadline has come, no earlier call was made at it or
after it, and the value was not deleted. -/
def due [DecidableEq T] (hist : List (Timed T)) (now : ℕ) : List T :=
  ((pending hist).filter fun p => decide (p.1 ≤ now) && !hist.any (·.deletes p.2)).map Prod.snd

/-- Time does not go back, and there is no addition a full second after the last call. -/
def Timely (start : ℕ) (hist : List (Timed T)) (e : Timed T) : Prop :=
  clock start hist ≤ e.now ∧ (e.isAddition → e.now < lastCall start hist + 1)

/-- At a call either all that is pending is due, or nothing has become due since the last call; and
the seconds since the last call fit in 32 bits. -/
def Separate (start : ℕ) (hist : List (Timed T)) (e : Timed T) : Prop :=
  e.isCall → e.now - lastCall start hist < 2 ^ 32 ∧
    ((∀ p ∈ pending hist, p.1 ≤ e.now) ∨
      ∀ p ∈ pending hist, p.1 ≤ e.now → p.1 ≤ lastCall start hist)

instance (start : ℕ) (hist : List (Timed T)) (e : Timed T) : Decidable (Timely start hist e) :=
  inferInstanceAs (Decidable (_ ∧ _))

instance (start : ℕ) (hist : List (Timed T)) (e : Timed T) : Decidable (Separate start hist e) :=
  inferInstanceAs (Decidable (_ → _))

@[simp]
theorem lastCall_concat (start : ℕ) (hist : List (Timed T)) (e : Timed T) :
    lastCall start (hist ++ [e]) = if e.isCall then e.now else lastCall start hist := by
  simp [lastCall]

@[simp]
theorem clock_concat (start : ℕ) (hist : List (Timed T)) (e : Timed T) :
    clock start (hist ++ [e]) = e.now := by
  simp [clock]

theorem pending_concat (hist : List (Timed T)) (e : Timed T) :
    pending (hist ++ [e]) = ((pending hist).filter fun p => !e.collects p.1) ++ e.added := by
  induction hist with
  | nil => simp [pending]
  | cons d hist ih =>
    simp only [List.cons_append, pending, ih, List.filter_append, List.append_assoc,
      List.filter_filter, List.any_append]
    congr 2
    funext p
    simp [Bool.and_comm]

end Timed

/-- A timer with the values that were deleted. -/
structure Timers (T : Type) where
  timer : Timer T
  deleted : List T

namespace Timers
variable {T : Type} [DecidableEq T]

def isDeleted (self : Timers T) (value : T) : Bool := decide (value ∈ self.deleted)

def step (self : Timers T) (e : Timed T) : List T × Timers T :=
  match e.op with
  | .addTimeout secs value => ([], { self with timer := self.timer.addTimeout e.now secs value })
  | .delete value => ([], { self with deleted := value :: self.deleted })
  | .expired =>
    let (expired, timer) := self.timer.expired self.isDeleted e.now
    (expired, { self with timer := timer })

def run (start : ℕ) (hist : List (Timed T)) : Timers T :=
  hist.foldl (fun s e => (s.step e).2) ⟨Timer.default start, []⟩

theorem any_deletes_concat (hist : List (Timed T)) (e : Timed T) (value : T) :
    (hist ++ [e]).any (·.deletes value) = (hist.any (·.deletes value) || e.deletes value) := by
  simp

theorem run_concat (start : ℕ) (hist : List (Timed T)) (e : Timed T) :
    run start (hist ++ [e]) = ((run start hist).step e).2 := by
  simp [run]

/-- The list of the timer holds what the history leaves pending. -/
structure Tracks (s : Timers T) (start : ℕ) (hist : List (Timed T)) : Prop where
  instant : s.timer.instant = Timed.lastCall start hist
  deadlines : s.timer.deadlines.Perm (Timed.pending hist)
  deleted (value : T) : s.isDeleted value = hist.any (·.deletes value)
  clock : Timed.lastCall start hist ≤ Timed.clock start hist

namespace Tracks
variable {s : Timers T} {start : ℕ} {hist : List (Timed T)} {now : ℕ}

theorem addTimeout (h : s.Tracks start hist) {secs : UInt32} {value : T}
    (htime : Timed.clock start hist ≤ now) (hprompt : now < Timed.lastCall start hist + 1) :
    (s.step ⟨now, .addTimeout secs value⟩).2.Tracks start
      (hist ++ [⟨now, .addTimeout secs value⟩]) := by
  have hclock := h.clock
  have hsame : now = Timed.lastCall start hist := by omega
  have hadd := s.timer.deadlines_addTimeout now secs value (by rw [h.instant]; omega)
  rw [h.instant, ← hsame, Nat.sub_self, Nat.sub_zero] at hadd
  constructor
  · simpa [step, Timed.isCall, Timer.addTimeout] using h.instant
  · rw [Timed.pending_concat]
    simpa [step, Timed.collects, Timed.added] using
      (hadd.trans (h.deadlines.cons _)).trans (List.perm_append_singleton _ _).symm
  · intro v
    rw [any_deletes_concat, ← h.deleted]
    exact (Bool.or_false _).symm
  · simpa [Timed.isCall] using hsame.ge

theorem delete (h : s.Tracks start hist) {value : T} (htime : Timed.clock start hist ≤ now) :
    (s.step ⟨now, .delete value⟩).2.Tracks start (hist ++ [⟨now, .delete value⟩]) := by
  constructor
  · simpa [step, Timed.isCall] using h.instant
  · rw [Timed.pending_concat]
    simpa [step, Timed.collects, Timed.added] using h.deadlines
  · intro v
    rw [any_deletes_concat, ← h.deleted]
    simp [step, isDeleted, Timed.deletes, Bool.or_comm, eq_comm]
  · simpa [Timed.isCall] using h.clock.trans htime

/-- What a call that the timer can tell apart returns, and that the list is kept right by it. -/
theorem expired (h : s.Tracks start hist) (htime : Timed.clock start hist ≤ now)
    (hsep : Timed.Separate start hist ⟨now, .expired⟩) :
    (s.step ⟨now, .expired⟩).1.Perm (Timed.due hist now) ∧
      (s.step ⟨now, .expired⟩).2.Tracks start (hist ++ [⟨now, .expired⟩]) := by
  have hmem (p : ℕ × T) : p ∈ s.timer.deadlines ↔ p ∈ Timed.pending hist := h.deadlines.mem_iff
  obtain ⟨hfits, hpending⟩ := hsep rfl
  simp only [← hmem, ← h.instant] at hfits hpending
  have hnow : s.timer.instant ≤ now := h.instant.trans_le (h.clock.trans htime)
  obtain ⟨hout, hinstant, hleft⟩ := Timer.expired_spec s.isDeleted hnow hfits hpending
  constructor
  · simp only [step, hout, h.deleted]
    exact (h.deadlines.filter _).map _
  · constructor
    · simpa [step, Timed.isCall] using hinstant
    · rw [Timed.pending_concat]
      have hlater (d : ℕ) : (!(⟨now, .expired⟩ : Timed T).collects d) = decide (now < d) := by
        simp only [Timed.collects, ← decide_not, Nat.not_le]
      simpa [step, hleft, hlater, Timed.added] using h.deadlines.filter fun p => decide (now < p.1)
    · intro v
      rw [any_deletes_concat, ← h.deleted]
      exact (Bool.or_false _).symm
    · simp [Timed.isCall]

end Tracks

theorem run_tracks {start : ℕ} {hist : List (Timed T)}
    (htimely : Transition.Each (Timed.Timely start) [] hist)
    (hsep : Transition.Each (Timed.Separate start) [] hist) :
    (run start hist).Tracks start hist := by
  induction hist using List.reverseRecOn with
  | nil => exact ⟨rfl, .refl _, fun _ => rfl, le_rfl⟩
  | append_singleton hist e ih =>
    obtain ⟨htimely, htime⟩ := Transition.each_concat.mp htimely
    obtain ⟨hsep, hcall⟩ := Transition.each_concat.mp hsep
    have h := ih htimely hsep
    rw [run_concat]
    rcases e with ⟨now, ⟨secs, value⟩ | value | _⟩
    · exact h.addTimeout htime.1 (htime.2 rfl)
    · exact h.delete htime.1
    · exact (h.expired htime.1 hcall).2

/-- Each addition is returned by the first call at its deadline or after it, and by no other, unless
its value was deleted, if at no call some of the pending values have become due and others not. -/
theorem expired_returns_due {start : ℕ} {hist : List (Timed T)} {now : ℕ}
    (htimely : Transition.Each (Timed.Timely start) [] (hist ++ [⟨now, .expired⟩]))
    (hsep : Transition.Each (Timed.Separate start) [] (hist ++ [⟨now, .expired⟩])) :
    ((run start hist).step ⟨now, .expired⟩).1.Perm (Timed.due hist now) := by
  obtain ⟨htimely, htime⟩ := Transition.each_concat.mp htimely
  obtain ⟨hsep, hcall⟩ := Transition.each_concat.mp hsep
  exact ((run_tracks htimely hsep).expired htime.1 hcall).1

/-- Two values, one of them deleted, both returned or dropped at the end. -/
theorem expired_returns_due_once :
    ((run 0 [⟨0, .addTimeout 5 'a'⟩, ⟨0, .addTimeout 8 'b'⟩, ⟨3, .expired⟩, ⟨4, .delete 'a'⟩]).step
      ⟨9, .expired⟩).1.Perm ['b'] :=
  expired_returns_due (by decide) (by decide)

/-- Of two values of five and eight seconds, a call at second five returns both. -/
theorem expired_returns_early :
    ¬ ∀ (start : ℕ) (hist : List (Timed Char)) (now : ℕ),
      Transition.Each (Timed.Timely start) [] (hist ++ [⟨now, .expired⟩]) →
        ((run start hist).step ⟨now, .expired⟩).1.Perm (Timed.due hist now) := by
  intro h
  exact absurd (h 0 [⟨0, .addTimeout 5 'a'⟩, ⟨0, .addTimeout 8 'b'⟩] 5 (by decide)) (by decide)

end Timers
end Mqtr
