import Mqtr.Core.Keyed
import Mqtr.Broker.Timer

/-! The list of the differential timer as the source links it: a head, the timeouts, and a sentinel. The
loops take the cells apart and put them together again, every subtraction is checked, and each loop is
shown to end and to do what the loops over lists of `Mqtr.Broker.Timer` do. `none` is an abort. -/
namespace Mqtr

/-- `Titem`. -/
inductive Cell (T : Type) where
  | head (next : Cell T)
  | timeout (delta : UInt32) (value : T) (next : Cell T)
  | sentinel
  deriving DecidableEq, Repr

/-- `a - b`. -/
def checkedSub (a b : UInt32) : Option UInt32 := if b ≤ a then some (a - b) else none

theorem checkedSub_of_le {a b : UInt32} (h : b ≤ a) : checkedSub a b = some (a - b) :=
  if_pos h

namespace Cell
variable {T : Type}

def differential (self : Cell T) (ndelta : UInt32) : Option (Cell T) :=
  match self with
  | .timeout delta value next => do
    let delta ← checkedSub delta ndelta
    some (.timeout delta value next)
  | .head _ | .sentinel => none

def asMutNext : Cell T → Option (Cell T)
  | .head next | .timeout _ _ next => some next
  | .sentinel => none

def toDelta : Cell T → Option UInt32
  | .timeout delta _ _ => some delta
  | .head _ | .sentinel => none

/-- The next cell, and the cell itself with a sentinel in its place. -/
def takeNext : Cell T → Option (Cell T × Cell T)
  | .head next => some (next, .head .sentinel)
  | .timeout delta value next => some (next, .timeout delta value .sentinel)
  | .sentinel => none

def setNext (self newNext : Cell T) : Option (Cell T) :=
  match self with
  | .head _ => some (.head newNext)
  | .timeout delta value _ => some (.timeout delta value newNext)
  | .sentinel => none

/-- The loop of `add_timeout`, cut after some passes. -/
def addLoop (value : T) : ℕ → Cell T → UInt32 → Option (Cell T)
  | 0, _, _ => none
  | fuel + 1, prev, ndelta => do
    let (nn, prev) ← prev.takeNext
    match nn with
    | .sentinel => prev.setNext (.timeout ndelta value nn)
    | .timeout .. => do
      let delta ← nn.toDelta
      if ndelta < delta then do
        let nn ← nn.differential ndelta
        prev.setNext (.timeout ndelta value nn)
      else do
        let ndelta ← checkedSub ndelta delta
        let prev ← prev.setNext nn
        -- `prev` moves on by a borrow: what becomes of the next cell is seen in this one
        let next ← prev.asMutNext
        let next ← addLoop value fuel next ndelta
        prev.setNext next
    | .head _ => none

/-- The loop of `expired`, over what is behind the head. -/
def expireLoop (isDeleted : T → Bool) (secs : UInt32) :
    ℕ → Cell T → List T → Option (List T × Cell T)
  | 0, _, _ => none
  | fuel + 1, front, expired => do
    let (nn, front) ← front.takeNext
    match nn with
    | .sentinel => do
      let front ← front.setNext .sentinel
      some (expired, front)
    | .timeout delta value next =>
      if secs < delta then do
        let delta ← checkedSub delta secs
        let front ← front.setNext (.timeout delta value next)
        some (expired, front)
      else if isDeleted value then do
        let front ← front.setNext next
        expireLoop isDeleted secs fuel front expired
      else do
        let front ← front.setNext next
        expireLoop isDeleted secs fuel front (expired ++ [value])
    | .head _ => none

/-- The loop of `gc`. At a cell that stays, `prev` has to be a timeout. -/
def gcLoop (isDeleted : T → Bool) : ℕ → Cell T → Option (Cell T)
  | 0, _ => none
  | fuel + 1, prev => do
    let (nn, prev) ← prev.takeNext
    match nn with
    | .sentinel => prev.setNext nn
    | .timeout _ value next =>
      if isDeleted value then do
        let prev ← prev.setNext next
        gcLoop isDeleted fuel prev
      else do
        let prev ← prev.setNext nn
        match prev with
        | .timeout delta value next => do
          let next ← gcLoop isDeleted fuel next
          some (.timeout delta value next)
        | .head _ | .sentinel => none
    | .head _ => none

/-- The cells of a list, up to the sentinel. -/
def ofItems : List (Titem T) → Cell T
  | [] => .sentinel
  | item :: next => .timeout item.delta item.value (ofItems next)

/-- A pass that finds the cells of a list behind `prev` leaves those of the longer list there. -/
theorem addLoop_eq {fuel : ℕ} {value : T} {items : List (Titem T)} (ndelta : UInt32)
    {prev taken : Cell T} (hprev : prev.takeNext = some (ofItems items, taken))
    (hfuel : items.length < fuel) :
    addLoop value fuel prev ndelta = taken.setNext (ofItems (Timer.insertItem ndelta value items)) := by
  induction fuel generalizing items ndelta prev taken with
  | zero => cases hfuel
  | succ fuel ih =>
    cases items with
    | nil => simp [addLoop, hprev, ofItems, Timer.insertItem]
    | cons item next =>
      simp only [addLoop, hprev, ofItems, Timer.insertItem, toDelta, Option.bind_eq_bind,
        Option.bind_some]
      split_ifs with hlt
      · simp [differential, checkedSub_of_le (UInt32.le_of_lt hlt), ofItems]
      · have htake : (timeout item.delta item.value (ofItems next)).takeNext =
            some (ofItems next, .timeout item.delta item.value .sentinel) := rfl
        have hnext := ih (ndelta - item.delta) htake (Nat.lt_of_succ_lt_succ hfuel)
        rw [checkedSub_of_le (UInt32.not_lt.mp hlt)]
        cases taken with
        | head _ => simp [setNext, asMutNext, hnext, ofItems]
        | timeout _ _ _ => simp [setNext, asMutNext, hnext, ofItems]
        | sentinel => rfl

theorem addLoop_head {fuel : ℕ} {items : List (Titem T)} (ndelta : UInt32) (value : T)
    (hfuel : items.length < fuel) :
    addLoop value fuel (.head (ofItems items)) ndelta =
      some (.head (ofItems (Timer.insertItem ndelta value items))) := by
  have htake : (head (ofItems items)).takeNext = some (ofItems items, .head .sentinel) := rfl
  exact addLoop_eq ndelta htake hfuel

theorem expireLoop_eq {isDeleted : T → Bool} {secs : UInt32} {fuel : ℕ} {items : List (Titem T)}
    (expired : List T) (hfuel : items.length < fuel) :
    expireLoop isDeleted secs fuel (.head (ofItems items)) expired =
      some (expired ++ (Timer.expireItems isDeleted secs items).1,
        .head (ofItems (Timer.expireItems isDeleted secs items).2)) := by
  induction fuel generalizing items expired with
  | zero => cases hfuel
  | succ fuel ih =>
    cases items with
    | nil => simp [expireLoop, takeNext, setNext, ofItems, Timer.expireItems]
    | cons item next =>
      have hnext (expired : List T) := ih expired (Nat.lt_of_succ_lt_succ hfuel)
      simp only [expireLoop, takeNext, setNext, ofItems, Timer.expireItems, Option.bind_eq_bind,
        Option.bind_some]
      by_cases hlt : secs < item.delta
      · simp [hlt, checkedSub_of_le (UInt32.le_of_lt hlt), ofItems]
      · cases hdel : isDeleted item.value with
        | true => simp [hlt, hnext]
        | false => simp [hlt, hnext]

/-- The cell that `prev` of the loop of `gc` is, with what is behind it. -/
inductive IsPrev (next : Cell T) : Timer.Prev → Cell T → Prop
  | head : IsPrev next .head (.head next)
  | timeout (delta : UInt32) (value : T) : IsPrev next .timeout (.timeout delta value next)

/-- The loop aborts where that over lists does. -/
theorem gcLoop_eq {isDeleted : T → Bool} {fuel : ℕ} {items : List (Titem T)} {kind : Timer.Prev}
    {prev : Cell T} (hprev : IsPrev (ofItems items) kind prev) (hfuel : items.length < fuel) :
    gcLoop isDeleted fuel prev =
      (Timer.gcItems isDeleted kind items).bind fun left => prev.setNext (ofItems left) := by
  induction fuel generalizing items kind prev with
  | zero => cases hfuel
  | succ fuel ih =>
    cases items with
    | nil =>
      cases hprev with
      | head => rfl
      | timeout delta value => rfl
    | cons item next =>
      have hnext {kind : Timer.Prev} {prev : Cell T} (hprev : IsPrev (ofItems next) kind prev) :=
        ih hprev (Nat.lt_of_succ_lt_succ hfuel)
      cases hdel : isDeleted item.value with
      | true =>
        -- the item goes, and `prev` stays where it is
        cases hprev with
        | head => simp [gcLoop, takeNext, setNext, ofItems, Timer.gcItems, hdel, hnext .head]
        | timeout delta value =>
          simp [gcLoop, takeNext, setNext, ofItems, Timer.gcItems, hdel, hnext (.timeout delta value)]
      | false =>
        cases hprev with
        | head => simp [gcLoop, takeNext, setNext, ofItems, Timer.gcItems, hdel]
        | timeout delta value =>
          simp only [gcLoop, takeNext, setNext, ofItems, Timer.gcItems, hdel,
            hnext (.timeout item.delta item.value), Option.bind_eq_bind, Option.bind_some,
            Bool.false_eq_true, if_false]
          cases Timer.gcItems isDeleted .timeout next with
          | none => rfl
          | some left => rfl

/-- The values with the sums of the deltas up to theirs. -/
def prefixSums (items : List (Titem T)) : List (ℕ × T) := Timer.deadlinesFrom 0 items

/-- The loop of `add_timeout` ends after one pass more than there are items, without an abort. It leaves
the sums of all items as they were, gives the new one the offset as its sum, and puts it behind all items
whose sums are not greater. -/
theorem addLoop_inserts (items : List (Titem T)) (ndelta : UInt32) (value : T) :
    ∃ items', (∀ fuel, items.length < fuel →
        addLoop value fuel (.head (ofItems items)) ndelta = some (.head (ofItems items'))) ∧
      (prefixSums items').Pairwise (fun p q => p.1 ≤ q.1) ∧
      ∃ before after, prefixSums items = before ++ after ∧
        prefixSums items' = before ++ (ndelta.toNat, value) :: after ∧
        (∀ p ∈ before, p.1 ≤ ndelta.toNat) ∧ ∀ p ∈ after, ndelta.toNat < p.1 := by
  refine ⟨Timer.insertItem ndelta value items, fun fuel => addLoop_head ndelta value,
    Timer.deadlinesFrom_pairwise 0 _, ?_⟩
  have hinsert := Timer.deadlinesFrom_insertItem 0 ndelta value items
  rw [Nat.zero_add] at hinsert
  rw [prefixSums, prefixSums, hinsert]
  exact Keyed.orderedInsert_split (Timer.deadlinesFrom_pairwise 0 items) (ndelta.toNat, value)

end Cell

/-- `Timer`, with its cells. -/
structure LinkedTimer (T : Type) where
  instant : ℕ
  head : Cell T
  deriving DecidableEq, Repr

namespace LinkedTimer
variable {T : Type}

def default (now : ℕ) : LinkedTimer T := ⟨now, .head .sentinel⟩

def elapsed (self : LinkedTimer T) (now : ℕ) : UInt32 := UInt32.ofNat (now - self.instant)

def expired (self : LinkedTimer T) (isDeleted : T → Bool) (fuel now : ℕ) :
    Option (List T × LinkedTimer T) := do
  let secs := self.elapsed now
  let (expired, head) ← Cell.expireLoop isDeleted secs fuel self.head []
  some (expired, ⟨self.instant + secs.toNat, head⟩)

def addTimeout (self : LinkedTimer T) (fuel now : ℕ) (secs : UInt32) (value : T) :
    Option (LinkedTimer T) := do
  let elapsed := self.elapsed now
  let ndelta := if elapsed ≤ secs then secs - elapsed else 0
  let head ← Cell.addLoop value fuel self.head ndelta
  some { self with head := head }

def gc (self : LinkedTimer T) (isDeleted : T → Bool) (fuel : ℕ) : Option (LinkedTimer T) := do
  let head ← Cell.gcLoop isDeleted fuel self.head
  some { self with head := head }

end LinkedTimer

namespace Timer
variable {T : Type}

/-- The timer with its list as cells. -/
def linked (self : Timer T) : LinkedTimer T := ⟨self.instant, .head (Cell.ofItems self.items)⟩

variable {self : Timer T} {fuel : ℕ} (hfuel : self.items.length < fuel)
include hfuel

theorem linked_expired (isDeleted : T → Bool) (now : ℕ) :
    self.linked.expired isDeleted fuel now =
      some ((self.expired isDeleted now).1, (self.expired isDeleted now).2.linked) := by
  simp [linked, LinkedTimer.expired, expired, LinkedTimer.elapsed, elapsed, Cell.expireLoop_eq [] hfuel]

theorem linked_addTimeout (now : ℕ) (secs : UInt32) (value : T) :
    self.linked.addTimeout fuel now secs value = some (self.addTimeout now secs value).linked := by
  change (Cell.addLoop value fuel (.head (Cell.ofItems self.items))
    (if self.elapsed now ≤ secs then secs - self.elapsed now else 0)).bind _ = _
  rw [Cell.addLoop_head _ value hfuel]
  rfl

theorem linked_gc (isDeleted : T → Bool) :
    self.linked.gc isDeleted fuel = (self.gc isDeleted).map linked := by
  simp only [linked, LinkedTimer.gc, gc, Cell.gcLoop_eq .head hfuel]
  cases gcItems isDeleted .head self.items with
  | none => rfl
  | some left => rfl

omit hfuel

theorem length_insertItem (ndelta : UInt32) (value : T) (items : List (Titem T)) :
    (insertItem ndelta value items).length = items.length + 1 := by
  induction items generalizing ndelta with
  | nil => rfl
  | cons item next ih =>
    unfold insertItem
    split_ifs
    · rfl
    · rw [List.length_cons, ih, List.length_cons]

theorem length_expireItems_le (isDeleted : T → Bool) (secs : UInt32) (items : List (Titem T)) :
    (expireItems isDeleted secs items).2.length ≤ items.length := by
  induction items with
  | nil => exact le_rfl
  | cons item next ih =>
    unfold expireItems
    dsimp only
    split_ifs
    · exact le_rfl
    · exact ih.trans (Nat.le_succ _)
    · exact ih.trans (Nat.le_succ _)

end Timer

/-- A timer of cells with the values that were deleted. -/
structure LinkedTimers (T : Type) where
  timer : LinkedTimer T
  deleted : List T

namespace LinkedTimers
variable {T : Type} [DecidableEq T]

def step (fuel : ℕ) (self : LinkedTimers T) (e : Timed T) : Option (List T × LinkedTimers T) :=
  match e.op with
  | .addTimeout secs value => do
    let timer ← self.timer.addTimeout fuel e.now secs value
    some ([], { self with timer := timer })
  | .delete value => some ([], { self with deleted := value :: self.deleted })
  | .expired => do
    let (expired, timer) ← self.timer.expired (fun value => decide (value ∈ self.deleted)) fuel e.now
    some (expired, { self with timer := timer })

def run (fuel start : ℕ) (hist : List (Timed T)) : Option (LinkedTimers T) :=
  hist.foldlM (fun s e => (s.step fuel e).map Prod.snd) ⟨.default start, []⟩

end LinkedTimers

namespace Timers
variable {T : Type} [DecidableEq T]

def linked (self : Timers T) : LinkedTimers T := ⟨self.timer.linked, self.deleted⟩

theorem linked_step {s : Timers T} {fuel : ℕ} (h : s.timer.items.length < fuel) (e : Timed T) :
    s.linked.step fuel e = some ((s.step e).1, (s.step e).2.linked) := by
  rcases e with ⟨now, ⟨secs, value⟩ | value | _⟩
  · simp [linked, LinkedTimers.step, step, Timer.linked_addTimeout h]
  · rfl
  · change (s.timer.linked.expired s.isDeleted fuel now).bind _ = _
    rw [Timer.linked_expired h]
    rfl

theorem length_step_le (s : Timers T) (e : Timed T) :
    (s.step e).2.timer.items.length ≤ s.timer.items.length + 1 := by
  rcases e with ⟨now, ⟨secs, value⟩ | value | _⟩
  · exact (Timer.length_insertItem ..).le
  · exact Nat.le_succ _
  · exact (Timer.length_expireItems_le ..).trans (Nat.le_succ _)

theorem length_run_le (start : ℕ) (hist : List (Timed T)) :
    (run start hist).timer.items.length ≤ hist.length := by
  induction hist using List.reverseRecOn with
  | nil => exact le_rfl
  | append_singleton hist e ih =>
    rw [run_concat, List.length_append, List.length_singleton]
    exact (length_step_le _ e).trans (Nat.succ_le_succ ih)

/-- Whatever is done with a timer, its cells follow its list: no step aborts, no subtraction underflows,
and no loop takes more passes than there were operations. -/
theorem linked_run {start fuel : ℕ} {hist : List (Timed T)} (h : hist.length < fuel) :
    LinkedTimers.run fuel start hist = some (run start hist).linked := by
  induction hist using List.reverseRecOn with
  | nil => rfl
  | append_singleton hist e ih =>
    rw [List.length_append, List.length_singleton] at h
    have hhist : hist.length < fuel := (Nat.lt_succ_self _).trans h
    have hitems := (length_run_le start hist).trans_lt hhist
    have hrun := ih hhist
    rw [LinkedTimers.run] at hrun ⊢
    rw [List.foldlM_append, hrun, run_concat]
    change ((run start hist).linked.step fuel e).map Prod.snd >>= pure = _
    rw [linked_step hitems]
    rfl

/-- After any history the cells hold the list, and every further operation on them does what it does on
the list: it answers the same and leaves the cells of the list it leaves, and the collection of deleted
items aborts where that of the list does. -/
theorem cells_follow_list {start fuel : ℕ} {hist : List (Timed T)} (h : hist.length < fuel) :
    ∃ cells, LinkedTimers.run fuel start hist = some cells ∧
      (∀ e : Timed T, cells.step fuel e =
        some (((run start hist).step e).1, ((run start hist).step e).2.linked)) ∧
      ∀ isDeleted : T → Bool, cells.timer.gc isDeleted fuel =
        ((run start hist).timer.gc isDeleted).map Timer.linked := by
  have hitems : (run start hist).timer.items.length < fuel := (length_run_le start hist).trans_lt h
  refine ⟨(run start hist).linked, linked_run h, fun e => linked_step hitems e, ?_⟩
  intro isDeleted
  exact Timer.linked_gc hitems isDeleted

/-- Of two values one is deleted, and the other has expired. -/
def oneDeleted : List (Timed Char) :=
  [⟨0, .addTimeout 5 'a'⟩, ⟨1, .addTimeout 9 'b'⟩, ⟨2, .delete 'a'⟩]

theorem cells_follow_list_oneDeleted : ∃ cells,
    LinkedTimers.run 4 0 oneDeleted = some cells ∧
      (cells.step 4 ⟨10, .expired⟩).map Prod.fst = some ['b'] := by
  obtain ⟨cells, hrun, hstep, -⟩ := @cells_follow_list Char _ 0 4 oneDeleted (by decide)
  refine ⟨cells, hrun, ?_⟩
  rw [hstep]
  decide

end Timers
end Mqtr
