import Mqtr.Core.Snapshot
import Mqtr.Trie.Match

/-! The trie is shared between threads behind a lock. A call takes the lock once to read the current
`Arc<Inner>` and once more to replace it; a lookup does so as well, with the root it read. -/
namespace Mqtr

section View
variable {V : Type} [Ord V] [BEq V]

/-- A call acts on the tree alone; the counters only follow. -/
theorem TrieOp.apply_root {a b b' : Inner V} {op : TrieOp V} (h : a.root = b.root)
    (hb : op.apply b = some b') : ∃ a', op.apply a = some a' ∧ a'.root = b'.root := by
  cases op with
  | subscribe levels value =>
    simp only [TrieOp.apply, Inner.doSubscribe, Option.bind_eq_bind, Option.bind_eq_some_iff, h]
      at hb ⊢
    obtain ⟨⟨root, first, rep⟩, hsub, hb⟩ := hb
    obtain rfl := Option.some.inj hb
    exact ⟨_, ⟨_, hsub, rfl⟩, rfl⟩
  | unsubscribe levels value =>
    simp only [TrieOp.apply, Inner.doUnsubscribe, Option.bind_eq_bind, Option.bind_eq_some_iff, h]
      at hb ⊢
    obtain ⟨⟨_, last, miss⟩, hsub, root, rfl, hb⟩ := hb
    obtain rfl := Option.some.inj hb
    exact ⟨_, ⟨_, hsub, root, rfl, rfl⟩, rfl⟩
  | matchTopicName levels =>
    simp only [TrieOp.apply, Inner.matchTopicName, Option.map_eq_some_iff, Option.bind_eq_bind,
      Option.bind_eq_some_iff, h] at hb ⊢
    obtain ⟨⟨vals, i⟩, ⟨res, hres, hi⟩, rfl⟩ := hb
    cases res with
    | none =>
      simp only [Option.some.injEq, Prod.mk.injEq] at hi
      obtain ⟨rfl, rfl⟩ := hi
      exact ⟨_, ⟨_, ⟨none, hres, rfl⟩, rfl⟩, rfl⟩
    | some found =>
      simp only [Option.some.injEq, Prod.mk.injEq] at hi
      obtain ⟨rfl, rfl⟩ := hi
      exact ⟨_, ⟨_, ⟨some found, hres, rfl⟩, rfl⟩, rfl⟩

end View

/-- Calls from any number of threads on one trie. -/
abbrev SharedTrie := Snapshot.Cell (Inner Subscription) (TrieOp Subscription)

namespace SharedTrie

def step : SharedTrie → Snapshot.Event (TrieOp Subscription) → Option SharedTrie :=
  Snapshot.step TrieOp.apply

/-- In a run in which every call writes back while the tree it read is still the current one, the
stored entries are those of the completed calls one after another, and no started call is lost: it
has completed or is still in flight. -/
theorem no_lost_update {inner₀ : Inner Subscription}
    {events : List (Snapshot.Event (TrieOp Subscription))} {s : SharedTrie}
    (hf : Transition.Along step (Snapshot.Fresh Inner.root) (Snapshot.init inner₀) events)
    (hr : Transition.run step (Snapshot.init inner₀) events = some s) :
    (Snapshot.started events).Perm (s.finished ++ s.inFlight.map Prod.fst) ∧
      ∃ r, TrieOp.run inner₀ s.finished = some r ∧
        ∀ p, r.root.valuesAt p = s.current.root.valuesAt p := by
  refine ⟨by simpa [Snapshot.init] using Snapshot.started_perm hr, ?_⟩
  have hview (a b : Inner Subscription) (op : TrieOp Subscription) (b' : Inner Subscription)
      (h : a.root = b.root) (hb : TrieOp.apply b op = some b') :
      ∃ a', TrieOp.apply a op = some a' ∧ a'.root = b'.root := TrieOp.apply_root h hb
  obtain ⟨r, hrun, hroot⟩ := Snapshot.finished_serial hview hf hr
  exact ⟨r, hrun, fun p => by rw [hroot]⟩

/-- Two threads subscribe at the same time: both read the empty trie, then both write. -/
def racingSubscribes : List (Snapshot.Event (TrieOp Subscription)) :=
  [.read (.subscribe ["a"] (plainSubscription "c" "a")),
    .read (.subscribe ["b"] (plainSubscription "d" "b")), .write 0, .write 0]

/-- The same two calls, the second one started after the first has written. -/
def queuedSubscribes : List (Snapshot.Event (TrieOp Subscription)) :=
  [.read (.subscribe ["a"] (plainSubscription "c" "a")), .write 0,
    .read (.subscribe ["b"] (plainSubscription "d" "b")), .write 0]

theorem no_lost_update_queued : ∃ s, Transition.run step (Snapshot.init Inner.default)
      queuedSubscribes = some s ∧
    (Snapshot.started queuedSubscribes).Perm (s.finished ++ s.inFlight.map Prod.fst) ∧
      ∃ r, TrieOp.run Inner.default s.finished = some r ∧
        ∀ p, r.root.valuesAt p = s.current.root.valuesAt p := by
  refine ⟨_, rfl, no_lost_update (And.intro trivial (And.intro ?_ (And.intro trivial
    (And.intro ?_ trivial)))) rfl⟩
  all_goals
    rintro _ ⟨⟩
    rfl

/-- The second write restores the tree without the first subscription, in whatever order the two
calls are said to have run. -/
theorem racing_update_lost :
    ¬ ∀ (events : List (Snapshot.Event (TrieOp Subscription))) (s : SharedTrie),
      Transition.run step (Snapshot.init Inner.default) events = some s → s.inFlight = [] →
      ∃ ops r, ops.Perm (Snapshot.started events) ∧ TrieOp.run Inner.default ops = some r ∧
        ∀ p, r.root.valuesAt p = s.current.root.valuesAt p := by
  intro hall
  obtain ⟨ops, r, hperm, hrun, hval⟩ := hall racingSubscribes _ rfl rfl
  have hlost : r.root.valuesAt ["a"] = [] := hval ["a"]
  have hkept : (TrieOp.run Inner.default ops).map (fun r => r.root.valuesAt ["a"]) =
      some [plainSubscription "c" "a"] := by
    rcases List.perm_pair.mp hperm with rfl | rfl <;> rfl
  rw [hrun, Option.map_some, hlost] at hkept
  simp at hkept

end SharedTrie
end Mqtr
