import Mqtr.Broker.Fanout
import Mqtr.Broker.Removal

/-! Who gets a PUBLISH, after sessions have subscribed and left: the trie that is searched and the sessions
that are there are two records of the same subscriptions. This is about the functions. A running shard
comes to `do_subscribe` and to the fan-out with `Inner::Init` in its place, and aborts in
`as_topic_filters`. -/
namespace Mqtr
open Outcome Std Transition

/-- The search for a topic name comes to the filter: the filter matches, does not begin with a wildcard,
and has no `#` that would have to stand for the parent level. -/
def TopicFilter.FoundFor (f : TopicFilter) (t : TopicName) : Prop :=
  filterMatches (iterTopicPath f) t ∧ (iterTopicPath f : List String).head?.any isWildcard = false ∧
    (iterTopicPath f : List String).length ≤ (iterTopicPath t : List String).length

instance (f : TopicFilter) (t : TopicName) : Decidable (f.FoundFor t) :=
  inferInstanceAs (Decidable (filterMatches (iterTopicPath f) t ∧
    (iterTopicPath f : List String).head?.any isWildcard = false ∧
    (iterTopicPath f : List String).length ≤ (iterTopicPath t : List String).length))

/-- The search returns what it finds under the paths it walks. -/
theorem Inner.Kept.matchTopicName {inner : Inner Subscription} (h : inner.Kept Node.InOrder)
    (t : TopicName) : ∃ inner', inner.matchTopicName t =
      some ((inner.root.matchPaths true (iterTopicPath t)).map Prod.snd, inner') := by
  have hmatch := Node.matchTopic_eq true (iterTopicPath t) (h.kept.sorted fun _ => id)
  simp only [t.levels_ne_nil, false_and, if_false] at hmatch
  exact ⟨_, by rw [Inner.matchTopicName, hmatch]; rfl⟩

theorem Inner.Kept.mem_matchPaths {inner : Inner Subscription} (h : inner.Kept Node.InOrder)
    {t : TopicName} (ht : t.validate = .ok ()) {f : TopicFilter} {v : Subscription} :
    (iterTopicPath f, v) ∈ inner.root.matchPaths true (iterTopicPath t) ↔
      v ∈ inner.root.valuesAt (iterTopicPath f) ∧ f.FoundFor t := by
  rw [Node.mem_matchPaths true (t.levels_plain ht) (h.kept.sorted fun _ => id),
    Node.walks_iff (t.levels_plain ht)]
  simp only [h.isRoot, TopicFilter.FoundFor, filterMatches, forall_const, Bool.and_eq_true,
    Bool.not_eq_true']
  constructor
  · rintro ⟨hv, ⟨hmatch, hlen⟩, hplain⟩
    exact ⟨hv, ⟨hmatch, by simp [hplain]⟩, hplain, hlen⟩
  · rintro ⟨hv, ⟨hmatch, -⟩, hplain, hlen⟩
    exact ⟨hv, ⟨hmatch, hlen⟩, hplain⟩

namespace Subscribers
variable {s : Subscribers} {events : List SubscriberEvent} {v : Subscription}

/-- A session that is there has the subscription, under the filter. -/
def Live (s : Subscribers) (f : TopicFilter) (v : Subscription) : Prop :=
  ∃ member, s.live[v.clientId]? = some member ∧ member.session.subscriptions[f]? = some v

theorem Inv.mem_valuesAt_iff_live (h : s.Inv events) {ks : List String} :
    v ∈ s.topicFilters.root.valuesAt ks ↔
      s.Live v.topicFilter v ∧ iterTopicPath v.topicFilter = ks := by
  rw [h.entries]
  constructor
  · rintro ⟨c, member, f, hm, hf, hks⟩
    obtain ⟨rfl, rfl, -⟩ := h.owned c member hm f v hf
    exact ⟨⟨member, hm, hf⟩, hks⟩
  · rintro ⟨⟨member, hm, hf⟩, hks⟩
    exact ⟨v.clientId, member, _, hm, hf, hks⟩

/-- The subscriptions that match are those of live sessions under filters that are found, each once. -/
theorem Inv.matched (h : s.Inv events) {t : TopicName} (ht : t.validate = .ok ()) :
    ∃ matched inner, s.topicFilters.matchTopicName t = some (matched, inner) ∧ matched.Nodup ∧
      ∀ v, v ∈ matched ↔ s.Live v.topicFilter v ∧ v.topicFilter.FoundFor t := by
  have hsorted := h.kept.kept.sorted fun _ hvals => hvals
  -- a subscription is found under the path of its own filter only
  have hpath {p : List String} {v : Subscription}
      (hp : (p, v) ∈ s.topicFilters.root.matchPaths true (iterTopicPath t)) :
      iterTopicPath v.topicFilter = p := by
    have hstored := ((Node.mem_matchPaths true (t.levels_plain ht) hsorted).mp hp).1
    exact (h.mem_valuesAt_iff_live.mp hstored).2
  obtain ⟨inner, hmatch⟩ := h.kept.matchTopicName t
  refine ⟨_, inner, hmatch, ?_, fun v => ?_⟩
  · refine (Node.matchPaths_nodup true _ hsorted).map_on ?_
    rintro ⟨p, v⟩ hp ⟨q, w⟩ hq hvw
    obtain rfl : v = w := hvw
    rw [← hpath hp, ← hpath hq]
  · have hfound : v ∈ (s.topicFilters.root.matchPaths true (iterTopicPath t)).map Prod.snd ↔
        (iterTopicPath v.topicFilter, v) ∈ s.topicFilters.root.matchPaths true (iterTopicPath t) := by
      constructor
      · intro hv
        obtain ⟨⟨p, w⟩, hp, rfl⟩ := List.mem_map.mp hv
        rw [hpath hp]
        exact hp
      · intro hp
        exact List.mem_map.mpr ⟨_, hp, rfl⟩
    rw [hfound, h.kept.mem_matchPaths ht, h.mem_valuesAt_iff_live]
    simp

end Subscribers
end Mqtr
