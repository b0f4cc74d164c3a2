import Mqtr.Broker.Routing
import Mqtr.Trie.Content

/-! The subscriptions of a session, kept twice: in the session and in the trie that all sessions
share. `none` is a panic. -/
namespace Mqtr
open Outcome Std

/-- A session and the shard that hosts it. -/
structure Member where
  shardId : UInt32
  session : Session

structure Subscribers where
  live : ExtTreeMap ClientID Member
  topicFilters : Inner Subscription

inductive SubscriberEvent where
  | subscribe (clientId : ClientID) (sub : Subscribe)
  | remove (clientId : ClientID)
  deriving DecidableEq, Repr

namespace Subscribers

/-- A call is made on a session that is there. -/
def step (self : Subscribers) : SubscriberEvent → Option Subscribers
  | .subscribe clientId sub =>
    match self.live[clientId]? with
    | some member => do
      let (_, session, topicFilters) ←
        (member.session.doSubscribe member.shardId self.topicFilters sub).toOption
      some ⟨self.live.insert clientId { member with session := session }, topicFilters⟩
    | none => some self
  | .remove clientId =>
    match self.live[clientId]? with
    | some member => do
      let topicFilters ← (member.session.removeTopicFilters self.topicFilters).toOption
      some ⟨self.live.erase clientId, topicFilters⟩
    | none => some self

end Subscribers

def Subscribe.subscriptionId (self : Subscribe) : Option UInt32 :=
  (self.properties.bind SubscribeProperties.subscriptionId).map VarU32.val

def RetainForwardRule.code : RetainForwardRule → ℕ
  | .onEverySubscribe => 0
  | .onNewSubscribe => 1
  | .never => 2

/-- The options of a subscription are those of an option byte: the bits 0 and 1, 2, 3, and 4 and 5. -/
structure SubscriptionOpt.Grants (opt : SubscriptionOpt) (s : Subscription) : Prop where
  qos : s.qos.rank = opt.val.toNat % 4
  noLocal : s.noLocal = opt.val.toNat.testBit 2
  retainAsPublished : s.retainAsPublished = opt.val.toNat.testBit 3
  retainForwardRule : s.retainForwardRule.code = opt.val.toNat / 16 % 4

/-- The option byte and the subscription identifier that came with a filter. -/
abbrev Asked := SubscriptionOpt × Option UInt32

/-- One filter of a SUBSCRIBE replaces what was asked for under it. -/
def ask (subscriptionId : Option UInt32) (asked : TopicFilter → Option Asked)
    (filter : SubscribeFilter) : TopicFilter → Option Asked :=
  Function.update asked filter.topicFilter (some (filter.opt, subscriptionId))

/-- What a client asked for last, filter by filter. -/
def latestAsked (clientId : ClientID) (events : List SubscriberEvent) :
    TopicFilter → Option Asked :=
  events.foldl (fun asked event =>
    match event with
    | .subscribe c sub =>
      if c = clientId then sub.filters.foldl (ask sub.subscriptionId) asked else asked
    | .remove _ => asked) fun _ => none

namespace Subscribers

/-- The trie and the sessions agree on the subscriptions, and both have what was asked for last. -/
structure Agreement (events : List SubscriberEvent) (s : Subscribers) : Prop where
  entries : ∀ (c : ClientID) (member : Member), s.live[c]? = some member →
    ∀ (ks : List String) (v : Subscription),
      v ∈ s.topicFilters.root.valuesAt ks ∧ v.clientId = c ↔
        ∃ f : TopicFilter, member.session.subscriptions[f]? = some v ∧ iterTopicPath f = ks
  latest : ∀ (c : ClientID) (member : Member), s.live[c]? = some member → ∀ f,
    Option.Rel (fun v (asked : Asked) => asked.1.Grants v ∧ v.subscriptionId = asked.2)
      member.session.subscriptions[f]? (latestAsked c events f)
  removed : ∀ (ks : List String), ∀ v ∈ s.topicFilters.root.valuesAt ks, v.clientId ∈ s.live

end Subscribers

instance : ReflBEq Subscription where
  rfl {s} := by
    change Subscription.eq s s = true
    simp [Subscription.eq]

/-- What `SubscriptionOpt.unwrap` gives. -/
def Subscription.options (self : Subscription) : RetainForwardRule × Bool × Bool × QoS :=
  (self.retainForwardRule, self.retainAsPublished, self.noLocal, self.qos)

theorem SubscriptionOpt.bits (val : UInt8) :
    (val &&& maximumQos).toNat = val.toNat % 4 ∧
      decide (val &&& 0b00000100 > 0) = val.toNat.testBit 2 ∧
      decide (val &&& 0b00001000 > 0) = val.toNat.testBit 3 ∧
      (val >>> 4) &&& retainHandling = 0 ∧
      (val &&& retainHandling = 0 ↔ val.toNat / 16 % 4 = 0) := by
  revert val
  exact Varint.forall_byte (by decide +kernel)

theorem QoS.rank_of_tryFrom {val : UInt8} {qos : QoS} (h : (QoS.tryFrom val).unwrap = .ok qos) :
    qos.rank = val.toNat := by
  unfold QoS.tryFrom at h
  split at h
  · cases h
    rfl
  · cases h
    rfl
  · cases h
    rfl
  · cases h

/-- The two bits of retain handling are the only ones that are not read as they should be. -/
theorem SubscriptionOpt.grants_of_unwrap {opt : SubscriptionOpt} {v : Subscription}
    (h : opt.unwrap = .ok v.options) :
    v.retainForwardRule = .onEverySubscribe ∧ (opt.val &&& retainHandling = 0 → opt.Grants v) := by
  obtain ⟨hqos, hlocal, hretain, hshift, hrule⟩ := bits opt.val
  unfold unwrap at h
  obtain ⟨qos, hq, h⟩ := bind_eq_ok.mp h
  rw [hshift] at h
  simp only [ok_bind, Subscription.options, Outcome.ok.injEq, Prod.mk.injEq] at h
  obtain ⟨hr, hp, hl, hq'⟩ := h
  refine ⟨hr.symm, fun hzero => ⟨?_, ?_, ?_, ?_⟩⟩
  · rw [← hq', QoS.rank_of_tryFrom hq, hqos]
  · rw [← hl, ← hlocal]
  · rw [← hp, ← hretain]
  · rw [← hr, hrule.mp hzero]
    rfl

namespace Session

/-- A session whose subscriptions are in the trie, beside what else is there. -/
structure Mirrors (c : ClientID) (shardId : UInt32) (Other : List String → Subscription → Prop)
    (asked : TopicFilter → Option Asked) (session : Session) (inner : Inner Subscription) :
    Prop where
  kept : inner.Kept Node.InOrder
  client : session.clientId = c
  entries : ∀ (ks : List String) (v : Subscription), v ∈ inner.root.valuesAt ks ↔
    (∃ f : TopicFilter, session.subscriptions[f]? = some v ∧ iterTopicPath f = ks) ∨ Other ks v
  owned : ∀ (f : TopicFilter) (v : Subscription), session.subscriptions[f]? = some v →
    v.clientId = c ∧ v.topicFilter = f ∧ v.shardId = shardId
  latest : ∀ f : TopicFilter,
    Option.Rel (fun v (asked : Asked) => asked.1.Grants v ∧ v.subscriptionId = asked.2)
      session.subscriptions[f]? (asked f)

/-- What is subscribed under the filter already, if anything, is what is asked for again. -/
def Repeats (self : Session) (subscriptionId : Option UInt32) (filter : SubscribeFilter) : Prop :=
  ∀ old, self.subscriptions[filter.topicFilter]? = some old →
    filter.opt.unwrap = .ok old.options ∧ old.subscriptionId = subscriptionId

theorem subscribeFilter_cases {shardId : UInt32} {id : Option UInt32}
    {codes codes' : List SubAckReasonCode} {session session' : Session}
    {inner inner' : Inner Subscription} {filter : SubscribeFilter}
    (h : subscribeFilter shardId id (codes, session, inner) filter =
      .ok (codes', session', inner')) :
    ∃ v : Subscription, v.clientId = session.clientId ∧ v.topicFilter = filter.topicFilter ∧
      v.shardId = shardId ∧ v.subscriptionId = id ∧ filter.opt.unwrap = .ok v.options ∧
      inner.doSubscribe filter.topicFilter v = some inner' ∧
      session' =
        { session with subscriptions := session.subscriptions.insert filter.topicFilter v } := by
  obtain ⟨⟨rule, retainAsPublished, noLocal, qos⟩, hopt, h⟩ := bind_eq_ok.mp h
  obtain ⟨topicFilters, hsub, h⟩ := bind_eq_ok.mp h
  obtain ⟨serverQos, -, h⟩ := bind_eq_ok.mp h
  cases h
  refine ⟨⟨filter.topicFilter, session.clientId, shardId, id, qos, noLocal, retainAsPublished,
    rule⟩, rfl, rfl, rfl, rfl, hopt, ?_, rfl⟩
  exact ofOption_eq_ok.mp hsub

section Mirrors
variable {c : ClientID} {shardId : UInt32} {Other : List String → Subscription → Prop}
  {asked : TopicFilter → Option Asked} {session session' : Session}
  {inner inner' : Inner Subscription}

/-- A subscription that repeats an earlier one of its filter is the same in all its fields. -/
theorem Mirrors.eq_of_repeats {id : Option UInt32} {filter : SubscribeFilter} {v old : Subscription}
    (h : Mirrors c shardId Other asked session inner) (hrep : session.Repeats id filter)
    (hclient : v.clientId = c) (hfilter : v.topicFilter = filter.topicFilter)
    (hshard : v.shardId = shardId) (hid : v.subscriptionId = id)
    (hopt : filter.opt.unwrap = .ok v.options)
    (hold : session.subscriptions[filter.topicFilter]? = some old) : old = v := by
  obtain ⟨hunwrap, hid'⟩ := hrep old hold
  obtain ⟨hc, hf, hsh⟩ := h.owned _ old hold
  have hoptions : old.options = v.options := Outcome.ok.inj (hunwrap.symm.trans hopt)
  cases old
  cases v
  simp_all [Subscription.options]

theorem Mirrors.subscribeFilter {id : Option UInt32} {codes codes' : List SubAckReasonCode}
    {filter : SubscribeFilter} (hother : ∀ ks v, Other ks v → v.clientId ≠ c)
    (h : Mirrors c shardId Other asked session inner)
    (hbits : filter.opt.val &&& SubscriptionOpt.retainHandling = 0)
    (hrep : session.Repeats id filter)
    (hs : Session.subscribeFilter shardId id (codes, session, inner) filter =
      .ok (codes', session', inner')) :
    Mirrors c shardId Other (ask id asked filter) session' inner' := by
  obtain ⟨v, hclient, hfilter, hshard, hid, hopt, hsub, rfl⟩ := subscribeFilter_cases hs
  rw [h.client] at hclient
  have hget := OrdMap.getElem?_insert session.subscriptions filter.topicFilter (a := v)
  have hold (old : Subscription)
      (hold : session.subscriptions[filter.topicFilter]? = some old) : old = v :=
    h.eq_of_repeats hrep hclient hfilter hshard hid hopt hold
  have hsame : ∀ w ∈ inner.root.valuesAt (iterTopicPath filter.topicFilter),
      compare w v = .eq → w = v := by
    intro w hw hcmp
    obtain ⟨hc, hf⟩ := Subscription.compare_eq_iff.mp hcmp
    rcases (h.entries _ w).mp hw with ⟨f, hsubs, -⟩ | hw
    · obtain ⟨-, hwf, -⟩ := h.owned f w hsubs
      have hff : f = filter.topicFilter := by rw [← hwf, hf, hfilter]
      exact hold w (hff ▸ hsubs)
    · exact absurd (hc.trans hclient) (hother _ w hw)
  constructor
  · exact h.kept.doSubscribe hsub
  · exact h.client
  · intro ks u
    rw [Inner.mem_doSubscribe h.kept hsub hsame, h.entries]
    simp only [hget]
    constructor
    · rintro ((⟨f, hf, rfl⟩ | hu) | ⟨rfl, rfl⟩)
      · by_cases hff : filter.topicFilter = f
        · refine .inl ⟨f, ?_, rfl⟩
          rw [if_pos hff, hold u (hff ▸ hf)]
        · exact .inl ⟨f, by rw [if_neg hff, hf], rfl⟩
      · exact .inr hu
      · exact .inl ⟨filter.topicFilter, if_pos rfl, rfl⟩
    · rintro (⟨f, hf, rfl⟩ | hu)
      · split_ifs at hf with hff
        · subst hff
          exact .inr ⟨rfl, (Option.some.inj hf).symm⟩
        · exact .inl (.inl ⟨f, hf, rfl⟩)
      · exact .inl (.inr hu)
  · intro f u hu
    rw [hget] at hu
    split_ifs at hu with hff
    · obtain rfl := Option.some.inj hu
      exact ⟨hclient, hfilter.trans hff, hshard⟩
    · exact h.owned f u hu
  · intro f
    simp only [hget, ask, Function.update_apply, eq_comm (a := f)]
    split_ifs with hff
    · exact .some ⟨(SubscriptionOpt.grants_of_unwrap hopt).2 hbits, hid⟩
    · exact h.latest f

/-- The filters of a packet one after another. -/
theorem Mirrors.subscribeFilters {id : Option UInt32} {codes codes' : List SubAckReasonCode}
    {filters : List SubscribeFilter} (hother : ∀ ks v, Other ks v → v.clientId ≠ c)
    (h : Mirrors c shardId Other asked session inner)
    (hbits : ∀ filter ∈ filters, filter.opt.val &&& SubscriptionOpt.retainHandling = 0)
    (hrep : ∀ filter ∈ filters, session.Repeats id filter)
    (hpair : ∀ a ∈ filters, ∀ b ∈ filters, a.topicFilter = b.topicFilter →
      a.opt.unwrap = b.opt.unwrap)
    (hs : filters.foldlM (Session.subscribeFilter shardId id) (codes, session, inner) =
      .ok (codes', session', inner')) :
    Mirrors c shardId Other (filters.foldl (ask id) asked) session' inner' := by
  induction filters generalizing asked codes session inner with
  | nil =>
    cases hs
    exact h
  | cons first rest ih =>
    rw [List.foldlM_cons] at hs
    obtain ⟨⟨codes₁, session₁, inner₁⟩, hfirst, hs⟩ := bind_eq_ok.mp hs
    have h₁ := h.subscribeFilter hother (hbits first (by simp)) (hrep first (by simp)) hfirst
    refine ih h₁ (fun filter hf => hbits filter (by simp [hf])) ?_
      (fun a ha b hb => hpair a (by simp [ha]) b (by simp [hb])) hs
    intro filter hf old hold
    obtain ⟨v, -, -, -, hid, hopt, -, rfl⟩ := subscribeFilter_cases hfirst
    rw [OrdMap.getElem?_insert] at hold
    split_ifs at hold with hsame
    · obtain rfl := Option.some.inj hold
      refine ⟨?_, hid⟩
      rw [← hopt]
      exact hpair filter (by simp [hf]) first (by simp) hsame.symm
    · exact hrep filter (by simp [hf]) old hold

/-- Unsubscribing the first of the session's subscriptions leaves the rest. -/
theorem unsubscribe_first {e : TopicFilter × Subscription}
    {rest : List (TopicFilter × Subscription)} (hother : ∀ ks v, Other ks v → v.clientId ≠ c)
    (hfresh : ∀ e' ∈ rest, ¬ compare e.1 e'.1 = .eq)
    (howned : ∀ e' ∈ e :: rest, e'.2.clientId = c ∧ e'.2.topicFilter = e'.1)
    (hkept : inner.Kept Node.InOrder)
    (hentries : ∀ (ks : List String) (v : Subscription), v ∈ inner.root.valuesAt ks ↔
      (∃ e' ∈ e :: rest, e'.2 = v ∧ iterTopicPath e'.1 = ks) ∨ Other ks v)
    (hfirst : inner.doUnsubscribe e.1 e.2 = some inner') (ks : List String) (v : Subscription) :
    v ∈ inner'.root.valuesAt ks ↔
      (∃ e' ∈ rest, e'.2 = v ∧ iterTopicPath e'.1 = ks) ∨ Other ks v := by
  obtain ⟨hc, hf⟩ := howned e (by simp)
  have hmem : e.2 ∈ inner.root.valuesAt (iterTopicPath e.1) :=
    (hentries _ _).mpr (.inl ⟨e, by simp, rfl, rfl⟩)
  rw [Inner.mem_doUnsubscribe hkept hfirst hmem, hentries]
  constructor
  · rintro ⟨⟨e', he', rfl, rfl⟩ | hv, hne⟩
    · rcases List.mem_cons.mp he' with rfl | he'
      · exact absurd ⟨rfl, rfl⟩ hne
      · exact .inl ⟨e', he', rfl, rfl⟩
    · exact .inr hv
  · rintro (⟨e', he', rfl, rfl⟩ | hv)
    · refine ⟨.inl ⟨e', by simp [he'], rfl, rfl⟩, ?_⟩
      rintro ⟨-, heq⟩
      have hsame : e.1 = e'.1 := by
        rw [← hf, ← (howned e' (by simp [he'])).2, heq]
      exact hfresh e' he' (LawfulEqCmp.compare_eq_iff_eq.mpr hsame)
    · refine ⟨.inr hv, ?_⟩
      rintro ⟨-, rfl⟩
      exact hother ks _ hv hc

/-- Unsubscribing what a list holds of the session's subscriptions leaves none of them. -/
theorem unsubscribe_entries {entries : List (TopicFilter × Subscription)}
    (hother : ∀ ks v, Other ks v → v.clientId ≠ c)
    (hkeys : entries.Pairwise fun a b => ¬ compare a.1 b.1 = .eq)
    (howned : ∀ e ∈ entries, e.2.clientId = c ∧ e.2.topicFilter = e.1)
    (hkept : inner.Kept Node.InOrder)
    (hentries : ∀ (ks : List String) (v : Subscription), v ∈ inner.root.valuesAt ks ↔
      (∃ e ∈ entries, e.2 = v ∧ iterTopicPath e.1 = ks) ∨ Other ks v)
    (hs : entries.foldlM (fun (inner : Inner Subscription) (entry : TopicFilter × Subscription) =>
      inner.doUnsubscribe entry.1 entry.2) inner = some inner') :
    inner'.Kept Node.InOrder ∧ ∀ ks v, v ∈ inner'.root.valuesAt ks ↔ Other ks v := by
  induction entries generalizing inner with
  | nil =>
    cases hs
    exact ⟨hkept, by simpa using hentries⟩
  | cons e rest ih =>
    rw [List.foldlM_cons] at hs
    obtain ⟨inner₁, hfirst, hs⟩ := Option.bind_eq_some_iff.mp hs
    obtain ⟨hfresh, hkeys⟩ := List.pairwise_cons.mp hkeys
    refine ih hkeys (fun e' he' => howned e' (by simp [he'])) (hkept.doUnsubscribe hfirst) ?_ hs
    exact unsubscribe_first hother hfresh howned hkept hentries hfirst

theorem Mirrors.removeTopicFilters (hother : ∀ ks v, Other ks v → v.clientId ≠ c)
    (h : Mirrors c shardId Other asked session inner)
    (hs : session.removeTopicFilters inner = .ok inner') :
    inner'.Kept Node.InOrder ∧ ∀ ks v, v ∈ inner'.root.valuesAt ks ↔ Other ks v := by
  have hlist (f : TopicFilter) (v : Subscription) :
      (f, v) ∈ session.subscriptions.toList ↔ session.subscriptions[f]? = some v :=
    ExtTreeMap.mem_toList_iff_getElem?_eq_some
  refine unsubscribe_entries hother ExtTreeMap.distinct_keys_toList ?_ h.kept ?_
    (ofOption_eq_ok.mp hs)
  · rintro ⟨f, v⟩ he
    obtain ⟨hc, hf, -⟩ := h.owned f v ((hlist f v).mp he)
    exact ⟨hc, hf⟩
  · intro ks v
    rw [h.entries]
    constructor
    · rintro (⟨f, hf, hks⟩ | hv)
      · exact .inl ⟨(f, v), (hlist f v).mpr hf, rfl, hks⟩
      · exact .inr hv
    · rintro (⟨⟨f, v'⟩, he, rfl, hks⟩ | hv)
      · exact .inl ⟨f, (hlist f v').mp he, hks⟩
      · exact .inr hv

end Mirrors
end Session

namespace Subscribers

/-- What is subscribed by other sessions than a client's. -/
def Elsewhere (s : Subscribers) (c : ClientID) (ks : List String) (v : Subscription) : Prop :=
  ∃ (c' : ClientID) (member : Member) (f : TopicFilter), c' ≠ c ∧ s.live[c']? = some member ∧
    member.session.subscriptions[f]? = some v ∧ iterTopicPath f = ks

structure Inv (events : List SubscriberEvent) (s : Subscribers) : Prop where
  kept : s.topicFilters.Kept Node.InOrder
  entries : ∀ (ks : List String) (v : Subscription), v ∈ s.topicFilters.root.valuesAt ks ↔
    ∃ (c : ClientID) (member : Member) (f : TopicFilter), s.live[c]? = some member ∧
      member.session.subscriptions[f]? = some v ∧ iterTopicPath f = ks
  client : ∀ (c : ClientID) (member : Member), s.live[c]? = some member →
    member.session.clientId = c
  owned : ∀ (c : ClientID) (member : Member), s.live[c]? = some member →
    ∀ (f : TopicFilter) (v : Subscription), member.session.subscriptions[f]? = some v →
      v.clientId = c ∧ v.topicFilter = f ∧ v.shardId = member.shardId
  latest : ∀ (c : ClientID) (member : Member), s.live[c]? = some member → ∀ f : TopicFilter,
    Option.Rel (fun v (asked : Asked) => asked.1.Grants v ∧ v.subscriptionId = asked.2)
      member.session.subscriptions[f]? (latestAsked c events f)

theorem Inv.agreement {events : List SubscriberEvent} {s : Subscribers} (h : s.Inv events) :
    s.Agreement events := by
  refine ⟨fun c member hm ks v => ?_, h.latest, fun ks v hv => ?_⟩
  · rw [h.entries]
    constructor
    · rintro ⟨⟨c', member', f, hm', hf, hks⟩, hc⟩
      obtain rfl : c' = c := (h.owned c' member' hm' f v hf).1.symm.trans hc
      obtain rfl := Option.some.inj (hm.symm.trans hm')
      exact ⟨f, hf, hks⟩
    · rintro ⟨f, hf, hks⟩
      exact ⟨⟨c, member, f, hm, hf, hks⟩, (h.owned c member hm f v hf).1⟩
  · obtain ⟨c, member, f, hm, hf, -⟩ := (h.entries ks v).mp hv
    rw [(h.owned c member hm f v hf).1, ExtTreeMap.mem_iff_isSome_getElem?, hm]
    rfl

theorem Inv.elsewhere_client {events : List SubscriberEvent} {s : Subscribers} (h : s.Inv events)
    (c : ClientID) (ks : List String) (v : Subscription) (hv : s.Elsewhere c ks v) :
    v.clientId ≠ c := by
  obtain ⟨c', member, f, hne, hm, hf, -⟩ := hv
  rw [(h.owned c' member hm f v hf).1]
  exact hne

theorem Inv.mirrors {events : List SubscriberEvent} {s : Subscribers} (h : s.Inv events)
    {c : ClientID} {member : Member} (hm : s.live[c]? = some member) :
    Session.Mirrors c member.shardId (s.Elsewhere c) (latestAsked c events) member.session
      s.topicFilters := by
  refine ⟨h.kept, h.client c member hm, fun ks v => ?_, h.owned c member hm,
    h.latest c member hm⟩
  rw [h.entries]
  constructor
  · rintro ⟨c', member', f, hm', hf, hks⟩
    by_cases hc : c' = c
    · subst hc
      obtain rfl := Option.some.inj (hm.symm.trans hm')
      exact .inl ⟨f, hf, hks⟩
    · exact .inr ⟨c', member', f, hc, hm', hf, hks⟩
  · rintro (⟨f, hf, hks⟩ | ⟨c', member', f, -, hm', hf, hks⟩)
    · exact ⟨c, member, f, hm, hf, hks⟩
    · exact ⟨c', member', f, hm', hf, hks⟩

/-- A SUBSCRIBE that leaves the retain handling at its default and asks for nothing new under a
filter that is subscribed. -/
def Consistent (self : Subscribers) : SubscriberEvent → Prop
  | .subscribe clientId sub =>
    (∀ filter ∈ sub.filters, filter.opt.val &&& SubscriptionOpt.retainHandling = 0) ∧
    (∀ a ∈ sub.filters, ∀ b ∈ sub.filters, a.topicFilter = b.topicFilter →
      a.opt.unwrap = b.opt.unwrap) ∧
    ∀ member, self.live[clientId]? = some member → ∀ filter ∈ sub.filters,
      member.session.Repeats sub.subscriptionId filter
  | .remove _ => True

theorem latestAsked_append (c : ClientID) (events : List SubscriberEvent)
    (event : SubscriberEvent) :
    latestAsked c (events ++ [event]) =
      match event with
      | .subscribe c' sub =>
        if c' = c then sub.filters.foldl (ask sub.subscriptionId) (latestAsked c events)
        else latestAsked c events
      | .remove _ => latestAsked c events := by
  simp only [latestAsked, List.foldl_append, List.foldl_cons, List.foldl_nil]

/-- An event of one client leaves what the others asked for. -/
theorem latestAsked_other {c c' : ClientID} (hne : c' ≠ c) (events : List SubscriberEvent)
    (sub : Subscribe) :
    latestAsked c' (events ++ [.subscribe c sub]) = latestAsked c' events := by
  rw [latestAsked_append]
  exact if_neg (Ne.symm hne)

theorem Inv.subscribed {events : List SubscriberEvent} {s : Subscribers} (h : s.Inv events)
    {c : ClientID} {member : Member} {sub : Subscribe} {session : Session}
    {inner : Inner Subscription}
    (hmirrors : Session.Mirrors c member.shardId (s.Elsewhere c)
      (latestAsked c (events ++ [.subscribe c sub])) session inner) :
    Inv (events ++ [.subscribe c sub])
      ⟨s.live.insert c { member with session := session }, inner⟩ := by
  have hget := OrdMap.getElem?_insert s.live c (a := { member with session := session })
  constructor
  · exact hmirrors.kept
  · intro ks v
    rw [hmirrors.entries]
    simp only [hget]
    constructor
    · rintro (⟨f, hf, hks⟩ | ⟨c', member', f, hne, hm', hf, hks⟩)
      · exact ⟨c, _, f, if_pos rfl, hf, hks⟩
      · exact ⟨c', member', f, by rw [if_neg (Ne.symm hne), hm'], hf, hks⟩
    · rintro ⟨c', member', f, hm', hf, hks⟩
      split_ifs at hm' with hc
      · obtain rfl := Option.some.inj hm'
        exact .inl ⟨f, hf, hks⟩
      · exact .inr ⟨c', member', f, Ne.symm hc, hm', hf, hks⟩
  · intro c' member' hm'
    rw [hget] at hm'
    split_ifs at hm' with hc
    · obtain rfl := Option.some.inj hm'
      exact hmirrors.client.trans hc
    · exact h.client c' member' hm'
  · intro c' member' hm'
    rw [hget] at hm'
    split_ifs at hm' with hc
    · obtain rfl := Option.some.inj hm'
      subst hc
      exact hmirrors.owned
    · exact h.owned c' member' hm'
  · intro c' member' hm'
    rw [hget] at hm'
    split_ifs at hm' with hc
    · obtain rfl := Option.some.inj hm'
      subst hc
      exact hmirrors.latest
    · rw [latestAsked_other (Ne.symm hc)]
      exact h.latest c' member' hm'

theorem Inv.unsubscribed {events : List SubscriberEvent} {s : Subscribers} (h : s.Inv events)
    {c : ClientID} {inner : Inner Subscription} (hkept : inner.Kept Node.InOrder)
    (hentries : ∀ ks v, v ∈ inner.root.valuesAt ks ↔ s.Elsewhere c ks v) :
    Inv (events ++ [.remove c]) ⟨s.live.erase c, inner⟩ := by
  have hget := OrdMap.getElem?_erase s.live c
  have hlive {c' : ClientID} {member : Member} (hm : (s.live.erase c)[c']? = some member) :
      c' ≠ c ∧ s.live[c']? = some member := by
    rw [hget] at hm
    split_ifs at hm with hc
    exact ⟨Ne.symm hc, hm⟩
  refine ⟨hkept, fun ks v => ?_, fun c' member hm => h.client c' member (hlive hm).2,
    fun c' member hm => h.owned c' member (hlive hm).2, fun c' member hm => ?_⟩
  · rw [hentries]
    constructor
    · rintro ⟨c', member, f, hne, hm, hf, hks⟩
      exact ⟨c', member, f, by rw [hget, if_neg (Ne.symm hne), hm], hf, hks⟩
    · rintro ⟨c', member, f, hm, hf, hks⟩
      exact ⟨c', member, f, (hlive hm).1, (hlive hm).2, hf, hks⟩
  · rw [latestAsked_append]
    exact h.latest c' member (hlive hm).2

/-- An event of a client without a session changes nothing. -/
theorem Inv.idle {events : List SubscriberEvent} {s : Subscribers} (h : s.Inv events)
    {event : SubscriberEvent}
    (hlatest : ∀ c ∈ s.live, latestAsked c (events ++ [event]) = latestAsked c events) :
    s.Inv (events ++ [event]) := by
  refine ⟨h.kept, h.entries, h.client, h.owned, fun c member hm => ?_⟩
  rw [hlatest c (ExtTreeMap.mem_iff_isSome_getElem?.mpr (by simp [hm]))]
  exact h.latest c member hm

theorem step_inv {events : List SubscriberEvent} {s s' : Subscribers} {event : SubscriberEvent}
    (h : s.Inv events) (hcons : s.Consistent event) (hs : s.step event = some s') :
    s'.Inv (events ++ [event]) := by
  cases event with
  | subscribe c sub =>
    obtain ⟨hbits, hpair, hrep⟩ := hcons
    simp only [step] at hs
    cases hm : s.live[c]? with
    | none =>
      rw [hm] at hs
      obtain rfl := Option.some.inj hs
      refine h.idle fun c' hc' => latestAsked_other ?_ events sub
      rintro rfl
      rw [ExtTreeMap.mem_iff_isSome_getElem?, hm] at hc'
      cases hc'
    | some member =>
      rw [hm] at hs
      obtain ⟨⟨msgs, session, inner⟩, hsub, hs⟩ := Option.bind_eq_some_iff.mp hs
      obtain rfl := Option.some.inj hs
      obtain ⟨⟨codes, session₁, inner₁⟩, hfold, hdone⟩ := bind_eq_ok.mp (toOption_eq_some.mp hsub)
      cases hdone
      apply h.subscribed
      have hmirrors := (h.mirrors hm).subscribeFilters (h.elsewhere_client c) hbits
        (hrep member hm) hpair hfold
      rw [latestAsked_append]
      simpa using hmirrors
  | remove c =>
    simp only [step] at hs
    cases hm : s.live[c]? with
    | none =>
      rw [hm] at hs
      obtain rfl := Option.some.inj hs
      exact h.idle fun c' _ => latestAsked_append c' events _
    | some member =>
      rw [hm] at hs
      obtain ⟨inner, hremove, hs⟩ := Option.bind_eq_some_iff.mp hs
      obtain rfl := Option.some.inj hs
      obtain ⟨hkept, hentries⟩ := (h.mirrors hm).removeTopicFilters (h.elsewhere_client c)
        (toOption_eq_some.mp hremove)
      exact h.unsubscribed hkept hentries

/-- An empty trie, and sessions without subscriptions under their own client identifiers. -/
structure Fresh (s : Subscribers) : Prop where
  empty : s.topicFilters = Inner.default
  client : ∀ (c : ClientID) (member : Member), s.live[c]? = some member →
    member.session.clientId = c ∧ member.session.subscriptions = ∅

theorem Fresh.inv {s : Subscribers} (h : s.Fresh) : s.Inv [] := by
  have hempty (ks : List String) : s.topicFilters.root.valuesAt ks = [] := by
    rw [h.empty]
    cases ks <;> rfl
  refine ⟨?_, fun ks v => ?_, fun c member hm => (h.client c member hm).1,
    fun c member hm f v hf => ?_, fun c member hm f => ?_⟩
  · rw [h.empty]
    exact Inner.kept_default List.Pairwise.nil
  · rw [hempty]
    constructor
    · intro hv
      simp at hv
    · rintro ⟨c, member, f, hm, hf, -⟩
      simp [(h.client c member hm).2] at hf
  · simp [(h.client c member hm).2] at hf
  · rw [(h.client c member hm).2, ExtTreeMap.getElem?_empty]
    exact .none

/-- The two stores agree after every run whose SUBSCRIBE packets are consistent. -/
theorem agreement_of_consistent {s₀ s : Subscribers} {events : List SubscriberEvent}
    (hfresh : s₀.Fresh) (hcons : Transition.Along step Consistent s₀ events)
    (hrun : Transition.run step s₀ events = some s) : s.Agreement events :=
  Inv.agreement (Transition.run_history (P := fun hist s => s.Inv hist)
    (fun _ _ _ _ h hc hs => step_inv h hc hs) [] hfresh.inv hcons hrun)

/-- A session of one client, and nothing subscribed. -/
def aliceOnly : Subscribers := ⟨(∅ : ExtTreeMap ClientID Member).insert ⟨"alice"⟩
  ⟨0, Session.idle "alice"⟩, Inner.default⟩

theorem aliceOnly_fresh : aliceOnly.Fresh := by
  refine ⟨rfl, fun c member hm => ?_⟩
  simp only [aliceOnly, ExtTreeMap.getElem?_insert, ExtTreeMap.getElem?_empty] at hm
  split_ifs at hm with hc
  obtain rfl := Option.some.inj hm
  exact ⟨LawfulEqCmp.eq_of_compare hc, rfl⟩

def subscribeNews (opt : UInt8) : Subscribe := ⟨1, none, [⟨⟨"news"⟩, ⟨opt⟩⟩]⟩

theorem agreement_of_consistent_removed :
    ∃ s, Transition.run step aliceOnly
        [.subscribe ⟨"alice"⟩ (subscribeNews 0), .remove ⟨"alice"⟩] = some s ∧
      s.Agreement [.subscribe ⟨"alice"⟩ (subscribeNews 0), .remove ⟨"alice"⟩] := by
  obtain ⟨s, hrun⟩ := Option.isSome_iff_exists.mp (show (Transition.run step aliceOnly
    [.subscribe ⟨"alice"⟩ (subscribeNews 0), .remove ⟨"alice"⟩]).isSome by decide)
  refine ⟨s, hrun, agreement_of_consistent aliceOnly_fresh ⟨⟨?_, ?_, ?_⟩, ?_⟩ hrun⟩
  · simp [subscribeNews]
  · simp [subscribeNews]
  · intro member hm filter _ old hold
    rw [(aliceOnly_fresh.client _ member hm).2, ExtTreeMap.getElem?_empty] at hold
    cases hold
  · cases aliceOnly.step (.subscribe ⟨"alice"⟩ (subscribeNews 0)) with
    | none => trivial
    | some t =>
      refine ⟨trivial, ?_⟩
      cases t.step (.remove ⟨"alice"⟩) <;> trivial

/-- The SUBSCRIBE of an event comes from the wire. -/
def Decoded : SubscriberEvent → Prop
  | .subscribe _ sub => ∃ stream n, (Packetize.decode stream : Result (Subscribe × ℕ)) = .ok (sub, n)
  | .remove _ => True

theorem subscribeNews_decoded (opt : UInt8) (hopt : opt = 0 ∨ opt = 1) :
    Decoded (.subscribe ⟨"alice"⟩ (subscribeNews opt)) := by
  refine ⟨[0x82, 10, 0, 1, 0, 0, 4, 110, 101, 119, 115, opt], 12, ?_⟩
  rcases hopt with rfl | rfl <;> decide +kernel

/-- A client that asks for a higher QoS and leaves stays subscribed. -/
theorem resubscription_left_behind :
    ¬ ∀ (s₀ s : Subscribers) (events : List SubscriberEvent), s₀.Fresh →
      (∀ event ∈ events, Decoded event) → Transition.run step s₀ events = some s →
      s.Agreement events := by
  intro h
  have hleft : (Transition.run step aliceOnly [.subscribe ⟨"alice"⟩ (subscribeNews 0),
      .subscribe ⟨"alice"⟩ (subscribeNews 1), .remove ⟨"alice"⟩]).any fun s =>
        (s.topicFilters.root.valuesAt ["news"]).any fun v => decide (v.clientId ∉ s.live) := by
    decide
  obtain ⟨s, hrun, hany⟩ := (Option.any_eq_true _ _).mp hleft
  obtain ⟨v, hv, hgone⟩ := List.any_eq_true.mp hany
  refine of_decide_eq_true hgone ((h _ s _ aliceOnly_fresh ?_ hrun).removed _ v hv)
  simp only [List.forall_mem_cons, List.not_mem_nil, false_implies, implies_true, and_true]
  exact ⟨subscribeNews_decoded 0 (.inl rfl), subscribeNews_decoded 1 (.inr rfl), trivial⟩

end Subscribers
end Mqtr
