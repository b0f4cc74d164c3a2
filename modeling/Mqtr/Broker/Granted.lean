import Mqtr.Trie.Lookup
import Mqtr.Broker.Fanout

/-! The quality of service that a SUBACK grants, against the one with which the subscription is served. The
trie keeps the entry that a client already has under a filter, so that the entry under a filter may be an
older one than the subscription that was just granted. -/
namespace Mqtr
open Outcome Std

/-- The entry of the client under the filter: what is found of it when a topic matches the filter. -/
def Inner.Entry (inner : Inner Subscription) (c : ClientID) (f : TopicFilter) (w : Subscription) : Prop :=
  w ∈ inner.view (iterTopicPath f) ∧ w.clientId = c ∧ w.topicFilter = f

theorem TopicFilter.iterTopicPath_inj {t t' : TopicFilter}
    (h : (iterTopicPath t : List String) = iterTopicPath t') : t = t' := by
  cases t
  cases t'
  exact congrArg TopicFilter.mk (splitLevels_injective h)

namespace Inner
variable {inner inner' : Inner Subscription}

theorem Entry.unique {c : ClientID} {f : TopicFilter} {w w' : Subscription}
    (hi : inner.Kept Node.InOrder) (h : inner.Entry c f w) (h' : inner.Entry c f w') : w = w' := by
  have horder := hi.kept.valuesAt List.Pairwise.nil (iterTopicPath f)
  refine horder.eq_of_compare h.1 h'.1 (Subscription.compare_eq_iff.mpr ⟨?_, ?_⟩)
  · rw [h.2.1, h'.2.1]
  · rw [h.2.2, h'.2.2]

/-- A value that was there before keeps its place, and the entries are the same. -/
theorem entry_of_valuesAt_eq {c : ClientID} {f : TopicFilter} {w : Subscription}
    (h : inner'.root.valuesAt (iterTopicPath f) = inner.root.valuesAt (iterTopicPath f)) :
    inner'.Entry c f w ↔ inner.Entry c f w := by
  unfold Entry view
  rw [h]

/-- A value that is put between those before and after it is one more entry. -/
theorem entry_of_valuesAt_insert {c : ClientID} {f : TopicFilter} {v w : Subscription}
    {l r : List Subscription} (h : inner.root.valuesAt (iterTopicPath f) = l ++ r)
    (h' : inner'.root.valuesAt (iterTopicPath f) = l ++ v :: r) (hv : v.topicFilter = f) :
    inner'.Entry c f w ↔ inner.Entry c f w ∨ c = v.clientId ∧ w = v := by
  unfold Entry view
  rw [h, h']
  simp only [List.mem_append, List.mem_cons]
  constructor
  · rintro ⟨hw | rfl | hw, hc, hfw⟩
    · exact .inl ⟨.inl hw, hc, hfw⟩
    · exact .inr ⟨hc.symm, rfl⟩
    · exact .inl ⟨.inr hw, hc, hfw⟩
  · rintro (⟨hw | hw, hc, hfw⟩ | ⟨rfl, rfl⟩)
    · exact ⟨.inl hw, hc, hfw⟩
    · exact ⟨.inr (.inr hw), hc, hfw⟩
    · exact ⟨.inr (.inl rfl), rfl, hv⟩

/-- Subscribing adds an entry unless there is one of the client under the filter. -/
theorem entry_doSubscribe {f f' : TopicFilter} {c : ClientID} {v w : Subscription}
    (hi : inner.Kept Node.InOrder) (hv : v.topicFilter = f) (h : inner.doSubscribe f v = some inner') :
    inner'.Entry c f' w ↔ inner.Entry c f' w ∨
      (c = v.clientId ∧ f' = f ∧ w = v) ∧ ∀ u, ¬ inner.Entry v.clientId f u := by
  obtain ⟨⟨first, rep⟩, hedit, hrest, -⟩ := doSubscribe_valuesAt hi h
  by_cases hf : f' = f
  · subst hf
    cases rep with
    | true =>
      obtain ⟨-, hvs, u, hu, heq⟩ := hedit
      obtain ⟨hc, hfu⟩ := Subscription.compare_eq_iff.mp heq
      have hold : inner.Entry v.clientId f' u := ⟨hu, hc, hfu.trans hv⟩
      rw [entry_of_valuesAt_eq hvs]
      exact ⟨.inl, fun hw => hw.resolve_right fun hnew => hnew.2 u hold⟩
    | false =>
      obtain ⟨-, l, r, hvs, hvs', hl, hr⟩ := hedit
      have hnone : ∀ u, ¬ inner.Entry v.clientId f' u := by
        rintro u ⟨hu, hc, hfu⟩
        have heq : compare u v = .eq := Subscription.compare_eq_iff.mpr ⟨hc, hfu.trans hv.symm⟩
        rw [view, hvs] at hu
        rcases List.mem_append.mp hu with hu | hu
        · rw [hl u hu] at heq
          cases heq
        · rw [hr u hu] at heq
          cases heq
      rw [entry_of_valuesAt_insert hvs hvs' hv]
      simp only [hnone, not_false_eq_true, implies_true, and_true, true_and]
  · have hne : (iterTopicPath f' : List String) ≠ iterTopicPath f := fun heq =>
      hf (TopicFilter.iterTopicPath_inj heq)
    rw [entry_of_valuesAt_eq (hrest _ hne)]
    simp [hf]

end Inner

/-- The maximum quality of service that the options ask for. -/
def SubscribeFilter.requested (self : SubscribeFilter) : ℕ :=
  (self.opt.val &&& SubscriptionOpt.maximumQos).toNat

/-- The return code that grants a quality of service. -/
def SubAckReasonCode.ofQos : QoS → SubAckReasonCode
  | .atMostOnce => .qos0
  | .atLeastOnce => .qos1
  | .exactlyOnce => .qos2

theorem SubAckReasonCode.ofQos_injective : Function.Injective ofQos := by
  intro a b h
  cases a <;> cases b <;> first | rfl | cases h

theorem QoS.rank_injective : Function.Injective QoS.rank := by
  intro a b h
  cases a <;> cases b <;> first | rfl | cases h

theorem QoS.rank_max (a b : QoS) : (a.max b).rank = Nat.max a.rank b.rank := by
  cases a <;> cases b <;> rfl

theorem SubscriptionOpt.unwrap_eq (opt : SubscriptionOpt) :
    opt.unwrap = (QoS.tryFrom (opt.val &&& maximumQos)).unwrap >>= fun qos =>
      .ok (.onEverySubscribe, decide (opt.val &&& 0b00001000 > 0),
        decide (opt.val &&& 0b00000100 > 0), qos) := by
  obtain ⟨-, -, -, hshift, -⟩ := bits opt.val
  unfold unwrap
  rw [hshift]
  rfl

/-- The options can be taken apart exactly if the quality of service in them is one. -/
theorem SubscriptionOpt.unwrap_isOk_iff (opt : SubscriptionOpt) :
    (∃ options, opt.unwrap = .ok options) ↔ ∃ qos, QoS.tryFrom (opt.val &&& maximumQos) = .ok qos := by
  rw [unwrap_eq]
  cases QoS.tryFrom (opt.val &&& maximumQos) with
  | ok qos => simp [Outcome.unwrap]
  | err e => simp [Outcome.unwrap]
  | panic => simp [Outcome.unwrap]

theorem SubscribeFilter.rank_of_unwrap {filter : SubscribeFilter}
    {options : RetainForwardRule × Bool × Bool × QoS} (h : filter.opt.unwrap = .ok options) :
    options.2.2.2.rank = filter.requested := by
  rw [SubscriptionOpt.unwrap_eq] at h
  obtain ⟨qos, hqos, h⟩ := bind_eq_ok.mp h
  cases h
  exact QoS.rank_of_tryFrom hqos

namespace Session
variable {shardId : UInt32} {id : Option UInt32} {codes codes' : List SubAckReasonCode}
  {s s' : Session} {inner inner' : Inner Subscription} {filter : SubscribeFilter}

/-- The code is the greater of what the server allows and what is asked for. -/
theorem subscribeFilter_code
    (h : subscribeFilter shardId id (codes, s, inner) filter = .ok (codes', s', inner')) :
    ∃ g : QoS, codes' = codes ++ [.ofQos g] ∧
      g.rank = max s.config.mqttMaximumQos.toNat filter.requested := by
  obtain ⟨⟨rule, retainAsPublished, noLocal, qos⟩, hopt, h⟩ := bind_eq_ok.mp h
  obtain ⟨topicFilters, -, h⟩ := bind_eq_ok.mp h
  obtain ⟨serverQos, hserver, h⟩ := bind_eq_ok.mp h
  cases h
  refine ⟨serverQos.max qos, ?_, ?_⟩
  · cases serverQos.max qos <;> rfl
  · rw [QoS.rank_max, QoS.rank_of_tryFrom hserver, ← SubscribeFilter.rank_of_unwrap hopt]

/-- A filter that can be taken apart is subscribed if the server has a maximum. -/
theorem subscribeFilter_isOk (shardId : UInt32) (id : Option UInt32) (codes : List SubAckReasonCode)
    (hi : inner.Kept Node.InOrder) {serverQos : QoS}
    (hserver : s.config.serverQos = .ok serverQos)
    (hopt : ∃ options, filter.opt.unwrap = .ok options) :
    ∃ r, subscribeFilter shardId id (codes, s, inner) filter = .ok r := by
  obtain ⟨⟨rule, retainAsPublished, noLocal, qos⟩, hopt⟩ := hopt
  obtain ⟨inner', hsub⟩ := Option.isSome_iff_exists.mp
    (Inner.doSubscribe_isSome hi (TopicFilter.levels_ne_nil filter.topicFilter)
      (v := ⟨filter.topicFilter, s.clientId, shardId, id, qos, noLocal, retainAsPublished, rule⟩))
  unfold subscribeFilter
  dsimp only
  rw [hopt, ok_bind]
  dsimp only
  rw [hsub]
  simp [ofOption, hserver]

/-- A session and a trie after some filters. -/
structure Subscribed (s : Session) (inner : Inner Subscription) (filters : List SubscribeFilter)
    (codes : List SubAckReasonCode) (s' : Session) (inner' : Inner Subscription) : Prop where
  kept : inner'.Kept Node.InOrder
  config : s'.config = s.config
  clientId : s'.clientId = s.clientId
  codes : List.Forall₂ (fun (filter : SubscribeFilter) code => ∃ g : QoS, code = .ofQos g ∧
    g.rank = max s.config.mqttMaximumQos.toNat filter.requested) filters codes
  stay : ∀ f w, inner.Entry s.clientId f w → inner'.Entry s.clientId f w
  entry : ∀ filter ∈ filters, ∃ w, inner'.Entry s.clientId filter.topicFilter w
  origin : ∀ f w, inner'.Entry s.clientId f w → inner.Entry s.clientId f w ∨
    ∃ filter ∈ filters, filter.topicFilter = f ∧ w.qos.rank = filter.requested

theorem subscribeFilters_subscribed {filters : List SubscribeFilter} (hi : inner.Kept Node.InOrder)
    (h : filters.foldlM (subscribeFilter shardId id) ([], s, inner) = .ok (codes', s', inner')) :
    Subscribed s inner filters codes' s' inner' := by
  induction filters using List.reverseRecOn generalizing codes' s' inner' with
  | nil =>
    cases h
    exact ⟨hi, rfl, rfl, .nil, fun _ _ h => h, by simp, fun _ _ h => .inl h⟩
  | append_singleton filters filter ih =>
    rw [List.foldlM_append] at h
    obtain ⟨⟨codes, t, mid⟩, hmid, h⟩ := bind_eq_ok.mp h
    obtain ⟨r, hfilter, h⟩ := bind_eq_ok.mp h
    cases h
    have ht := ih hmid
    obtain ⟨g, rfl, hg⟩ := subscribeFilter_code hfilter
    obtain ⟨v, hclient, hname, -, -, hopt, hsub, rfl⟩ := subscribeFilter_cases hfilter
    rw [ht.clientId] at hclient
    have hentry {f : TopicFilter} {w : Subscription} : inner'.Entry s.clientId f w ↔
        mid.Entry s.clientId f w ∨ (s.clientId = v.clientId ∧ f = filter.topicFilter ∧ w = v) ∧
          ∀ u, ¬ mid.Entry v.clientId filter.topicFilter u :=
      Inner.entry_doSubscribe ht.kept hname hsub
    refine ⟨ht.kept.doSubscribe hsub, ht.config, ht.clientId, ?_, ?_, ?_, ?_⟩
    · rw [ht.config] at hg
      exact List.rel_append ht.codes (.cons ⟨g, rfl, hg⟩ .nil)
    · intro f w hw
      exact hentry.mpr (.inl (ht.stay f w hw))
    · intro filter' hmem
      rcases List.mem_append.mp hmem with hmem | hmem
      · obtain ⟨w, hw⟩ := ht.entry filter' hmem
        exact ⟨w, hentry.mpr (.inl hw)⟩
      · obtain rfl := List.mem_singleton.mp hmem
        by_cases hold : ∃ u, mid.Entry s.clientId filter'.topicFilter u
        · obtain ⟨u, hu⟩ := hold
          exact ⟨u, hentry.mpr (.inl hu)⟩
        · refine ⟨v, hentry.mpr (.inr ⟨⟨hclient.symm, rfl, rfl⟩, fun u hu => hold ⟨u, ?_⟩⟩)⟩
          rwa [hclient] at hu
    · intro f w hw
      rcases hentry.mp hw with hw | ⟨⟨-, rfl, rfl⟩, -⟩
      · rcases ht.origin f w hw with hw | ⟨filter', hmem, hf, hq⟩
        · exact .inl hw
        · exact .inr ⟨filter', List.mem_append_left _ hmem, hf, hq⟩
      · exact .inr ⟨filter, by simp, rfl, SubscribeFilter.rank_of_unwrap hopt⟩

theorem subscribeFilters_isOk (shardId : UInt32) (id : Option UInt32)
    {filters : List SubscribeFilter} (hi : inner.Kept Node.InOrder)
    {serverQos : QoS} (hserver : s.config.serverQos = .ok serverQos)
    (hopt : ∀ filter ∈ filters, ∃ options, filter.opt.unwrap = .ok options) :
    ∃ r, filters.foldlM (subscribeFilter shardId id) ([], s, inner) = .ok r := by
  induction filters using List.reverseRecOn with
  | nil => exact ⟨_, rfl⟩
  | append_singleton filters filter ih =>
    obtain ⟨⟨codes, t, mid⟩, hmid⟩ := ih fun f hf => hopt f (List.mem_append_left _ hf)
    have ht := subscribeFilters_subscribed hi hmid
    obtain ⟨r, hr⟩ := subscribeFilter_isOk shardId id codes ht.kept
      (ht.config ▸ hserver) (hopt filter (by simp))
    refine ⟨r, ?_⟩
    rw [List.foldlM_append, hmid, ok_bind, List.foldlM_cons, hr]
    rfl

end Session

/-- A SUBSCRIBE that was read has filters, and each asks for a quality of service. -/
theorem Subscribe.of_decode {stream : List UInt8} {sub : Subscribe} {n : ℕ}
    (h : decode stream = .ok (sub, n)) :
    sub.filters ≠ [] ∧ ∀ filter ∈ sub.filters, ∃ options, filter.opt.unwrap = .ok options := by
  obtain ⟨hdr, -, h⟩ := bind_eq_ok.mp h
  obtain ⟨⟨payload, m⟩, -, h⟩ := bind_eq_ok.mp h
  obtain ⟨filters, -, h⟩ := bind_eq_ok.mp h
  obtain ⟨_, hvalid, h⟩ := bind_eq_ok.mp h
  cases h
  obtain ⟨_, hsome, hopts⟩ := bind_eq_ok.mp hvalid
  constructor
  · have hlen := (errIf_sat _ _ _ _).of_ok hsome
    simpa using hlen
  · intro filter hmem
    obtain ⟨_, -, hopt⟩ := bind_eq_ok.mp (ok_of_mem_forM hopts hmem)
    obtain ⟨_, -, hopt⟩ := bind_eq_ok.mp hopt
    obtain ⟨qos, hqos, -⟩ := bind_eq_ok.mp hopt
    exact (SubscriptionOpt.unwrap_isOk_iff filter.opt).mpr ⟨qos, hqos⟩

namespace Session

/-- With the configuration, no PUBLISH is sent for the subscription with a higher quality of service than
`g`, and one that comes with the highest is sent with `g`. -/
def ServedAt (config : Config) (w : Subscription) (g : QoS) : Prop :=
  ∀ (t t' : Session) (c : ClientID) (shardId : UInt32) (seqno : UInt64) (packetId : UInt16)
    (subscriptions : List Subscription) (publish : Publish) (msgs : List Message), t.config = config →
    t.coutPublish (.packet c shardId seqno packetId subscriptions (.publish publish)) = .ok (msgs, t') →
    ∀ (i : ℕ) (c' : ClientID) (shardId' : UInt32) (seqno' : UInt64) (packetId' : UInt16)
      (subscriptions' : List Subscription) (q : Publish), subscriptions[i]? = some w →
      msgs[i]? = some (.packet c' shardId' seqno' packetId' subscriptions' (.publish q)) →
      q.qos.rank ≤ g.rank ∧ (publish.qos = .exactlyOnce → q.qos = g)

theorem publishFor_qos (s : Session) (clientId : ClientID) (shardId : UInt32) (serverQos : QoS)
    (publish : Publish) (subscr : Subscription) :
    ∃ seqno packetId q, (publishFor s clientId shardId serverQos publish subscr).1 =
      .packet clientId shardId seqno packetId [] (.publish q) ∧
      q.qos = (serverQos.min subscr.qos).min publish.qos := by
  refine ⟨_, _, _, rfl, ?_⟩
  rw [(Publish.addSubscriptionId_spec _ _).2.2.2]
  rfl

theorem servedAt_iff (s : Session) {serverQos : QoS} (hserver : s.config.serverQos = .ok serverQos)
    (w : Subscription) (g : QoS) : ServedAt s.config w g ↔ serverQos.min w.qos = g := by
  constructor
  · intro h
    -- a PUBLISH of the highest quality of service, for this subscription alone
    obtain ⟨seqno, packetId, q, hq, hqos⟩ := publishFor_qos s ⟨""⟩ 0 serverQos
      ⟨false, .exactlyOnce, false, ⟨""⟩, none, none, none⟩ w
    have hout := coutPublish_eq s ⟨""⟩ 0 0 0 [w] ⟨false, .exactlyOnce, false, ⟨""⟩, none, none, none⟩
    rw [hserver, ok_bind] at hout
    have hg := (h s _ _ _ _ _ _ _ _ rfl hout 0 _ _ _ _ _ q rfl (congrArg some hq)).2 rfl
    rw [← hg, hqos]
    cases serverQos.min w.qos <;> rfl
  · rintro rfl t t' c shardId seqno packetId subscriptions publish msgs hconfig hout i c' shardId' seqno'
      packetId' subscriptions' q hw hq
    rw [coutPublish_eq, hconfig, hserver, ok_bind] at hout
    obtain ⟨rfl, -⟩ := Prod.mk.inj (Outcome.ok.inj hout)
    rw [List.getElem?_mapIdx, hw] at hq
    obtain ⟨_, _, q', hq', hqos⟩ := publishFor_qos (t.afterMessages i) c shardId serverQos publish w
    have heq := hq'.symm.trans (Option.some.inj hq)
    obtain rfl := Packet.publish.inj (Message.packet.inj heq).2.2.2.2.2
    rw [hqos]
    constructor
    · rw [QoS.rank_min]
      exact Nat.min_le_left _ _
    · intro hpublish
      rw [hpublish]
      cases serverQos.min w.qos <;> rfl

/-- `do_subscribe` grants for every filter, in order, no more than it asks for and no more than the server
allows, and the client's entry under the filter is then served at what was granted. -/
def GrantsHonestly (s : Session) (shardId : UInt32) (inner : Inner Subscription) (sub : Subscribe) :
    Prop :=
  ∃ codes s' inner', s.doSubscribe shardId inner sub =
      .ok ([.clientAck (.subAck ⟨sub.packetId, none, codes⟩)], s', inner') ∧
    codes.length = sub.filters.length ∧
    ∀ (i : ℕ) (filter : SubscribeFilter), sub.filters[i]? = some filter →
      ∃ g : QoS, codes[i]? = some (.ofQos g) ∧ g.rank ≤ filter.requested ∧
        g.rank ≤ s.config.mqttMaximumQos.toNat ∧
        ∃ w, (∀ u, inner'.Entry s.clientId filter.topicFilter u ↔ u = w) ∧ ServedAt s.config w g

/-- Every filter asks for exactly what the server allows, and an entry that the client already has under it
allows as much. -/
def AsksForMaximum (s : Session) (inner : Inner Subscription) (sub : Subscribe) : Prop :=
  ∃ serverQos, s.config.serverQos = .ok serverQos ∧ ∀ filter ∈ sub.filters,
    filter.requested = serverQos.rank ∧
      ∀ old, inner.Entry s.clientId filter.topicFilter old → serverQos.rank ≤ old.qos.rank

theorem AsksForMaximum.grantsHonestly {s : Session} {inner : Inner Subscription} {sub : Subscribe}
    (hi : inner.Kept Node.InOrder)
    (hopts : ∀ filter ∈ sub.filters, ∃ options, filter.opt.unwrap = .ok options)
    (h : s.AsksForMaximum inner sub) (shardId : UInt32) : s.GrantsHonestly shardId inner sub := by
  obtain ⟨serverQos, hserver, hasks⟩ := h
  have hmax : serverQos.rank = s.config.mqttMaximumQos.toNat := QoS.rank_of_tryFrom hserver
  obtain ⟨⟨codes, s', inner'⟩, hfold⟩ := subscribeFilters_isOk shardId
    ((sub.properties.bind SubscribeProperties.subscriptionId).map VarU32.val) hi hserver hopts
  have hsub := subscribeFilters_subscribed hi hfold
  refine ⟨codes, s', inner', by rw [doSubscribe, hfold]; rfl, hsub.codes.length_eq.symm, ?_⟩
  intro i filter hfilter
  have hmem := List.mem_of_getElem? hfilter
  obtain ⟨hrequested, hold⟩ := hasks filter hmem
  obtain ⟨code, hcode, g, rfl, hg⟩ : ∃ code, codes[i]? = some code ∧ ∃ g : QoS, code = .ofQos g ∧
      g.rank = max s.config.mqttMaximumQos.toNat filter.requested := by
    have hlen := hsub.codes.length_eq
    obtain ⟨hlt, rfl⟩ := List.getElem?_eq_some_iff.mp hfilter
    exact ⟨codes[i], List.getElem?_eq_getElem _, List.forall₂_iff_get.mp hsub.codes |>.2 i hlt (hlen ▸ hlt)⟩
  have hgserver : g = serverQos := QoS.rank_injective (by omega)
  subst hgserver
  obtain ⟨w, hw⟩ := hsub.entry filter hmem
  refine ⟨g, hcode, hrequested.ge, hmax.le, w, fun u => ⟨fun hu => hu.unique hsub.kept hw, ?_⟩, ?_⟩
  · rintro rfl
    exact hw
  · have hle : g.rank ≤ w.qos.rank := by
      rcases hsub.origin _ w hw with hw | ⟨filter', hmem', -, hq⟩
      · exact hold w hw
      · rw [hq, (hasks filter' hmem').1]
    apply (servedAt_iff s hserver w g).mpr
    exact QoS.rank_injective ((QoS.rank_min _ _).trans (Nat.min_eq_left hle))

/-- What a SUBACK grants is honest exactly if every filter asks for just the maximum of the server. -/
theorem grantsHonestly_iff {stream : List UInt8} {sub : Subscribe} {n : ℕ}
    (hread : decode stream = .ok (sub, n)) {inner : Inner Subscription} (hreach : TrieOp.Reachable inner)
    (s : Session) (shardId : UInt32) :
    s.GrantsHonestly shardId inner sub ↔ s.AsksForMaximum inner sub := by
  obtain ⟨hne, hopts⟩ := Subscribe.of_decode hread
  refine ⟨?_, fun h => h.grantsHonestly hreach.kept hopts shardId⟩
  rintro ⟨codes, s', inner', hsub, -, hgrant⟩
  obtain ⟨⟨codes', t, mid⟩, hfold, hret⟩ := bind_eq_ok.mp hsub
  cases hret
  have hspec := subscribeFilters_subscribed hreach.kept hfold
  -- the first filter is reached only if the server has a maximum
  obtain ⟨serverQos, hserver⟩ : ∃ serverQos, s.config.serverQos = .ok serverQos := by
    obtain ⟨filter, filters, hfilters⟩ := List.exists_cons_of_ne_nil hne
    rw [hfilters] at hfold
    obtain ⟨_, hfilter, -⟩ := bind_eq_ok.mp hfold
    obtain ⟨_, -, hfilter⟩ := bind_eq_ok.mp hfilter
    obtain ⟨_, -, hfilter⟩ := bind_eq_ok.mp hfilter
    obtain ⟨serverQos, hserver, -⟩ := bind_eq_ok.mp hfilter
    exact ⟨serverQos, hserver⟩
  have hmax : serverQos.rank = s.config.mqttMaximumQos.toNat := QoS.rank_of_tryFrom hserver
  refine ⟨serverQos, hserver, fun filter hmem => ?_⟩
  obtain ⟨i, hfilter⟩ := List.mem_iff_getElem?.mp hmem
  obtain ⟨g, hcode, hreq, hle, w, hentry, hserved⟩ := hgrant i filter hfilter
  have hg : g.rank = max s.config.mqttMaximumQos.toNat filter.requested := by
    obtain ⟨hlt, rfl⟩ := List.getElem?_eq_some_iff.mp hfilter
    obtain ⟨hlt', hget⟩ := List.getElem?_eq_some_iff.mp hcode
    obtain ⟨g', hg', hrank⟩ := List.forall₂_iff_get.mp hspec.codes |>.2 i hlt hlt'
    have heq : g' = g := SubAckReasonCode.ofQos_injective (hg'.symm.trans hget)
    exact heq ▸ hrank
  refine ⟨by omega, fun old hold => ?_⟩
  obtain rfl := (hentry old).mp (hspec.stay _ old hold)
  have hmin := (servedAt_iff s hserver old g).mp hserved
  have hrank := congrArg QoS.rank hmin
  rw [QoS.rank_min] at hrank
  have hleft : serverQos.rank ≤ g.rank := by omega
  exact hleft.trans (hrank ▸ Nat.min_le_right _ _)

/-- The client asks for QoS 1, which is what the server allows. -/
theorem grantsHonestly_iff_maximum :
    (Session.idle "alice").GrantsHonestly 0 Inner.default (Subscribers.subscribeNews 1) := by
  have hread : (decode [0x82, 10, 0, 1, 0, 0, 4, 110, 101, 119, 115, 1] : Result (Subscribe × ℕ)) =
      .ok (Subscribers.subscribeNews 1, 12) := by decide +kernel
  refine (grantsHonestly_iff hread ⟨[], rfl⟩ _ _).mpr ⟨.atLeastOnce, rfl, ?_⟩
  intro filter hmem
  obtain rfl := List.mem_singleton.mp hmem
  refine ⟨rfl, fun old hold => ?_⟩
  rw [Inner.Entry, Inner.view_default] at hold
  exact absurd hold.1 List.not_mem_nil

/-- The client asks for QoS 0 and is granted QoS 1. -/
theorem subscribe_granted_more :
    ¬ ∀ (s : Session) (shardId : UInt32) (inner : Inner Subscription) (stream : List UInt8)
        (sub : Subscribe) (n : ℕ), decode stream = .ok (sub, n) → TrieOp.Reachable inner →
      s.GrantsHonestly shardId inner sub := by
  intro h
  have hread : (decode [0x82, 10, 0, 1, 0, 0, 4, 110, 101, 119, 115, 0] : Result (Subscribe × ℕ)) =
      .ok (Subscribers.subscribeNews 0, 12) := by decide +kernel
  obtain ⟨codes, s', inner', hsub, -, hgrant⟩ :=
    h (Session.idle "alice") 0 Inner.default _ _ _ hread ⟨[], rfl⟩
  obtain ⟨g, hcode, hle, -⟩ := hgrant 0 _ rfl
  have hcodes : ((Session.idle "alice").doSubscribe 0 Inner.default
      (Subscribers.subscribeNews 0)).toOption.map Prod.fst =
        some [.clientAck (.subAck ⟨1, none, [.qos1]⟩)] := by decide
  rw [hsub] at hcodes
  obtain ⟨-, rfl⟩ : _ ∧ codes = [.qos1] := by simpa [toOption] using hcodes
  cases g with
  | atMostOnce => cases hcode
  | atLeastOnce => exact absurd hle (by decide)
  | exactlyOnce => cases hcode

end Session
end Mqtr
