import Mqtr.Broker.Publish
import Mqtr.Core.Codec

/-! A PUBLISH that names its topic by an alias only. The decoder wants every topic name to be at least
one character long, so that no such packet gets in. One that did would be matched under the topic of the
alias, but retained and routed under its own empty name. The map of the aliases itself is kept well: an
alias stands for the topic that was last named with it. -/
namespace Mqtr
open Outcome Codec Std

/-- One whole frame of a PUBLISH with an empty topic name and an alias, which passes every check of the
decoder but the one of the name. -/
structure AliasFrame (frame : List UInt8) (publ : Publish) (topicAlias : UInt16) : Prop where
  nameless : publ.topicName = ⟨""⟩
  aliased : publ.topicAlias = some topicAlias
  valid : publ.validate = .ok ()
  laidOut : ∃ fh k n₁ n₂ n₃, decFixedHeader frame = .ok (fh, k) ∧
    fh.unwrap = .ok (.publish, publ.retain, publ.qos, publ.duplicate) ∧
    decField String frame k = .ok ("", n₁) ∧
    decFieldIf UInt16 frame n₁ (publ.qos = .atLeastOnce ∨ publ.qos = .exactlyOnce) =
      .ok (publ.packetId, n₂) ∧
    decProps PublishProperties frame n₂ = .ok (publ.properties, n₃) ∧
    k + fh.remainingLen.val.toNat = frame.length ∧
    At frame n₃ (publ.payload.getD []) ∧ publ.payload ≠ some []

namespace Publishing

/-- What `do_publish` should do with a packet of the given topic: match the subscribers against the
topic, route the packet under the topic, and retain it there if it says so. -/
structure PublishesAs (topicName : TopicName) (publ : Publish) (st st' : Publishing) : Prop where
  returns : doPublish publ st = (.ok [], st')
  routes : routeToSubscribers topicName { publ with topicName := topicName }
    { st with session := st'.session, cluster := st'.cluster } = .ok ((), st')
  retains : publ.retain = true → st'.cluster.posted = st.cluster.posted ++
    [if (publ.payload.map List.isEmpty).getD true then .resetRetainTopic topicName
      else .setRetainTopic { publ with topicName := topicName }]

/-- The frame is accepted, and published under the topic that the alias stands for. -/
def ResolvesAlias (st : Publishing) (topicName : TopicName) (frame : List UInt8) : Prop :=
  ∃ publ n st', decode frame = .ok (publ, n) ∧ st.PublishesAs topicName publ st'

end Publishing

theorem TopicName.validate_empty : (TopicName.mk "").validate ≠ .ok () := by
  decide

/-- An empty string is not read as a topic name. -/
theorem decField_topicName_ne_ok {s : List UInt8} {k n : ℕ} (h : decField String s k = .ok ("", n))
    (r : TopicName × ℕ) : decField TopicName s k ≠ .ok r := by
  intro hname
  obtain ⟨tail, htail, h⟩ := bind_eq_ok.mp h
  obtain ⟨⟨val, m⟩, hval, h⟩ := bind_eq_ok.mp h
  obtain ⟨rfl, -⟩ := Prod.mk.inj (Outcome.ok.inj h)
  rw [decField, htail, ok_bind] at hname
  obtain ⟨⟨name, m'⟩, hread, -⟩ := bind_eq_ok.mp hname
  obtain ⟨hstring, hvalid⟩ := TopicName.decode_eq_ok.mp hread
  obtain ⟨hempty, -⟩ := Prod.mk.inj (Outcome.ok.inj (hval.symm.trans hstring))
  rw [show name = ⟨""⟩ from congrArg TopicName.mk hempty.symm] at hvalid
  exact TopicName.validate_empty hvalid

theorem AliasFrame.decode_ne_ok {frame : List UInt8} {publ : Publish} {topicAlias : UInt16}
    (hframe : AliasFrame frame publ topicAlias) (r : Publish × ℕ) : decode frame ≠ .ok r := by
  obtain ⟨fh, k, n₁, -, -, hfh, hunwrap, hname, -⟩ := hframe.laidOut
  intro h
  obtain ⟨hdr, hheader, -⟩ := bind_eq_ok.mp h
  rw [Publish.decHeader, hfh, ok_bind] at hheader
  dsimp only at hheader
  rw [hunwrap, ok_bind] at hheader
  obtain ⟨r, hread, -⟩ := bind_eq_ok.mp hheader
  exact decField_topicName_ne_ok hname r hread

namespace Publishing

theorem not_resolvesAlias {frame : List UInt8} {publ : Publish} {topicAlias : UInt16}
    (hframe : AliasFrame frame publ topicAlias) (st : Publishing) (topicName : TopicName) :
    ¬ st.ResolvesAlias topicName frame := by
  rintro ⟨publ', n, st', hread, -⟩
  exact hframe.decode_ne_ok _ hread

/-- A session for which the alias 1 stands for the topic "news". -/
def aliasing : Publishing where
  session := { Session.idle "alice" with
    config := { topicAliasMax := some 10 }
    topicAliases := (∅ : ExtTreeMap UInt16 TopicName).insert 1 ⟨"news"⟩ }
  shard := Shard.spawn {} 0
  cluster := ⟨.up, []⟩

def aliasBytes : List UInt8 := [0x31, 0x07, 0x00, 0x00, 0x03, 0x23, 0x00, 0x01, 0x68]

def aliasPublish : Publish :=
  ⟨true, .atMostOnce, false, ⟨""⟩, none, some { topicAlias := some 1 }, some [0x68]⟩

theorem aliasFrame_aliasBytes : AliasFrame aliasBytes aliasPublish 1 where
  nameless := rfl
  aliased := rfl
  valid := by decide
  laidOut := ⟨⟨0x31, ⟨7⟩⟩, 2, 4, 4, 8, by decide, by decide, by decide, by decide, by decide, by decide,
    ⟨by decide, by decide⟩, by decide⟩

theorem not_resolvesAlias_news : ¬ aliasing.ResolvesAlias ⟨"news"⟩ aliasBytes :=
  not_resolvesAlias aliasFrame_aliasBytes aliasing ⟨"news"⟩

/-- The alias is known and within the limit, and the frame is refused for its empty name. -/
theorem alias_without_name_refused :
    ¬ ∀ (st : Publishing) (topicAlias aliasMax : UInt16) (topicName : TopicName)
      (frame : List UInt8) (publ : Publish), st.session.config.mqttTopicAliasMax = some aliasMax →
      1 ≤ topicAlias → topicAlias ≤ aliasMax →
      st.session.topicAliases[topicAlias]? = some topicName → AliasFrame frame publ topicAlias →
      st.ResolvesAlias topicName frame := by
  intro hall
  obtain ⟨publ, n, st', hread, -⟩ := hall aliasing 1 10 ⟨"news"⟩ aliasBytes aliasPublish rfl
    (by decide) (by decide) (by simp [aliasing]) aliasFrame_aliasBytes
  exact aliasFrame_aliasBytes.decode_ne_ok _ hread

/-- The packet is matched under the topic of its alias, and routed and retained as it is. -/
theorem doPublish_of_alias {publ : Publish} {st st' : Publishing} {topicAlias aliasMax : UInt16}
    {topicName : TopicName} {msgs : List Message} (hname : publ.topicName = ⟨""⟩)
    (halias : publ.topicAlias = some topicAlias)
    (hmax : st.session.config.mqttTopicAliasMax = some aliasMax) (hle : topicAlias ≤ aliasMax)
    (hbound : st.session.topicAliases[topicAlias]? = some topicName)
    (hnew : st.session.isDuplicate publ = .ok false) (h : doPublish publ st = (.ok msgs, st')) :
    routeToSubscribers topicName publ { st with session := st'.session, cluster := st'.cluster } =
        .ok ((), st') ∧
      st'.cluster.posted = st.cluster.posted ++
        if publ.retain then
          [if (publ.payload.map List.isEmpty).getD true then .resetRetainTopic ⟨""⟩
            else .setRetainTopic publ]
        else [] := by
  obtain ⟨st₁, fresh, booked, name, session, hretain, hqos, htopic, hroute⟩ := doPublish_eq_ok hnew h
  obtain ⟨hsession, hshard, hposted⟩ := bookRetain_eq_ok hretain
  rw [hname] at hposted
  -- booking the identifier leaves the aliases alone
  rw [hsession] at hqos
  obtain ⟨qos1, qos2, rfl⟩ := Session.bookQos_eq_ok hqos
  obtain ⟨rfl, rfl⟩ : name = topicName ∧
      session = { st.session with qos1 := qos1, qos2 := qos2 } := by
    simp only [Session.publishTopicName, halias, hmax, hname, hbound, not_lt.mpr hle,
      ↓reduceIte, ne_eq, not_true_eq_false] at htopic
    obtain ⟨rfl, rfl⟩ := Prod.mk.inj (Outcome.ok.inj htopic)
    exact ⟨rfl, rfl⟩
  obtain ⟨hsession', hcluster⟩ := routeToSubscribers_keeps hroute
  rw [hshard] at hroute
  rw [hsession', hcluster]
  exact ⟨hroute, hposted⟩

end Publishing

namespace Session

/-- `publish_topic_name` on the session in place, where a failure leaves what was changed before it. -/
def publishTopicNameInPlace (publ : Publish) : Stateful Session Error TopicName := fun self =>
  let topicName := publ.topicName
  match publ.topicAlias, self.config.mqttTopicAliasMax with
  | some _, none =>
    (errCode .protocolError .topicAliasInvalid
      (self.logPrefix ++ " topic-alias-is-not-supported by broker"), self)
  | some topicAlias, some aliasMax =>
    if topicAlias > aliasMax then
      (errCode .protocolError .topicAliasInvalid
        (self.logPrefix ++ " topic-alias-exceeds broker limit " ++ toString topicAlias ++
          " > " ++ toString aliasMax), self)
    else if topicName.val ≠ "" then
      let self := { self with topicAliases := self.topicAliases.insert topicAlias topicName }
      (.ok topicName, self)
    else match self.topicAliases[topicAlias]? with
      | some topicName => (.ok topicName, self)
      | none =>
        (errCode .protocolError .topicAliasInvalid
          (self.logPrefix ++ " alias " ++ toString topicAlias ++ " is missing"), self)
  | none, _ =>
    if topicName.val = "" then
      (errCode .protocolError .topicNameInvalid
        (self.logPrefix ++ " alias is ZERO and topic_name is empty"), self)
    else (.ok topicName, self)

/-- No call fails after it has changed the session. -/
theorem publishTopicNameInPlace_eq (publ : Publish) :
    publishTopicNameInPlace publ = Stateful.lift fun self => self.publishTopicName publ := by
  funext self
  unfold publishTopicNameInPlace Stateful.lift publishTopicName
  cases publ.topicAlias with
  | none =>
    by_cases hn : publ.topicName.val = ""
    · simp [hn, errCode]
    · simp [hn]
  | some topicAlias =>
    cases hconfig : self.config.mqttTopicAliasMax with
    | none => simp [hconfig, errCode]
    | some aliasMax =>
      by_cases hmax : topicAlias > aliasMax
      · simp [hconfig, hmax, errCode]
      · by_cases hn : publ.topicName.val = ""
        · cases hget : self.topicAliases[topicAlias]? with
          | none => simp [hconfig, hmax, hn, hget, errCode]
          | some name => simp [hconfig, hmax, hn, hget]
        · simp [hconfig, hmax, hn]

/-- A call remembers the topic under the alias, or leaves the session as it is. -/
theorem publishTopicNameInPlace_cases {publ : Publish} {t t' : Session} {out : Result TopicName}
    (h : publishTopicNameInPlace publ t = (out, t')) :
    (∃ topicAlias aliasMax, publ.topicAlias = some topicAlias ∧
      t.config.mqttTopicAliasMax = some aliasMax ∧ topicAlias ≤ aliasMax ∧
      publ.topicName.val ≠ "" ∧ out.isOk = true ∧
      t' = { t with topicAliases := t.topicAliases.insert topicAlias publ.topicName }) ∨
    t' = t ∧ (publ.topicAlias.isSome → publ.topicName.val ≠ "" → out.isOk = false) := by
  rw [publishTopicNameInPlace_eq] at h
  cases out with
  | ok name =>
    obtain ⟨hnone, -, -, rfl⟩ | ⟨topicAlias, aliasMax, halias, hmax, hle, hnamed⟩ :=
      publishTopicName_eq_ok.mp (Stateful.lift_eq_ok.mp h)
    · exact .inr ⟨rfl, by simp [hnone]⟩
    · rcases hnamed with ⟨hname, -, rfl⟩ | ⟨hempty, -, rfl⟩
      · exact .inl ⟨topicAlias, aliasMax, halias, hmax, hle, hname, rfl, rfl⟩
      · exact .inr ⟨rfl, by simp [hempty]⟩
  | err e => exact .inr ⟨(Stateful.lift_eq_err.mp h).2, fun _ _ => rfl⟩
  | panic =>
    rcases publishTopicName_cases t publ with ⟨-, e, he⟩ | ⟨-, r, hr⟩
    · simp [Stateful.lift, he] at h
    · simp [Stateful.lift, hr] at h

/-- The calls made so far on a session, each with its packet and what came of it. -/
inductive TopicCalls (s : Session) : List (Publish × Result TopicName) → Session → Prop
  | start : TopicCalls s [] s
  | call {calls : List (Publish × Result TopicName)} {t t' : Session} {publ : Publish}
      {out : Result TopicName} : TopicCalls s calls t → publishTopicNameInPlace publ t = (out, t') →
      TopicCalls s (calls ++ [(publ, out)]) t'

/-- The call has returned, and its packet has the alias and a topic name. -/
def namesAlias (topicAlias : UInt16) (call : Publish × Result TopicName) : Bool :=
  call.1.topicAlias = some topicAlias ∧ call.1.topicName.val ≠ "" ∧ call.2.isOk

/-- The topic of the latest of the calls that name the alias. -/
def latestTopic (calls : List (Publish × Result TopicName)) (topicAlias : UInt16) : Option TopicName :=
  (calls.reverse.find? (namesAlias topicAlias)).map fun call => call.1.topicName

theorem latestTopic_concat (calls : List (Publish × Result TopicName))
    (call : Publish × Result TopicName) (topicAlias : UInt16) :
    latestTopic (calls ++ [call]) topicAlias =
      if namesAlias topicAlias call then some call.1.topicName else latestTopic calls topicAlias := by
  unfold latestTopic
  rw [List.reverse_concat, List.find?_cons]
  cases namesAlias topicAlias call <;> rfl

/-- The alias is one that the server offers. -/
def AliasInRange (config : Config) (topicAlias : UInt16) : Prop :=
  ∃ aliasMax, config.mqttTopicAliasMax = some aliasMax ∧ 1 ≤ topicAlias ∧ topicAlias ≤ aliasMax

/-- The map holds for each alias the topic that was named last. -/
structure Remembers (s : Session) (calls : List (Publish × Result TopicName)) (t : Session) : Prop where
  config : t.config = s.config
  latest : ∀ topicAlias, t.topicAliases[topicAlias]? = latestTopic calls topicAlias
  inRange : ∀ topicAlias ∈ t.topicAliases, AliasInRange s.config topicAlias

theorem Remembers.step {s t t' : Session} {calls : List (Publish × Result TopicName)} {publ : Publish}
    {out : Result TopicName} (h : s.Remembers calls t) (hnz : publ.topicAlias ≠ some 0)
    (hcall : publishTopicNameInPlace publ t = (out, t')) : s.Remembers (calls ++ [(publ, out)]) t' := by
  obtain ⟨topicAlias, aliasMax, halias, hmax, hle, hname, hok, rfl⟩ | ⟨rfl, hother⟩ :=
    publishTopicNameInPlace_cases hcall
  · refine ⟨h.config, fun key => ?_, fun key hkey => ?_⟩
    · rw [latestTopic_concat, ExtTreeMap.getElem?_insert, h.latest]
      by_cases hkey : topicAlias = key
      · simp [namesAlias, hkey, halias, hname, hok]
      · simp [namesAlias, hkey, halias]
    · rcases ExtTreeMap.mem_insert.mp hkey with heq | hold
      · obtain rfl := compare_eq_iff_eq.mp heq
        have hpos : 1 ≤ topicAlias := by
          rw [halias] at hnz
          grind
        exact ⟨aliasMax, h.config ▸ hmax, hpos, hle⟩
      · exact h.inRange key hold
  · refine ⟨h.config, fun key => ?_, h.inRange⟩
    have hnot : namesAlias key (publ, out) = false := by
      simp only [namesAlias, decide_eq_false_iff_not]
      rintro ⟨halias, hname, hok⟩
      have hfail := hother (by simp [halias]) hname
      simp [hfail] at hok
    rw [latestTopic_concat, hnot, h.latest]
    rfl

theorem TopicCalls.remembers {s t : Session} {calls : List (Publish × Result TopicName)}
    (hs : s.topicAliases = ∅) (hrun : s.TopicCalls calls t)
    (hnz : ∀ call ∈ calls, call.1.topicAlias ≠ some 0) : s.Remembers calls t := by
  induction hrun with
  | start => exact ⟨rfl, by simp [hs, latestTopic], by simp [hs]⟩
  | call _ hcall ih =>
    have hbefore := ih fun call hmem => hnz call (List.mem_append_left _ hmem)
    exact hbefore.step (hnz _ (List.mem_append_right _ (List.mem_singleton_self _))) hcall

/-- What a call must give after the calls before it. -/
structure Resolves (config : Config) (calls : List (Publish × Result TopicName)) (t : Session)
    (publ : Publish) (out : Result TopicName) (t' : Session) : Prop where
  byAlias : ∀ topicAlias, publ.topicAlias = some topicAlias → AliasInRange config topicAlias →
    publ.topicName.val = "" →
    match latestTopic calls topicAlias with
    | some topicName => out = .ok topicName
    | none => ∃ e, out = .err e ∧ e.code = some .topicAliasInvalid
  byName : publ.topicName.val ≠ "" →
    (∀ topicAlias, publ.topicAlias = some topicAlias → AliasInRange config topicAlias) →
    out = .ok publ.topicName
  refused : ∀ topicAlias, publ.topicAlias = some topicAlias →
    (∀ aliasMax, config.mqttTopicAliasMax = some aliasMax → aliasMax < topicAlias) → ∃ e, out = .err e
  unchanged : ∀ e, out = .err e → t'.topicAliases = t.topicAliases

/-- After any calls on a session without aliases, with packets whose aliases are not zero, the aliases in
the map are those that the server offers, and the next call resolves its packet by the calls before. -/
theorem topicCalls_resolve {s t : Session} {calls : List (Publish × Result TopicName)}
    (hs : s.topicAliases = ∅) (hrun : s.TopicCalls calls t)
    (hnz : ∀ call ∈ calls, call.1.topicAlias ≠ some 0) :
    (∀ topicAlias ∈ t.topicAliases, AliasInRange s.config topicAlias) ∧
      ∀ (publ : Publish) (out : Result TopicName) (t' : Session),
        publishTopicNameInPlace publ t = (out, t') → Resolves s.config calls t publ out t' := by
  have hrem := TopicCalls.remembers hs hrun hnz
  refine ⟨hrem.inRange, fun publ out t' hcall => ⟨?_, ?_, ?_, ?_⟩⟩
  · rintro topicAlias halias ⟨aliasMax, hmax, -, hle⟩ hempty
    rw [← hrem.latest]
    simp only [publishTopicNameInPlace, halias, hrem.config, hmax, not_lt.mpr hle, hempty, ↓reduceIte,
      ne_eq, not_true_eq_false] at hcall
    cases hget : t.topicAliases[topicAlias]? with
    | some topicName =>
      rw [hget] at hcall
      exact (congrArg Prod.fst hcall).symm
    | none =>
      rw [hget] at hcall
      exact ⟨_, (congrArg Prod.fst hcall).symm, rfl⟩
  · intro hname hrange
    cases halias : publ.topicAlias with
    | none =>
      simp only [publishTopicNameInPlace, halias, hname, ↓reduceIte] at hcall
      exact (congrArg Prod.fst hcall).symm
    | some topicAlias =>
      obtain ⟨aliasMax, hmax, -, hle⟩ := hrange topicAlias halias
      simp only [publishTopicNameInPlace, halias, hrem.config, hmax, not_lt.mpr hle, hname, ↓reduceIte,
        ne_eq, not_false_eq_true] at hcall
      exact (congrArg Prod.fst hcall).symm
  · intro topicAlias halias habove
    cases hmax : s.config.mqttTopicAliasMax with
    | none =>
      simp only [publishTopicNameInPlace, halias, hrem.config, hmax] at hcall
      exact ⟨_, (congrArg Prod.fst hcall).symm⟩
    | some aliasMax =>
      simp only [publishTopicNameInPlace, halias, hrem.config, hmax, habove aliasMax hmax,
        ↓reduceIte] at hcall
      exact ⟨_, (congrArg Prod.fst hcall).symm⟩
  · rintro e rfl
    rw [publishTopicNameInPlace_eq] at hcall
    rw [(Stateful.lift_eq_err.mp hcall).2]

/-- A packet that names the topic "news" with the alias 1. -/
def newsPublish : Publish :=
  ⟨false, .atMostOnce, false, ⟨"news"⟩, none, some { topicAlias := some 1 }, some [0x68]⟩

/-- The alias is named, and then stands for its topic. -/
theorem topicCalls_resolve_news :
    ∃ s t t' : Session, s.topicAliases = ∅ ∧ s.TopicCalls [(newsPublish, .ok ⟨"news"⟩)] t ∧
      publishTopicNameInPlace Publishing.aliasPublish t = (.ok ⟨"news"⟩, t') := by
  let s : Session := { Session.idle "alice" with config := { topicAliasMax := some 10 } }
  have hrun : s.TopicCalls ([] ++ [(newsPublish, .ok ⟨"news"⟩)])
      { s with topicAliases := s.topicAliases.insert 1 ⟨"news"⟩ } := .call .start (by rfl)
  obtain ⟨-, hnext⟩ := topicCalls_resolve rfl hrun (by simp [newsPublish, Publish.topicAlias])
  obtain ⟨out, t', hcall⟩ : ∃ out t', publishTopicNameInPlace Publishing.aliasPublish
      { s with topicAliases := s.topicAliases.insert 1 ⟨"news"⟩ } = (out, t') := ⟨_, _, rfl⟩
  have hout : out = .ok ⟨"news"⟩ :=
    (hnext _ _ _ hcall).byAlias 1 rfl ⟨10, rfl, by decide, by decide⟩ rfl
  exact ⟨s, _, t', rfl, hrun, hout ▸ hcall⟩

end Session
end Mqtr
