import Mqtr.Broker.Retained
import Mqtr.Broker.Timer

/-! The cluster thread with its own timer, over the passes of its main loop. After the requests of a
pass, `retain_expires` collects the deleted items of the timer and takes out what has expired. The timer
stands beside the abstract one of the cluster, which it turns out to follow. -/
namespace Mqtr
open Transition Std

def ClusterRequest.topicName : ClusterRequest → TopicName
  | .setRetainTopic publish => publish.topicName
  | .resetRetainTopic topicName => topicName

def Publish.expiry (self : Publish) : Option UInt32 :=
  self.properties.bind PublishProperties.messageExpiryInterval

structure ClusterThread where
  cluster : Cluster
  retainTimer : Timer ℕ

/-- What the thread does, with the time at which it does it. -/
inductive ThreadEvent where
  | request (now : ℕ) (req : ClusterRequest)
  | retainExpires (now : ℕ)
  deriving DecidableEq, Repr

namespace ClusterThread
variable {s s' : ClusterThread} {hist : List ThreadEvent} {publish : Publish} {topicName : TopicName}

def init (now : ℕ) : ClusterThread := ⟨.init, .default now⟩

def handleSetRetainTopic (self : ClusterThread) (now : ℕ) (publish : Publish) :
    Option ClusterThread := do
  let retain := self.cluster.retains.length
  let cluster ← self.cluster.handleSetRetainTopic publish
  match publish.expiry with
  | some secs => some ⟨cluster, self.retainTimer.addTimeout now secs retain⟩
  | none => some ⟨cluster, self.retainTimer⟩

def handleResetRetainTopic (self : ClusterThread) (topicName : TopicName) : Option ClusterThread := do
  let cluster ← self.cluster.handleResetRetainTopic topicName
  some { self with cluster := cluster }

def retainExpires (self : ClusterThread) (now : ℕ) : Option ClusterThread := do
  let timer ← self.retainTimer.gc self.cluster.isDeleted
  let (expired, timer) := timer.expired self.cluster.isDeleted now
  let cluster ← self.cluster.retainExpires expired
  some ⟨cluster, timer⟩

def step (self : ClusterThread) : ThreadEvent → Option ClusterThread
  | .request now (.setRetainTopic publish) => self.handleSetRetainTopic now publish
  | .request _ (.resetRetainTopic topicName) => self.handleResetRetainTopic topicName
  | .retainExpires now => self.retainExpires now

/-- The latest request for a topic. -/
def latestRequest (topicName : TopicName) (hist : List ThreadEvent) : Option ClusterRequest :=
  hist.foldl (fun latest event =>
    match event with
    | .request _ req => if req.topicName = topicName then some req else latest
    | .retainExpires _ => latest) none

/-- What is retained after a request. -/
def retainedBy : Option ClusterRequest → List Publish
  | some (.setRetainTopic publish) => [publish]
  | some (.resetRetainTopic _) | none => []

theorem latestRequest_concat (event : ThreadEvent) : latestRequest topicName (hist ++ [event]) =
    match event with
    | .request _ req =>
      if req.topicName = topicName then some req else latestRequest topicName hist
    | .retainExpires _ => latestRequest topicName hist := by
  rw [latestRequest, List.foldl_append]
  rfl

theorem mem_insertItem {items : List (Titem ℕ)} {ndelta : UInt32} {value item : ℕ} :
    item ∈ (Timer.insertItem ndelta value items).map Titem.value ↔
      item = value ∨ item ∈ items.map Titem.value := by
  induction items generalizing ndelta with
  | nil => simp [Timer.insertItem]
  | cons first next ih =>
    unfold Timer.insertItem
    split_ifs
    · simp
    · rw [List.map_cons, List.mem_cons, ih, List.map_cons, List.mem_cons]
      tauto

/-- A pass survives exactly if everything in the timer is deleted, and then nothing is left there. -/
theorem retainExpires_eq (s : ClusterThread) (now : ℕ) : s.retainExpires now =
    if ∀ item ∈ s.retainTimer.items.map Titem.value, s.cluster.isDeleted item = true then
      (s.cluster.retainExpires []).map fun cluster =>
        ⟨cluster, s.retainTimer.instant + (s.retainTimer.elapsed now).toNat, []⟩
    else none := by
  unfold retainExpires Timer.gc
  rw [Timer.gcItems_head]
  by_cases hall : ∀ item ∈ s.retainTimer.items.map Titem.value, s.cluster.isDeleted item = true
  · have hitems : (s.retainTimer.items.all fun item => s.cluster.isDeleted item.value) = true := by
      rw [List.all_eq_true]
      intro item hitem
      exact hall item.value (List.mem_map_of_mem hitem)
    rw [if_pos hall, if_pos hitems]
    simp only [Option.map_some, Option.bind_eq_bind, Option.bind_some, Timer.expired,
      Timer.expireItems, Timer.elapsed]
    cases s.cluster.retainExpires [] <;> rfl
  · have hitems : ¬ (s.retainTimer.items.all fun item => s.cluster.isDeleted item.value) = true := by
      rw [List.all_eq_true]
      intro hitems
      refine hall fun item hitem => ?_
      obtain ⟨entry, hentry, rfl⟩ := List.mem_map.mp hitem
      exact hitems entry hentry
    rw [if_neg hall, if_neg hitems]
    rfl

end ClusterThread

namespace Cluster
variable {s s' : Cluster}

theorem handleSetRetainTopic_eq {publish : Publish} (h : s.handleSetRetainTopic publish = some s') :
    s.retainedMessages.doSet publish.topicName publish = some s'.retainedMessages ∧
      s'.retainTopics = s.retainTopics.insert publish.topicName s.retains.length ∧
      s'.retainTimer = s.retainTimer ++ if publish.expiry.isSome then [s.retains.length] else [] := by
  simp only [handleSetRetainTopic, retainedMessages_deleteOld, retainTimer_deleteOld,
    Option.bind_eq_bind, Option.bind_eq_some_iff] at h
  obtain ⟨inner, hset, h⟩ := h
  cases hexpiry : publish.properties.bind PublishProperties.messageExpiryInterval with
  | none =>
    rw [hexpiry] at h
    cases h
    simp [hset, Publish.expiry, hexpiry]
  | some secs =>
    rw [hexpiry] at h
    cases h
    simp [hset, Publish.expiry, hexpiry]

theorem handleResetRetainTopic_eq {topicName : TopicName}
    (h : s.handleResetRetainTopic topicName = some s') :
    s.retainedMessages.doRemove topicName = some s'.retainedMessages ∧
      s'.retainTopics = s.retainTopics.erase topicName ∧ s'.retainTimer = s.retainTimer := by
  simp only [handleResetRetainTopic, retainedMessages_deleteOld, Option.bind_eq_bind,
    Option.bind_eq_some_iff] at h
  obtain ⟨inner, hremove, h⟩ := h
  cases h
  simp [hremove]

theorem retainExpires_nil (s : Cluster) : s.retainExpires [] =
    some { s with retainTimer := s.retainTimer.filter fun item => !s.isDeleted item } := by
  simp [retainExpires]

end Cluster

namespace ClusterThread
variable {s s' : ClusterThread} {hist : List ThreadEvent} {publish : Publish} {topicName : TopicName}

theorem topicName_of_latestRequest {req : ClusterRequest}
    (h : latestRequest topicName hist = some req) : req.topicName = topicName := by
  induction hist using List.reverseRecOn with
  | nil => cases h
  | append_singleton hist event ih =>
    rw [latestRequest_concat] at h
    cases event with
    | request now req' =>
      dsimp only at h
      split_ifs at h with hsame
      · cases h
        exact hsame
      · exact ih h
    | retainExpires now => exact ih h

/-- The trie holds for every topic what its latest request says, and of the messages it holds, those
with an expiry interval are in the timer. -/
structure Inv (hist : List ThreadEvent) (s : ClusterThread) : Prop where
  sound : ∃ events, s.cluster.Inv events
  follows : ∀ item, item ∈ s.retainTimer.items.map Titem.value ↔ item ∈ s.cluster.retainTimer
  contents : ∀ topicName : TopicName,
    s.cluster.retainedMessages.root.valuesAt (iterTopicPath topicName) =
      retainedBy (latestRequest topicName hist)
  expiring : ∀ (topicName : TopicName) (item : ℕ) (publish : Publish),
    s.cluster.retainTopics[topicName]? = some item →
    latestRequest topicName hist = some (.setRetainTopic publish) →
      (item ∈ s.cluster.retainTimer ↔ publish.expiry.isSome)

theorem init_inv (now : ℕ) : (init now).Inv [] where
  sound := ⟨[], Cluster.init_inv⟩
  follows item := Iff.rfl
  contents topicName := by
    change Node.valuesAt _ _ = []
    cases (iterTopicPath topicName : List String) <;> rfl
  expiring topicName item publish hitem := by
    simp [init, Cluster.init] at hitem

theorem handleSetRetainTopic_inv {now : ℕ} (h : s.Inv hist)
    (hs : s.handleSetRetainTopic now publish = some s') :
    s'.Inv (hist ++ [.request now (.setRetainTopic publish)]) := by
  obtain ⟨events, hsound⟩ := h.sound
  obtain ⟨cluster, hset, hs⟩ := Option.bind_eq_some_iff.mp hs
  obtain ⟨hvalues, htopics, htimer⟩ := Cluster.handleSetRetainTopic_eq hset
  obtain ⟨hval, hrest, -⟩ := Inner.doSet_valuesAt hsound.kept hvalues
  have hsound' : ∃ events, cluster.Inv events := by
    obtain ⟨t, ht, hinv⟩ := Cluster.handleSetRetainTopic_inv hsound publish
    obtain rfl := Option.some.inj (hset.symm.trans ht)
    exact ⟨_, hinv⟩
  have hnew : s.cluster.retains.length ∉ s.cluster.retainTimer := fun hmem =>
    lt_irrefl _ (hsound.known _ hmem)
  -- what holds of the cluster does not depend on the timer that stands beside it
  have hdone (timer : Timer ℕ)
      (hfollows : ∀ item, item ∈ timer.items.map Titem.value ↔ item ∈ cluster.retainTimer) :
      Inv (hist ++ [.request now (.setRetainTopic publish)]) ⟨cluster, timer⟩ := by
    refine ⟨hsound', hfollows, ?_, ?_⟩
    · intro t
      rw [latestRequest_concat]
      by_cases hsame : publish.topicName = t
      · subst hsame
        exact hval.trans (by simp [ClusterRequest.topicName, retainedBy])
      · have hpath : (iterTopicPath t : List String) ≠ iterTopicPath publish.topicName := fun he =>
          hsame (Cluster.iterTopicPath_injective he).symm
        simpa [ClusterRequest.topicName, hsame] using (hrest _ hpath).trans (h.contents t)
    · intro t item p hitem hlatest
      rw [htopics, OrdMap.getElem?_insert] at hitem
      rw [latestRequest_concat] at hlatest
      rw [htimer]
      by_cases hsame : publish.topicName = t
      · rw [if_pos hsame] at hitem
        obtain rfl := Option.some.inj hitem
        simp only [ClusterRequest.topicName, hsame, ↓reduceIte, Option.some.injEq,
          ClusterRequest.setRetainTopic.injEq] at hlatest
        subst hlatest
        cases publish.expiry <;> simp [hnew]
      · rw [if_neg hsame] at hitem
        simp only [ClusterRequest.topicName, hsame, ↓reduceIte] at hlatest
        have hlt : item < s.cluster.retains.length :=
          (List.getElem?_eq_some_iff.mp (hsound.stored t item hitem)).1
        rw [← h.expiring t item p hitem hlatest]
        cases publish.expiry <;> simp [hlt.ne]
  cases hexpiry : publish.expiry with
  | none =>
    rw [hexpiry] at hs htimer
    cases hs
    refine hdone _ fun item => ?_
    rw [htimer, h.follows]
    simp
  | some secs =>
    rw [hexpiry] at hs htimer
    cases hs
    refine hdone _ fun item => ?_
    rw [htimer, Timer.addTimeout, mem_insertItem, h.follows]
    simp [or_comm]

theorem handleResetRetainTopic_inv {now : ℕ} (h : s.Inv hist)
    (hs : s.handleResetRetainTopic topicName = some s') :
    s'.Inv (hist ++ [.request now (.resetRetainTopic topicName)]) := by
  obtain ⟨events, hsound⟩ := h.sound
  obtain ⟨cluster, hreset, hs⟩ := Option.bind_eq_some_iff.mp hs
  cases hs
  obtain ⟨hvalues, htopics, htimer⟩ := Cluster.handleResetRetainTopic_eq hreset
  obtain ⟨hnil, hrest, -⟩ := Inner.doRemove_valuesAt hsound.kept hvalues
  refine ⟨⟨_, Cluster.handleResetRetainTopic_inv hsound hreset⟩, ?_, ?_, ?_⟩
  · intro item
    rw [htimer]
    exact h.follows item
  · intro t
    rw [latestRequest_concat]
    by_cases hsame : topicName = t
    · subst hsame
      exact hnil.trans (by simp [ClusterRequest.topicName, retainedBy])
    · have hpath : (iterTopicPath t : List String) ≠ iterTopicPath topicName := fun he =>
        hsame (Cluster.iterTopicPath_injective he).symm
      simpa [ClusterRequest.topicName, hsame] using (hrest _ hpath).trans (h.contents t)
  · intro t item p hitem hlatest
    rw [htopics, OrdMap.getElem?_erase] at hitem
    split_ifs at hitem with hsame
    rw [latestRequest_concat] at hlatest
    simp only [ClusterRequest.topicName, hsame, ↓reduceIte] at hlatest
    rw [htimer]
    exact h.expiring t item p hitem hlatest

theorem retainExpires_inv {now : ℕ} (h : s.Inv hist) (hs : s.retainExpires now = some s') :
    s'.Inv (hist ++ [.retainExpires now]) := by
  obtain ⟨events, hsound⟩ := h.sound
  rw [retainExpires_eq] at hs
  split_ifs at hs with hall
  rw [Cluster.retainExpires_nil] at hs
  cases hs
  refine ⟨⟨events ++ [.expires []], ?_⟩, ?_, ?_, ?_⟩
  · obtain ⟨t, ht, hinv⟩ := Cluster.retainExpires_inv hsound ⟨List.nodup_nil, by simp⟩
    rw [Cluster.retainExpires_nil] at ht
    cases ht
    exact hinv
  · intro item
    simp only [List.map_nil, List.not_mem_nil, List.mem_filter, false_iff, not_and]
    intro hitem
    simp [hall item ((h.follows item).mpr hitem)]
  · intro t
    rw [latestRequest_concat]
    exact h.contents t
  · intro t item p hitem hlatest
    rw [latestRequest_concat] at hlatest
    rw [← h.expiring t item p hitem hlatest, List.mem_filter]
    have hlive := Cluster.isDeleted_eq (hsound.stored t item hitem)
    simp [hlive]

theorem step_inv {event : ThreadEvent} (h : s.Inv hist) (hs : s.step event = some s') :
    s'.Inv (hist ++ [event]) := by
  rcases event with ⟨now, publish | topicName⟩ | now
  · exact handleSetRetainTopic_inv h hs
  · exact handleResetRetainTopic_inv h hs
  · exact retainExpires_inv h hs

/-- Some topic's latest request has set a message that is to expire. -/
def ToExpire (hist : List ThreadEvent) : Prop :=
  ∃ publish, latestRequest publish.topicName hist = some (.setRetainTopic publish) ∧
    publish.expiry.isSome

/-- What is not deleted in the timer is a message that is to expire. -/
theorem Inv.all_deleted_iff (h : s.Inv hist) :
    (∀ item ∈ s.retainTimer.items.map Titem.value, s.cluster.isDeleted item = true) ↔
      ¬ ToExpire hist := by
  obtain ⟨events, hsound⟩ := h.sound
  have hindexed (t : TopicName) : t ∈ s.cluster.retainTopics ↔
      retainedBy (latestRequest t hist) ≠ [] := by
    rw [← hsound.held, h.contents]
  constructor
  · rintro hall ⟨publish, hlatest, hexpiry⟩
    have hmem : publish.topicName ∈ s.cluster.retainTopics := by
      simp [hindexed, hlatest, retainedBy]
    obtain ⟨item, hitem⟩ := Option.isSome_iff_exists.mp (ExtTreeMap.mem_iff_isSome_getElem?.mp hmem)
    have htimer := (h.expiring _ item publish hitem hlatest).mpr hexpiry
    have hgone := hall item ((h.follows item).mpr htimer)
    rw [Cluster.isDeleted_eq (hsound.stored _ item hitem)] at hgone
    cases hgone
  · intro hnone item hitem
    by_contra hlive
    have htimer := (h.follows item).mp hitem
    obtain ⟨retain, hretain⟩ : ∃ retain, s.cluster.retains[item]? = some retain :=
      ⟨_, List.getElem?_eq_getElem (hsound.known item htimer)⟩
    rw [Cluster.isDeleted_eq hretain, Bool.not_eq_true] at hlive
    have hindex := hsound.timed item htimer retain hretain hlive
    have hmem : retain.topicName ∈ s.cluster.retainTopics :=
      ExtTreeMap.mem_iff_isSome_getElem?.mpr (by simp [hindex])
    rw [hindexed] at hmem
    cases hlatest : latestRequest retain.topicName hist with
    | none => exact hmem (by rw [hlatest]; rfl)
    | some req =>
      cases req with
      | resetRetainTopic topicName => exact hmem (by rw [hlatest]; rfl)
      | setRetainTopic publish =>
        have hname : publish.topicName = retain.topicName := topicName_of_latestRequest hlatest
        refine hnone ⟨publish, by rw [hname, hlatest], ?_⟩
        exact (h.expiring _ item publish hindex hlatest).mp htimer

/-- As long as the cluster thread lives, every topic retains the message of its latest request,
whatever expiry interval the message has; and the thread dies in the next call of `retain_expires`
exactly if one of those messages has one. -/
theorem retains_latest_until_expiry {start : ℕ} (hrun : run step (init start) hist = some s) :
    (∀ topicName : TopicName,
      s.cluster.retainedMessages.root.valuesAt (iterTopicPath topicName) =
        retainedBy (latestRequest topicName hist)) ∧
      ∀ now, (s.step (.retainExpires now)).isSome ↔ ¬ ToExpire hist := by
  have hinv : s.Inv hist := run_history (P := Inv) (G := fun _ _ => True) (fun _ _ _ _ h _ => step_inv h)
    [] (init_inv start) (along_of_forall fun _ _ _ => trivial) hrun
  refine ⟨hinv.contents, fun now => ?_⟩
  rw [← hinv.all_deleted_iff, step, retainExpires_eq, Cluster.retainExpires_nil]
  split_ifs with hall
  · simpa using hall
  · simpa using hall

/-- A message that is to expire, replaced before the next pass by one that is not, and another one. -/
def replacedInTime : List ThreadEvent :=
  [.request 0 (.setRetainTopic (Cluster.retainedPublish "a/b" (some 60))),
    .request 0 (.setRetainTopic (Cluster.retainedPublish "a/b" none)), .retainExpires 1,
    .request 2 (.setRetainTopic (Cluster.retainedPublish "a" (some 60)))]

theorem retains_latest_until_expiry_replaced :
    ∃ s, run step (init 0) replacedInTime = some s ∧
      s.cluster.retainedMessages.root.valuesAt (iterTopicPath (⟨"a/b"⟩ : TopicName)) =
        [Cluster.retainedPublish "a/b" none] ∧
      s.step (.retainExpires 3) = none := by
  have hrun : (run step (init 0) replacedInTime).isSome = true := by
    decide
  obtain ⟨s, hrun⟩ := Option.isSome_iff_exists.mp hrun
  obtain ⟨hcontents, hpass⟩ := retains_latest_until_expiry hrun
  refine ⟨s, hrun, (hcontents _).trans (by decide), ?_⟩
  rw [← Option.not_isSome_iff_eq_none, hpass, not_not]
  exact ⟨Cluster.retainedPublish "a" (some 60), by decide, rfl⟩

end ClusterThread
end Mqtr
