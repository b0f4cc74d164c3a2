import Mqtr.Broker.Message
import Mqtr.Trie.Content

/-! The retained messages that the cluster thread keeps: the trie, the index of topics, and the timer.
The timer is a component that hands out items it was given, each at most once and none that was
deleted; its clock is not modelled. `none` is a panic. -/
namespace Mqtr
open Std

structure Retain where
  topicName : TopicName
  deleted : Bool
  deriving DecidableEq, Repr

/-- The index and the timer share a `Retain` by reference. A reference is its place in `retains`, in
the order of allocation. -/
structure Cluster where
  retainedMessages : Inner Publish
  retains : List Retain
  retainTimer : List ℕ
  retainTopics : ExtTreeMap TopicName ℕ

inductive RetainEvent where
  | request (req : ClusterRequest)
  /-- `retain_expires`, with the items that the timer hands out. -/
  | expires (expired : List ℕ)
  deriving DecidableEq, Repr

namespace Cluster

def init : Cluster := ⟨Inner.default, [], [], ∅⟩

def isDeleted (self : Cluster) (retain : ℕ) : Bool := self.retains[retain]?.any Retain.deleted

def delete (self : Cluster) (retain : ℕ) : Cluster :=
  { self with retains := self.retains.modify retain fun r => { r with deleted := true } }

/-- Mark the `Retain` that the index held before, if there was one. -/
def deleteOld (self : Cluster) (oldRetain : Option ℕ) : Cluster :=
  match oldRetain with
  | some oldRetain => self.delete oldRetain
  | none => self

def handleSetRetainTopic (self : Cluster) (publish : Publish) : Option Cluster := do
  let retain := self.retains.length
  let oldRetain := self.retainTopics[publish.topicName]?
  let self : Cluster := { self with
    retains := self.retains ++ [⟨publish.topicName, false⟩]
    retainTopics := self.retainTopics.insert publish.topicName retain }
  let self := self.deleteOld oldRetain
  let retainedMessages ← self.retainedMessages.doSet publish.topicName publish
  let self : Cluster := { self with retainedMessages := retainedMessages }
  match publish.properties.bind PublishProperties.messageExpiryInterval with
  | some _ => some { self with retainTimer := self.retainTimer ++ [retain] }
  | none => some self

def handleResetRetainTopic (self : Cluster) (topicName : TopicName) : Option Cluster := do
  let oldRetain := self.retainTopics[topicName]?
  let self : Cluster := { self with retainTopics := self.retainTopics.erase topicName }
  let self := self.deleteOld oldRetain
  let retainedMessages ← self.retainedMessages.doRemove topicName
  some { self with retainedMessages := retainedMessages }

/-- One turn of the loop over the expired items: the item is asserted not to be deleted, and its topic
has to be in the index. -/
def expireItem (self : Cluster) (item : ℕ) : Option Cluster := do
  let retain ← self.retains[item]?
  if retain.deleted then none
  else
    let retainedMessages ← self.retainedMessages.doRemove retain.topicName
    let _ ← self.retainTopics[retain.topicName]?
    some { self with
      retainedMessages := retainedMessages
      retainTopics := self.retainTopics.erase retain.topicName }

/-- The timer first drops what was deleted, and then what it hands out. -/
def retainExpires (self : Cluster) (expired : List ℕ) : Option Cluster :=
  let timer := self.retainTimer.filter fun item => !self.isDeleted item
  let self : Cluster := { self with retainTimer := timer.filter fun item => item ∉ expired }
  expired.foldlM expireItem self

def step (self : Cluster) : RetainEvent → Option Cluster
  | .request (.setRetainTopic publish) => self.handleSetRetainTopic publish
  | .request (.resetRetainTopic topicName) => self.handleResetRetainTopic topicName
  | .expires expired => self.retainExpires expired

/-- What the timer owes: it hands out items it was given, each once, and none that was deleted. -/
def TimerContract (self : Cluster) : RetainEvent → Prop
  | .request _ => True
  | .expires expired =>
    expired.Nodup ∧ ∀ item ∈ expired, item ∈ self.retainTimer ∧ self.isDeleted item = false

instance (self : Cluster) : DecidablePred self.TimerContract
  | .request _ => inferInstanceAs (Decidable True)
  | .expires expired => inferInstanceAs (Decidable (expired.Nodup ∧
      ∀ item ∈ expired, item ∈ self.retainTimer ∧ self.isDeleted item = false))

/-- The PUBLISH of the latest SetRetainTopic for a topic. -/
def latestSet (topicName : TopicName) (events : List RetainEvent) : Option Publish :=
  events.foldl (fun latest event =>
    match event with
    | .request (.setRetainTopic publish) =>
      if publish.topicName = topicName then some publish else latest
    | _ => latest) none

/-- The trie holds a message exactly for the topics of the index, the latest one, and what is not
deleted in the timer is what the index holds. -/
structure Agreement (events : List RetainEvent) (s : Cluster) : Prop where
  held : ∀ t : TopicName,
    s.retainedMessages.root.valuesAt (iterTopicPath t) ≠ [] ↔ t ∈ s.retainTopics
  latest : ∀ t : TopicName, ∀ publish ∈ s.retainedMessages.root.valuesAt (iterTopicPath t),
    latestSet t events = some publish
  timed : ∀ item ∈ s.retainTimer, ∀ retain, s.retains[item]? = some retain →
    retain.deleted = false → s.retainTopics[retain.topicName]? = some item

/-- Different topic names are different paths. -/
theorem iterTopicPath_injective {t t' : TopicName}
    (h : (iterTopicPath t : List String) = iterTopicPath t') : t = t' := by
  cases t
  cases t'
  exact congrArg TopicName.mk (splitLevels_injective h)

/-- What the handlers keep, beside the agreement itself. -/
structure Inv (events : List RetainEvent) (s : Cluster) : Prop extends Agreement events s where
  kept : s.retainedMessages.Kept Node.AtMostOne
  named : ∀ ks, s.retainedMessages.root.valuesAt ks ≠ [] →
    ∃ t ∈ s.retainTopics, iterTopicPath t = ks
  stored : ∀ (t : TopicName) (retain : ℕ), s.retainTopics[t]? = some retain →
    s.retains[retain]? = some ⟨t, false⟩
  known : ∀ item ∈ s.retainTimer, item < s.retains.length

theorem isDeleted_eq {s : Cluster} {item : ℕ} {retain : Retain}
    (h : s.retains[item]? = some retain) : s.isDeleted item = retain.deleted := by
  simp [isDeleted, h]

theorem isDeleted_of_live {s : Cluster} {item : ℕ} {retain : Retain}
    (h : s.retains[item]? = some retain) (hlive : retain.deleted = false) :
    ¬ s.isDeleted item = true := by
  simp [isDeleted_eq h, hlive]

/-- A `Retain` is in the index under one topic only. -/
theorem Inv.index_injective {events : List RetainEvent} {s : Cluster} (h : s.Inv events)
    {t t' : TopicName} {item : ℕ} (ht : s.retainTopics[t]? = some item)
    (ht' : s.retainTopics[t']? = some item) : t = t' := by
  have heq := (h.stored t item ht).symm.trans (h.stored t' item ht')
  simpa using heq

/-- Taking a topic out of the trie and out of the index, where the timer does not keep its item as a
live one. -/
theorem Inv.forget {events : List RetainEvent} {s s' : Cluster} (h : s.Inv events) {t : TopicName}
    (hremove : s.retainedMessages.doRemove t = some s'.retainedMessages)
    (htopics : s'.retainTopics = s.retainTopics.erase t)
    (hlen : s'.retains.length = s.retains.length)
    (hretains : ∀ item, s.retainTopics[t]? ≠ some item → s'.retains[item]? = s.retains[item]?)
    (htimer : ∀ item ∈ s'.retainTimer, item ∈ s.retainTimer ∧
      (s.retainTopics[t]? = some item → s'.isDeleted item = true)) : s'.Inv events := by
  obtain ⟨hnil, hrest, -⟩ := Inner.doRemove_valuesAt h.kept hremove
  have hpath {t' : TopicName} (hne : t' ≠ t) :
      s'.retainedMessages.root.valuesAt (iterTopicPath t') =
        s.retainedMessages.root.valuesAt (iterTopicPath t') :=
    hrest _ fun he => hne (iterTopicPath_injective he)
  have hget (t' : TopicName) :
      s'.retainTopics[t']? = if t = t' then none else s.retainTopics[t']? := by
    rw [htopics, OrdMap.getElem?_erase]
  have hmem (t' : TopicName) : t' ∈ s'.retainTopics ↔ t ≠ t' ∧ t' ∈ s.retainTopics := by
    rw [htopics, OrdMap.mem_erase]
  constructor
  · constructor
    · intro t'
      by_cases hne : t' = t
      · subst hne
        simp [hnil, hmem]
      · rw [hpath hne, h.held, hmem]
        simp [Ne.symm hne]
    · intro t' publish hp
      by_cases hne : t' = t
      · subst hne
        simp [hnil] at hp
      · rw [hpath hne] at hp
        exact h.latest t' publish hp
    · intro item hitem retain hretain hlive
      have hother : s.retainTopics[t]? ≠ some item := fun hold =>
        isDeleted_of_live hretain hlive ((htimer item hitem).2 hold)
      rw [hretains item hother] at hretain
      have hold := h.timed item (htimer item hitem).1 retain hretain hlive
      have hne : t ≠ retain.topicName := by
        rintro rfl
        exact hother hold
      rw [hget, if_neg hne, hold]
  · exact h.kept.doRemove hremove
  · intro ks hks
    have hne : ks ≠ iterTopicPath t := by
      rintro rfl
      exact hks hnil
    rw [hrest ks hne] at hks
    obtain ⟨t', ht', rfl⟩ := h.named ks hks
    exact ⟨t', (hmem t').mpr ⟨fun he => hne (he ▸ rfl), ht'⟩, rfl⟩
  · intro t' item hitem
    rw [hget] at hitem
    split_ifs at hitem with hne
    rw [hretains item fun hold => hne (h.index_injective hold hitem)]
    exact h.stored t' item hitem
  · intro item hitem
    rw [hlen]
    exact h.known item (htimer item hitem).1

theorem latestSet_append (t : TopicName) (events : List RetainEvent) (event : RetainEvent) :
    latestSet t (events ++ [event]) =
      match event with
      | .request (.setRetainTopic publish) =>
        if publish.topicName = t then some publish else latestSet t events
      | _ => latestSet t events := by
  simp only [latestSet, List.foldl_append, List.foldl_cons, List.foldl_nil]

/-- Putting a message under its topic, with a `Retain` of its own; the one before is marked. -/
theorem Inv.remember {events : List RetainEvent} {s s' : Cluster} (h : s.Inv events)
    {publish : Publish}
    (hset : s.retainedMessages.doSet publish.topicName publish = some s'.retainedMessages)
    (htopics : s'.retainTopics = s.retainTopics.insert publish.topicName s.retains.length)
    (hlen : s'.retains.length = s.retains.length + 1)
    (hnew : s'.retains[s.retains.length]? = some ⟨publish.topicName, false⟩)
    (hretains : ∀ item < s.retains.length, s.retainTopics[publish.topicName]? ≠ some item →
      s'.retains[item]? = s.retains[item]?)
    (hgone : ∀ item, s.retainTopics[publish.topicName]? = some item → s'.isDeleted item = true)
    (htimer : ∀ item ∈ s'.retainTimer, item ∈ s.retainTimer ∨ item = s.retains.length) :
    s'.Inv (events ++ [.request (.setRetainTopic publish)]) := by
  obtain ⟨hval, hrest, -⟩ := Inner.doSet_valuesAt h.kept hset
  have hpath {t : TopicName} (hne : publish.topicName ≠ t) :
      s'.retainedMessages.root.valuesAt (iterTopicPath t) =
        s.retainedMessages.root.valuesAt (iterTopicPath t) :=
    hrest _ fun he => hne (iterTopicPath_injective he).symm
  have hget (t : TopicName) : s'.retainTopics[t]? =
      if publish.topicName = t then some s.retains.length else s.retainTopics[t]? := by
    rw [htopics, OrdMap.getElem?_insert]
  have hmem (t : TopicName) :
      t ∈ s'.retainTopics ↔ publish.topicName = t ∨ t ∈ s.retainTopics := by
    rw [htopics, OrdMap.mem_insert]
  constructor
  · constructor
    · intro t
      by_cases hne : publish.topicName = t
      · subst hne
        simp [hval, hmem]
      · rw [hpath hne, h.held, hmem]
        simp [hne]
    · intro t p hp
      rw [latestSet_append]
      by_cases hne : publish.topicName = t
      · subst hne
        rw [hval, List.mem_singleton] at hp
        simp [hp]
      · rw [hpath hne] at hp
        simpa [hne] using h.latest t p hp
    · intro item hitem retain hretain hlive
      rcases htimer item hitem with hold | rfl
      · have hother : s.retainTopics[publish.topicName]? ≠ some item := fun hold' =>
          isDeleted_of_live hretain hlive (hgone item hold')
        rw [hretains item (h.known item hold) hother] at hretain
        have hindex := h.timed item hold retain hretain hlive
        have hne : publish.topicName ≠ retain.topicName := fun he => hother (he ▸ hindex)
        rw [hget, if_neg hne, hindex]
      · rw [hnew] at hretain
        obtain rfl := Option.some.inj hretain
        rw [hget, if_pos rfl]
  · exact h.kept.doSet hset
  · intro ks hks
    by_cases hne : ks = iterTopicPath publish.topicName
    · exact ⟨publish.topicName, (hmem _).mpr (.inl rfl), hne.symm⟩
    · rw [hrest ks hne] at hks
      obtain ⟨t, ht, rfl⟩ := h.named ks hks
      exact ⟨t, (hmem t).mpr (.inr ht), rfl⟩
  · intro t item hitem
    rw [hget] at hitem
    split_ifs at hitem with hne
    · subst hne
      obtain rfl := Option.some.inj hitem
      exact hnew
    · have hstored := h.stored t item hitem
      have hlt : item < s.retains.length := (List.getElem?_eq_some_iff.mp hstored).1
      rw [hretains item hlt fun hold => hne (h.index_injective hold hitem), hstored]
  · intro item hitem
    rw [hlen]
    rcases htimer item hitem with hold | rfl
    · exact (h.known item hold).trans (Nat.lt_succ_self _)
    · exact Nat.lt_succ_self _

@[simp] theorem retainedMessages_deleteOld (s : Cluster) (old : Option ℕ) :
    (s.deleteOld old).retainedMessages = s.retainedMessages := by
  cases old <;> rfl

@[simp] theorem retainTopics_deleteOld (s : Cluster) (old : Option ℕ) :
    (s.deleteOld old).retainTopics = s.retainTopics := by
  cases old <;> rfl

@[simp] theorem retainTimer_deleteOld (s : Cluster) (old : Option ℕ) :
    (s.deleteOld old).retainTimer = s.retainTimer := by
  cases old <;> rfl

@[simp] theorem length_retains_deleteOld (s : Cluster) (old : Option ℕ) :
    (s.deleteOld old).retains.length = s.retains.length := by
  cases old <;> simp [deleteOld, delete]

theorem getElem?_retains_deleteOld (s : Cluster) (old : Option ℕ) (item : ℕ) :
    (s.deleteOld old).retains[item]? =
      if old = some item then s.retains[item]?.map fun r => { r with deleted := true }
      else s.retains[item]? := by
  cases old with
  | none => rfl
  | some old =>
    simp only [deleteOld, delete, List.getElem?_modify, Option.some.injEq]
    split_ifs <;> simp

theorem handleSetRetainTopic_inv {events : List RetainEvent} {s : Cluster} (h : s.Inv events)
    (publish : Publish) : ∃ s', s.handleSetRetainTopic publish = some s' ∧
      s'.Inv (events ++ [.request (.setRetainTopic publish)]) := by
  obtain ⟨inner, hset⟩ := Option.isSome_iff_exists.mp
    (Inner.doSet_isSome (v := publish) h.kept publish.topicName.levels_ne_nil)
  have hold {item : ℕ} (hitem : s.retainTopics[publish.topicName]? = some item) :
      item < s.retains.length := (List.getElem?_eq_some_iff.mp (h.stored _ item hitem)).1
  have hdone (timer : List ℕ)
      (htimer : ∀ item ∈ timer, item ∈ s.retainTimer ∨ item = s.retains.length) :
      Inv (events ++ [.request (.setRetainTopic publish)])
        { Cluster.deleteOld { s with
            retains := s.retains ++ [⟨publish.topicName, false⟩]
            retainTopics := s.retainTopics.insert publish.topicName s.retains.length }
          s.retainTopics[publish.topicName]? with
          retainedMessages := inner, retainTimer := timer } := by
    apply h.remember
    · exact hset
    · simp
    · simp
    · rw [getElem?_retains_deleteOld, if_neg fun he => lt_irrefl _ (hold he)]
      simp
    · intro item hlt hne
      rw [getElem?_retains_deleteOld, if_neg hne]
      simp [List.getElem?_append_left hlt]
    · intro item hitem
      have hstored := h.stored _ item hitem
      simp only [isDeleted, getElem?_retains_deleteOld, hitem, ↓reduceIte,
        List.getElem?_append_left (hold hitem), hstored]
      rfl
    · exact htimer
  simp only [handleSetRetainTopic, retainedMessages_deleteOld, retainTimer_deleteOld, hset,
    Option.bind_eq_bind, Option.bind_some]
  cases publish.properties.bind PublishProperties.messageExpiryInterval with
  | none => exact ⟨_, rfl, hdone s.retainTimer fun item hitem => .inl hitem⟩
  | some secs =>
    refine ⟨_, rfl, hdone (s.retainTimer ++ [s.retains.length]) fun item hitem => ?_⟩
    simpa using hitem

/-- A step that sets nothing leaves the latest messages what they were. -/
theorem Inv.extend {events : List RetainEvent} {s : Cluster} (h : s.Inv events)
    {event : RetainEvent} (hne : ∀ t, latestSet t (events ++ [event]) = latestSet t events) :
    s.Inv (events ++ [event]) := by
  refine ⟨⟨h.held, fun t publish hp => ?_, h.timed⟩, h.kept, h.named, h.stored, h.known⟩
  rw [hne]
  exact h.latest t publish hp

theorem handleResetRetainTopic_inv {events : List RetainEvent} {s s' : Cluster}
    (h : s.Inv events) {t : TopicName} (hs : s.handleResetRetainTopic t = some s') :
    s'.Inv (events ++ [.request (.resetRetainTopic t)]) := by
  simp only [handleResetRetainTopic, retainedMessages_deleteOld, Option.bind_eq_bind,
    Option.bind_eq_some_iff] at hs
  obtain ⟨inner, hremove, hs⟩ := hs
  obtain rfl := Option.some.inj hs
  apply Inv.extend _ fun t' => latestSet_append _ _ _
  apply h.forget (t := t)
  · exact hremove
  · simp
  · simp
  · intro item hne
    rw [getElem?_retains_deleteOld, if_neg hne]
  · intro item hitem
    refine ⟨by simpa using hitem, fun hold => ?_⟩
    simp only [isDeleted, getElem?_retains_deleteOld, hold, ↓reduceIte, h.stored t item hold]
    rfl

/-- A topic to be reset is retained, or it is not the beginning of one that is. -/
def ResetContract (self : Cluster) : RetainEvent → Prop
  | .request (.resetRetainTopic topicName) =>
    topicName ∈ self.retainTopics ∨
      ∀ t ∈ self.retainTopics, ¬ iterTopicPath topicName <+: (iterTopicPath t : List String)
  | _ => True

theorem handleResetRetainTopic_isSome_iff {events : List RetainEvent} {s : Cluster}
    (h : s.Inv events) (t : TopicName) :
    (s.handleResetRetainTopic t).isSome ↔ s.ResetContract (.request (.resetRetainTopic t)) := by
  have hsome : (s.handleResetRetainTopic t).isSome ↔ (s.retainedMessages.doRemove t).isSome := by
    simp only [handleResetRetainTopic, retainedMessages_deleteOld]
    cases s.retainedMessages.doRemove t <;> rfl
  rw [hsome, Inner.doRemove_isSome_iff h.kept t.levels_ne_nil, ResetContract, ← h.held]
  constructor
  · intro hrest
    by_cases hnil : s.retainedMessages.root.valuesAt (iterTopicPath t) = []
    · refine .inr fun t' ht' hpre => ?_
      obtain ⟨ks, hks⟩ := hpre
      exact (h.held t').mpr ht' (hks ▸ hrest hnil ks)
    · exact .inl hnil
  · rintro (hne | hpre) hnil ks
    · exact absurd hnil hne
    · by_contra hks
      obtain ⟨t', ht', hpath⟩ := h.named _ hks
      exact hpre t' ht' (hpath ▸ List.prefix_append _ _)

/-- An item that the index holds and the timer no longer has expires without a panic. -/
theorem expireItem_inv {events : List RetainEvent} {s : Cluster} (h : s.Inv events) {t : TopicName}
    {item : ℕ} (hindex : s.retainTopics[t]? = some item) (hnot : item ∉ s.retainTimer) :
    ∃ s', s.expireItem item = some s' ∧ s'.Inv events ∧ s'.retainTimer = s.retainTimer ∧
      s'.retainTopics = s.retainTopics.erase t := by
  have hne : s.retainedMessages.root.valuesAt (iterTopicPath t) ≠ [] :=
    (h.held t).mpr (ExtTreeMap.mem_iff_isSome_getElem?.mpr (by simp [hindex]))
  obtain ⟨inner, hremove⟩ := Option.isSome_iff_exists.mp
    ((Inner.doRemove_isSome_iff h.kept t.levels_ne_nil).mpr fun hnil => absurd hnil hne)
  refine ⟨{ s with retainedMessages := inner, retainTopics := s.retainTopics.erase t }, ?_, ?_, rfl,
    rfl⟩
  · simp [expireItem, h.stored t item hindex, hremove, hindex]
  · refine h.forget (t := t) hremove rfl rfl (fun _ _ => rfl) ?_
    intro item' hitem'
    refine ⟨hitem', fun hold => ?_⟩
    obtain rfl := Option.some.inj (hindex.symm.trans hold)
    exact absurd hitem' hnot

/-- The loop over the expired items: those to come stay in the index, each under its own topic. -/
theorem expireItems_inv {events : List RetainEvent} {expired : List ℕ} {s : Cluster}
    (h : s.Inv events) (hnodup : expired.Nodup)
    (hexpired : ∀ item ∈ expired, item ∉ s.retainTimer ∧ ∃ t : TopicName,
      s.retainTopics[t]? = some item) :
    ∃ s', expired.foldlM expireItem s = some s' ∧ s'.Inv events := by
  induction expired generalizing s with
  | nil => exact ⟨s, rfl, h⟩
  | cons item rest ih =>
    obtain ⟨hnot, t, hindex⟩ := hexpired item (by simp)
    obtain ⟨s', hs', h', htimer, htopics⟩ := expireItem_inv h hindex hnot
    obtain ⟨hitem, hrest⟩ := List.nodup_cons.mp hnodup
    obtain ⟨s'', hs'', h''⟩ := ih h' hrest fun other hother => by
      obtain ⟨hnot', t', hindex'⟩ := hexpired other (by simp [hother])
      refine ⟨htimer ▸ hnot', t', ?_⟩
      have hne : t ≠ t' := by
        rintro rfl
        obtain rfl := Option.some.inj (hindex.symm.trans hindex')
        exact hitem hother
      rw [htopics, OrdMap.getElem?_erase, if_neg hne, hindex']
    exact ⟨s'', by rw [List.foldlM_cons, hs']; exact hs'', h''⟩

theorem retainExpires_inv {events : List RetainEvent} {s : Cluster} (h : s.Inv events)
    {expired : List ℕ} (hcontract : s.TimerContract (.expires expired)) :
    ∃ s', s.retainExpires expired = some s' ∧ s'.Inv (events ++ [.expires expired]) := by
  obtain ⟨hnodup, hexpired⟩ := hcontract
  have hstart : Inv events { s with
      retainTimer := (s.retainTimer.filter fun item => !s.isDeleted item).filter
        fun item => item ∉ expired } := by
    refine ⟨⟨h.held, h.latest, fun item hitem => ?_⟩, h.kept, h.named, h.stored,
      fun item hitem => ?_⟩
    · exact h.timed item (List.mem_filter.mp (List.mem_filter.mp hitem).1).1
    · exact h.known item (List.mem_filter.mp (List.mem_filter.mp hitem).1).1
  obtain ⟨s', hs', h'⟩ := expireItems_inv hstart hnodup fun item hitem => by
    refine ⟨by simp [hitem], ?_⟩
    obtain ⟨htimer, hlive⟩ := hexpired item hitem
    have hretain := List.getElem?_eq_getElem (h.known item htimer)
    rw [isDeleted_eq hretain] at hlive
    exact ⟨_, h.timed item htimer _ hretain hlive⟩
  exact ⟨s', hs', h'.extend fun t => latestSet_append _ _ _⟩

theorem step_inv {events : List RetainEvent} {s : Cluster} {event : RetainEvent}
    (h : s.Inv events) (htimer : s.TimerContract event) (hreset : s.ResetContract event) :
    ∃ s', s.step event = some s' ∧ s'.Inv (events ++ [event]) := by
  rcases event with (publish | topicName) | expired
  · exact handleSetRetainTopic_inv h publish
  · obtain ⟨s', hs'⟩ := Option.isSome_iff_exists.mp
      ((handleResetRetainTopic_isSome_iff h topicName).mpr hreset)
    exact ⟨s', hs', handleResetRetainTopic_inv h hs'⟩
  · exact retainExpires_inv h htimer

/-- A step that returns met the condition on resets. -/
theorem resetContract_of_step {events : List RetainEvent} {s s' : Cluster} {event : RetainEvent}
    (h : s.Inv events) (hs : s.step event = some s') : s.ResetContract event := by
  rcases event with (publish | topicName) | expired
  · trivial
  · exact (handleResetRetainTopic_isSome_iff h topicName).mp (Option.isSome_of_eq_some hs)
  · trivial

theorem init_inv : init.Inv [] := by
  have hempty (ks : List String) : init.retainedMessages.root.valuesAt ks = [] := by
    cases ks <;> rfl
  refine ⟨⟨fun t => ?_, fun t publish hp => ?_, fun item hitem => ?_⟩,
    Inner.kept_default (Nat.zero_le _), fun ks hks => ?_, fun t item hitem => ?_, fun item hitem => ?_⟩
  · rw [hempty]
    simp [init]
  · simp [hempty] at hp
  · simp [init] at hitem
  · exact absurd (hempty ks) hks
  · simp [init] at hitem
  · simp [init] at hitem

/-- With a timer that keeps its contract, the three structures agree after every step and no step
panics exactly if no reset names the beginning of a retained topic that is not retained itself. -/
theorem agreement_iff {events : List RetainEvent}
    (htimer : Transition.Along step TimerContract init events) :
    (∃ s, Transition.run step init events = some s ∧ s.Agreement events) ↔
      Transition.Along step ResetContract init events := by
  constructor
  · rintro ⟨s, hrun, -⟩
    refine Transition.along_of_run (P := fun s => ∃ hist, s.Inv hist) ?_ ⟨[], init_inv⟩ htimer hrun
    rintro s event s' ⟨hist, h⟩ hcontract hs
    have hreset := resetContract_of_step h hs
    obtain ⟨s'', hs'', h'⟩ := step_inv h hcontract hreset
    obtain rfl := Option.some.inj (hs.symm.trans hs'')
    exact ⟨⟨_, h'⟩, hreset⟩
  · intro hreset
    obtain ⟨s, hrun, h⟩ := Transition.run_progress (P := fun hist s => s.Inv hist)
      (fun hist s event h hG => step_inv h hG.1 hG.2) init_inv (Transition.along_and htimer hreset)
    exact ⟨s, hrun, h.toAgreement⟩

def retainedPublish (topic : String) (expiry : Option UInt32) : Publish :=
  ⟨true, .atMostOnce, false, ⟨topic⟩, none, some { messageExpiryInterval := expiry }, some [1]⟩

def setThenExpire : List RetainEvent :=
  [.request (.setRetainTopic (retainedPublish "a/b" (some 60))), .expires [0]]

theorem agreement_iff_expired :
    ∃ s, Transition.run step init setThenExpire = some s ∧ s.Agreement setThenExpire := by
  refine (agreement_iff (by decide)).mpr (Transition.along_of_forall fun s event hevent => ?_)
  rcases List.mem_cons.mp hevent with rfl | hevent
  · trivial
  · obtain rfl := List.mem_singleton.mp hevent
    trivial

/-- A reset of a topic above a retained one panics. -/
theorem reset_above_retained_panics :
    ¬ ∀ events : List RetainEvent, Transition.Along step TimerContract init events →
      ∃ s, Transition.run step init events = some s ∧ s.Agreement events := by
  intro h
  obtain ⟨s, hrun, -⟩ := h [.request (.setRetainTopic (retainedPublish "a/b" none)),
    .request (.resetRetainTopic ⟨"a"⟩)] (by decide)
  have hnone : (Transition.run step init
      [.request (.setRetainTopic (retainedPublish "a/b" none)),
        .request (.resetRetainTopic ⟨"a"⟩)]).isNone := by decide
  rw [hrun] at hnone
  cases hnone

end Cluster
end Mqtr
