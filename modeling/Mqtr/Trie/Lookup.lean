import Mqtr.Trie.Update

/-! Looking up retained messages by a topic filter. The query has the wildcards here, and the trie
holds plain names. -/
namespace Mqtr

/-- Messages are ordered by their topics. -/
def Publish.cmp (self other : Publish) : Ordering :=
  compare self.topicName.val other.topicName.val

instance : Ord Publish := ⟨Publish.cmp⟩

instance : Std.TransOrd Publish :=
  inferInstanceAs (Std.TransCmp (compareOn fun p : Publish => p.topicName.val))

theorem Node.AtMostOne.inOrder {V : Type} [Ord V] (vs : List V) (h : AtMostOne vs) :
    InOrder vs := by
  rcases vs with _ | ⟨v, _ | ⟨w, vs⟩⟩
  · exact .nil
  · exact List.pairwise_singleton ..
  · simp [AtMostOne] at h

/-- On plain names a filter with nothing after its `#` is walked as the specification has it, except
that the `#` stands for exactly one level. -/
theorem Node.catches_iff {fs ks : List String} (hfs : (fs.dropWhile (· != "#")).drop 1 = [])
    (hks : ∀ k ∈ ks, isWildcard k = false) :
    catches fs ks ↔ levelsMatch fs ks ∧ ks.length = fs.length := by
  induction fs generalizing ks with
  | nil => cases ks <;> simp [catches, levelsMatch]
  | cons f fs ih =>
    cases ks with
    | nil => simp [catches]
    | cons k ks =>
      obtain ⟨hhash, hplus⟩ : ¬ k = "#" ∧ ¬ k = "+" := by
        simpa [isWildcard] using hks k List.mem_cons_self
      by_cases hf : f = "#"
      · subst hf
        obtain rfl : fs = [] := by simpa using hfs
        simp [catches, levelsMatch]
      · have hrest := ih (by simpa [hf] using hfs) fun x hx => hks x (List.mem_cons_of_mem _ hx)
        have hmatch : levelsMatch (f :: fs) (k :: ks) =
            ((f = "+" || f = k) && levelsMatch fs ks) := by
          simp [levelsMatch, hf]
        simp [catches, hmatch, hf, hhash, hplus, hrest, and_assoc]

theorem TopicFilter.nothing_after_hash {f : TopicFilter} (hf : f.validate = .ok ()) :
    ((iterTopicPath f : List String).dropWhile (· != "#")).drop 1 = [] := by
  by_contra h
  simp only [TopicFilter.validate] at hf
  split_ifs at hf
  all_goals exact errCode_ne_ok _ _ _ _ hf

theorem TopicFilter.levels_ne_nil (f : TopicFilter) : (iterTopicPath f : List String) ≠ [] := by
  simp [iterTopicPath, splitLevels, List.splitOn_ne_nil]

namespace Inner
variable {inner : Inner Publish} {f : TopicFilter}

/-- The lookup returns, with the message retained under a name that the filter matches if there is
one and with none otherwise. -/
def FindsRetained (inner : Inner Publish) (f : TopicFilter) : Prop :=
  ∃ res inner', inner.matchTopicFilter f = some (res, inner') ∧
    ∀ publ, res = some publ ↔
      ∃ ks, publ ∈ inner.view ks ∧ levelsMatch (iterTopicPath f) ks

/-- The entries that the walk finds, with their paths. -/
def found (inner : Inner Publish) (f : TopicFilter) : List (List String × Publish) :=
  inner.root.matchPaths false (iterTopicPath f)

theorem matchTopicFilter_eq_some_iff (hi : inner.Kept Node.AtMostOne) {res : Option Publish} :
    (∃ inner', inner.matchTopicFilter f = some (res, inner')) ↔
      ∃ e, inner.found f = [e] ∧ res = some e.2 := by
  have hm : inner.root.matchTopic false (iterTopicPath f) =
      some (some ((inner.found f).map Prod.snd)) := by
    rw [Node.matchTopic_eq false _ (hi.kept.sorted Node.AtMostOne.inOrder),
      if_neg fun h => f.levels_ne_nil h.1]
    rfl
  simp only [matchTopicFilter, hm, Option.bind_eq_bind, Option.bind_some]
  rcases inner.found f with _ | ⟨e, _ | ⟨e', es⟩⟩
  · simp
  · simp [eq_comm]
  · simp

theorem mem_found (hi : inner.Kept Node.AtMostOne) {e : List String × Publish} :
    e ∈ inner.found f ↔ e.2 ∈ inner.view e.1 ∧ Node.catches (iterTopicPath f) e.1 := by
  rw [found, Node.mem_matchPaths_catches false _ (hi.kept.sorted Node.AtMostOne.inOrder)]
  simp [view]

theorem view_eq_singleton (hi : inner.Kept Node.AtMostOne) {ks : List String} {publ : Publish}
    (h : publ ∈ inner.view ks) : inner.view ks = [publ] := by
  have hone : Node.AtMostOne (inner.view ks) := hi.kept.valuesAt (Nat.zero_le _) ks
  rcases hv : inner.view ks with _ | ⟨w, _ | ⟨x, ws⟩⟩
  · simp [hv] at h
  · rw [hv, List.mem_singleton] at h
    rw [h]
  · simp [hv, Node.AtMostOne] at hone

/-- One entry is found exactly if one key that holds a message is caught. -/
theorem found_eq_singleton_iff (hi : inner.Kept Node.AtMostOne) {ks : List String}
    {publ : Publish} :
    inner.found f = [(ks, publ)] ↔ publ ∈ inner.view ks ∧
      ∀ ks', inner.view ks' ≠ [] → (Node.catches (iterTopicPath f) ks' ↔ ks' = ks) := by
  constructor
  · intro hfound
    have hmem (e : List String × Publish) : e.2 ∈ inner.view e.1 ∧
        Node.catches (iterTopicPath f) e.1 ↔ e = (ks, publ) := by
      rw [← mem_found hi, hfound, List.mem_singleton]
    obtain ⟨hpubl, hcatch⟩ := (hmem (ks, publ)).mpr rfl
    refine ⟨hpubl, fun ks' hheld => ⟨fun hc => ?_, fun heq => heq ▸ hcatch⟩⟩
    obtain ⟨p, hp⟩ := List.exists_mem_of_ne_nil _ hheld
    exact congrArg Prod.fst ((hmem (ks', p)).mp ⟨hp, hc⟩)
  · rintro ⟨hpubl, hcatch⟩
    have hall : ∀ e ∈ inner.found f, e = (ks, publ) := by
      intro e he
      obtain ⟨hv, hc⟩ := (mem_found hi).mp he
      have hks : e.1 = ks := (hcatch e.1 (List.ne_nil_of_mem hv)).mp hc
      rw [hks, view_eq_singleton hi hpubl, List.mem_singleton] at hv
      exact Prod.ext hks hv
    have hin : (ks, publ) ∈ inner.found f :=
      (mem_found hi).mpr ⟨hpubl, (hcatch ks (List.ne_nil_of_mem hpubl)).mpr rfl⟩
    have hnodup : (inner.found f).Nodup :=
      Node.matchPaths_nodup false _ (hi.kept.sorted Node.AtMostOne.inOrder)
    rw [List.eq_replicate_of_mem hall] at hnodup hin ⊢
    obtain hlen | hlen := Nat.le_one_iff_eq_zero_or_eq_one.mp (List.nodup_replicate.mp hnodup)
    · simp [hlen] at hin
    · rw [hlen]
      rfl

/-- The walk catches one retained name, and what is retained there is retained under a name that the
filter matches. -/
theorem findsRetained_iff_catches (hi : inner.Kept Node.AtMostOne)
    (hone : ∀ ks ks', inner.view ks ≠ [] → inner.view ks' ≠ [] →
      levelsMatch (iterTopicPath f) ks → levelsMatch (iterTopicPath f) ks' → ks = ks') :
    inner.FindsRetained f ↔
      ∃ publ ks, publ ∈ inner.view ks ∧
        (∀ ks', inner.view ks' ≠ [] → (Node.catches (iterTopicPath f) ks' ↔ ks' = ks)) ∧
        ∃ ks', publ ∈ inner.view ks' ∧ levelsMatch (iterTopicPath f) ks' := by
  have hfinds : inner.FindsRetained f ↔ ∃ e, inner.found f = [e] ∧
      ∀ publ, some e.2 = some publ ↔
        ∃ ks, publ ∈ inner.view ks ∧ levelsMatch (iterTopicPath f) ks := by
    unfold FindsRetained
    constructor
    · rintro ⟨res, inner', hr, hres⟩
      obtain ⟨e, he, rfl⟩ := (matchTopicFilter_eq_some_iff hi).mp ⟨inner', hr⟩
      exact ⟨e, he, hres⟩
    · rintro ⟨e, he, hres⟩
      obtain ⟨inner', hr⟩ := (matchTopicFilter_eq_some_iff hi).mpr ⟨e, he, rfl⟩
      exact ⟨_, inner', hr, hres⟩
  rw [hfinds]
  constructor
  · rintro ⟨⟨ks, publ⟩, he, hres⟩
    obtain ⟨hpubl, hcatch⟩ := (found_eq_singleton_iff hi).mp he
    exact ⟨publ, ks, hpubl, hcatch, (hres publ).mp rfl⟩
  · rintro ⟨publ, ks, hpubl, hcatch, ks', hpubl', hmatch⟩
    refine ⟨(ks, publ), (found_eq_singleton_iff hi).mpr ⟨hpubl, hcatch⟩, fun p => ?_⟩
    constructor
    · intro hp
      exact ⟨ks', Option.some.inj hp ▸ hpubl', hmatch⟩
    · rintro ⟨ks'', hp, hmatch''⟩
      -- the only key that the filter matches holds only the message found
      have hks := hone ks' ks'' (List.ne_nil_of_mem hpubl') (List.ne_nil_of_mem hp) hmatch hmatch''
      rw [← hks, view_eq_singleton hi hpubl', List.mem_singleton] at hp
      rw [hp]

end Inner

/-- A filter that matches at most one retained name finds its message exactly if the walk catches one
name and the message there is one that the filter asks for. Where no retained name has a wildcard
level, that is: there is a name that the filter matches, and it has as many levels as the filter. -/
theorem findsRetained_iff {ops : List (RetainOp Publish)} {inner : Inner Publish}
    (hrun : RetainOp.run Inner.default ops = some inner) {f : TopicFilter}
    (hf : f.validate = .ok ())
    (hone : ∀ ks ks', inner.view ks ≠ [] → inner.view ks' ≠ [] →
      levelsMatch (iterTopicPath f) ks → levelsMatch (iterTopicPath f) ks' → ks = ks') :
    (inner.FindsRetained f ↔
      ∃ publ ks, publ ∈ inner.view ks ∧
        (∀ ks', inner.view ks' ≠ [] → (Node.catches (iterTopicPath f) ks' ↔ ks' = ks)) ∧
        ∃ ks', publ ∈ inner.view ks' ∧ levelsMatch (iterTopicPath f) ks') ∧
    ((∀ ks, inner.view ks ≠ [] → ∀ k ∈ ks, isWildcard k = false) →
      (inner.FindsRetained f ↔ ∃ ks, inner.view ks ≠ [] ∧ levelsMatch (iterTopicPath f) ks ∧
        ks.length = (iterTopicPath f : List String).length)) := by
  have hi := RetainOp.run_kept hrun
  have hiff := Inner.findsRetained_iff_catches hi hone
  refine ⟨hiff, fun hplain => hiff.trans ?_⟩
  have hcatch {ks : List String} (hheld : inner.view ks ≠ []) :=
    Node.catches_iff (TopicFilter.nothing_after_hash hf) (hplain ks hheld)
  constructor
  · rintro ⟨publ, ks, hpubl, honly, -⟩
    have hheld := List.ne_nil_of_mem hpubl
    exact ⟨ks, hheld, (hcatch hheld).mp ((honly ks hheld).mpr rfl)⟩
  · rintro ⟨ks, hheld, hmatch, hlen⟩
    obtain ⟨publ, hpubl⟩ := List.exists_mem_of_ne_nil _ hheld
    refine ⟨publ, ks, hpubl, fun ks' hheld' => ?_, ks, hpubl, hmatch⟩
    rw [hcatch hheld']
    constructor
    · exact fun h => hone ks' ks hheld' hheld h.1 hmatch
    · rintro rfl
      exact ⟨hmatch, hlen⟩

def note (topic : String) : Publish :=
  ⟨true, .atMostOnce, false, ⟨topic⟩, none, none, some [1]⟩

theorem findsRetained_iff_plus :
    ∃ inner : Inner Publish, RetainOp.run Inner.default [.set ["a"] (note "a")] = some inner ∧
      inner.FindsRetained ⟨"+"⟩ := by
  obtain ⟨inner, hset, hview⟩ :=
    Inner.doSet_view (Inner.kept_default (Nat.zero_le _)) (by decide : iterTopicPath ["a"] ≠ [])
      (v := note "a")
  have hrun : RetainOp.run Inner.default [.set ["a"] (note "a")] = some inner :=
    Transition.run_cons.mpr ⟨inner, hset, rfl⟩
  rw [Inner.view_default] at hview
  have hheld {ks : List String} (h : inner.view ks ≠ []) : ks = ["a"] := by
    by_contra hne
    rw [hview] at h
    exact h (Function.update_of_ne hne ..)
  have hfinds := findsRetained_iff hrun (f := ⟨"+"⟩) (by decide)
    fun ks ks' h h' _ _ => (hheld h).trans (hheld h').symm
  refine ⟨inner, hrun, (hfinds.2 ?_).mpr ⟨["a"], ?_, by decide, by decide⟩⟩
  · intro ks h k hk
    rw [hheld h, List.mem_singleton] at hk
    rw [hk]
    decide
  · rw [hview]
    exact ne_of_eq_of_ne (Function.update_self ..) (by simp)

/-- Where nothing is retained, the lookup aborts instead of returning none. -/
theorem lookup_without_match_aborts :
    ¬ ∀ (ops : List (RetainOp Publish)) (inner : Inner Publish) (f : TopicFilter),
      RetainOp.run Inner.default ops = some inner → f.validate = .ok () →
      (∀ ks ks', inner.view ks ≠ [] → inner.view ks' ≠ [] → levelsMatch (iterTopicPath f) ks →
        levelsMatch (iterTopicPath f) ks' → ks = ks') → inner.FindsRetained f := by
  intro h
  obtain ⟨res, inner', hr, -⟩ := h [] Inner.default ⟨"a"⟩ rfl (by decide)
    fun ks _ hheld => absurd (congrFun Inner.view_default ks) hheld
  cases hr

end Mqtr
