import Mqtr.Trie.Invariant

/-! Matching a topic name against the stored filters. The lookup is compared with the matching
rules of section 4.7 of the MQTT specification, through a walk that also records under which path
each value was found. -/
namespace Mqtr

section Loops
variable {α β : Type}

theorem filterM_eq_filter {f : α → Option Bool} {p : α → Bool} {xs : List α}
    (h : ∀ x ∈ xs, f x = some (p x)) : xs.filterM f = some (xs.filter p) := by
  have aux (ys acc : List α) (hy : ∀ x ∈ ys, f x = some (p x)) :
      ys.filterAuxM f acc = some ((ys.filter p).reverse ++ acc) := by
    induction ys generalizing acc with
    | nil => rfl
    | cons y ys ih =>
      have hrest := fun acc => ih acc fun x hx => hy x (by simp [hx])
      simp only [List.filterAuxM, hy y (by simp), Option.bind_eq_bind, Option.bind_some, hrest]
      cases hp : p y <;> simp [hp]
  simp [List.filterM, aux xs [] h]

/-- A loop that appends the part found at each element collects the parts in order. -/
theorem foldlM_eq_flatMap {f : List β → α → Option (List β)} {g : α → List β} {xs : List α}
    (h : ∀ x ∈ xs, ∀ acc, f acc x = some (acc ++ g x)) (acc : List β) :
    xs.foldlM f acc = some (acc ++ xs.flatMap g) := by
  induction xs generalizing acc with
  | nil => simp
  | cons x xs ih =>
    rw [List.foldlM_cons, h x (by simp) acc]
    simpa using ih (fun y hy => h y (by simp [hy])) (acc ++ g x)

end Loops

def isWildcard (level : String) : Bool := level = "#" || level = "+"

/-- `+` stands for one level, a final `#` for the parent level and any number of further ones. -/
def levelsMatch : List String → List String → Bool
  | ["#"], _ => true
  | [], [] => true
  | f :: fs, t :: ts => (f = "+" || f = t) && levelsMatch fs ts
  | _, _ => false

def TopicName.isDollar (t : TopicName) : Bool := t.val.toList.head? = some '$'

/-- A filter, given by its levels, matches a topic name: level by level, and not by a leading
wildcard if the topic begins with `$`. -/
def filterMatches (filter : List String) (t : TopicName) : Bool :=
  levelsMatch filter (iterTopicPath t) && !(t.isDollar && filter.head?.any isWildcard)

namespace Node
variable {V : Type}

/-- The values stored under a path. -/
def valuesAt : List String → Node V → List V
  | [], n => n.values
  | l :: ls, n =>
    match n.children.find? (·.label = l) with
    | some c => valuesAt ls c
    | none => []

def scope (dollar : Bool) : Node V → List (Node V)
  | .root children => if dollar then children.filter (fun c => !isWildcard c.label) else children
  | .child _ children _ => children

/-- What one child contributes to a walk, with the paths below its parent. -/
def childPaths (deeper : Node V → List (List String × V)) (inLevel : String) (c : Node V) :
    List (List String × V) :=
  match matchLevel inLevel c.label with
  | (_, true) => c.values.map fun v => ([c.label], v)
  | (true, _) => (deeper c).map fun e => (c.label :: e.1, e.2)
  | (false, false) => []

/-- The walk of `matchTopic`, with the path under which each value was found. -/
def matchPaths (dollar : Bool) : List String → Node V → List (List String × V)
  | [], n => n.values.map fun v => ([], v)
  | inLevel :: inLevels, n =>
    (n.scope dollar).flatMap (childPaths (matchPaths dollar inLevels) inLevel)

theorem scope_subset (dollar : Bool) (n : Node V) : ∀ c ∈ n.scope dollar, c ∈ n.children := by
  intro c hc
  cases n with
  | root children =>
    cases dollar with
    | false => exact hc
    | true => exact (List.mem_filter.mp hc).1
  | child => exact hc

/-- The children left out are the wildcard children of the root. -/
theorem mem_scope {dollar : Bool} {n c : Node V} :
    c ∈ n.scope dollar ↔
      c ∈ n.children ∧ (dollar → n.asName = none → isWildcard c.label = false) := by
  cases n <;> cases dollar <;> simp [scope, children, asName]

/-- The paths the walk takes for a topic name: as the specification has it, except that a final `#`
stands for one level or more. -/
def walks : List String → List String → Bool
  | [], [] => true
  | f :: fs, t :: ts => if f = "#" then fs = [] else (f = "+" || f = t) && walks fs ts
  | _, _ => false

theorem walks_iff {p ls : List String} (hls : ∀ l ∈ ls, isWildcard l = false) :
    walks p ls ↔ levelsMatch p ls ∧ p.length ≤ ls.length := by
  induction ls generalizing p with
  | nil =>
    match p with
    | [] => simp [walks, levelsMatch]
    | _ :: _ => simp [walks]
  | cons t ts ih =>
    have ht : ¬ t = "#" := by
      have := hls t (by simp)
      simp only [isWildcard, Bool.or_eq_false_iff, decide_eq_false_iff_not] at this
      exact this.1
    have ih' := fun q => ih (p := q) fun l hl => hls l (by simp [hl])
    match p with
    | [] => simp [walks, levelsMatch]
    | [f] =>
      by_cases hf : f = "#"
      · simp [walks, levelsMatch, hf]
      · simp [walks, levelsMatch, hf, ih']
    | f :: g :: fs =>
      by_cases hf : f = "#"
      · subst hf
        simp [walks, levelsMatch, Ne.symm ht]
      · have hlen : (f :: g :: fs).length ≤ (t :: ts).length ↔ (g :: fs).length ≤ ts.length := by
          simp
        rw [hlen]
        simp [walks, levelsMatch, hf, ih', and_assoc]

/-- The paths the walk takes for any levels, wildcards among them: a `#` on either side stands for one
last level. -/
def catches : List String → List String → Bool
  | [], [] => true
  | l :: ls, f :: fs =>
    if l = "#" || f = "#" then fs = [] else (l = "+" || f = "+" || l = f) && catches ls fs
  | _, _ => false

theorem catches_of_plain {p ls : List String} (hls : ∀ l ∈ ls, isWildcard l = false) :
    catches ls p = walks p ls := by
  induction ls generalizing p with
  | nil => cases p <;> rfl
  | cons l ls ih =>
    cases p with
    | nil => rfl
    | cons f fs =>
      obtain ⟨hhash, hplus⟩ : ¬ l = "#" ∧ ¬ l = "+" := by
        simpa [isWildcard] using hls l List.mem_cons_self
      have hrest := ih (p := fs) fun x hx => hls x (List.mem_cons_of_mem _ hx)
      simp [catches, walks, hhash, hplus, hrest, eq_comm]

theorem mem_childPaths {deeper : Node V → List (List String × V)} {l : String} {c : Node V}
    {p : List String} {v : V} :
    (p, v) ∈ childPaths deeper l c ↔ ∃ q, p = c.label :: q ∧
      if l = "#" ∨ c.label = "#" then q = [] ∧ v ∈ c.values
      else (l = "+" ∨ c.label = "+" ∨ l = c.label) ∧ (q, v) ∈ deeper c := by
  by_cases hhash : l = "#" ∨ c.label = "#"
  · have hlevel : matchLevel l c.label = (true, true) := by
      rcases hhash with h | h <;> simp [matchLevel, h]
    simp only [childPaths, hlevel, if_pos hhash, List.mem_map, Prod.mk.injEq]
    constructor
    · rintro ⟨w, hw, rfl, rfl⟩
      exact ⟨[], rfl, rfl, hw⟩
    · rintro ⟨q, rfl, rfl, hv⟩
      exact ⟨v, hv, rfl, rfl⟩
  · obtain ⟨hl, hc⟩ := not_or.mp hhash
    by_cases hplus : l = "+" ∨ c.label = "+" ∨ l = c.label
    · have hlevel : matchLevel l c.label = (true, false) := by
        rcases hplus with h | h | h <;> simp_all [matchLevel, compareLevel]
      simp only [childPaths, hlevel, if_neg hhash, hplus, true_and, List.mem_map, Prod.mk.injEq]
      constructor
      · rintro ⟨e, he, rfl, rfl⟩
        exact ⟨e.1, rfl, he⟩
      · rintro ⟨q, rfl, hq⟩
        exact ⟨(q, v), hq, rfl, rfl⟩
    · have hlevel : matchLevel l c.label = (false, false) := by
        obtain ⟨hl', hc', hne⟩ : ¬ l = "+" ∧ ¬ c.label = "+" ∧ ¬ l = c.label := by tauto
        simp [matchLevel, compareLevel, hl, hc, hl', hc', hne]
      simp [childPaths, hlevel, hhash, hplus]

theorem find_label {ns : List (Node V)}
    (hnames : ns.Pairwise fun a b => compare a.label b.label = .lt) {c : Node V} (hc : c ∈ ns) :
    ns.find? (·.label = c.label) = some c := by
  obtain ⟨pre, post, rfl⟩ := List.append_of_mem hc
  refine List.find?_eq_some_iff_append.mpr ⟨by simp, pre, post, rfl, fun a ha => ?_⟩
  have hlt := (List.pairwise_append.mp hnames).2.2 a ha c (by simp)
  have hne : a.label ≠ c.label := by
    intro he
    rw [he] at hlt
    simp at hlt
  simpa using hne

variable [Ord V]

theorem candidates_eq {n : Node V} (h : Forest n.children) (dollar : Bool) :
    n.candidates dollar = some (n.scope dollar) := by
  cases n with
  | root children =>
    cases dollar with
    | false => rfl
    | true =>
      refine filterM_eq_filter fun c hc => ?_
      rw [(branch_iff.mp (h.below c hc)).1]
      rfl
  | child => rfl

/-- On an ordered tree the lookup returns, with the values of the recorded walk. -/
theorem matchTopic_eq (dollar : Bool) (ls : List String) {n : Node V} (h : n.Sorted) :
    matchTopic dollar ls n =
      some (if ls = [] ∧ n.asName = none then none else
        some ((matchPaths dollar ls n).map Prod.snd)) := by
  induction ls generalizing n with
  | nil => cases n <;> simp [matchTopic, asName, matchPaths, values]
  | cons l ls ih =>
    have hstep (c : Node V) (hc : c ∈ n.scope dollar) (acc : List V) :
        matchChild (matchTopic dollar ls) l acc c =
          some (acc ++ (childPaths (matchPaths dollar ls) l c).map Prod.snd) := by
      have hb := branch_iff.mp (h.forest.below c (scope_subset dollar n c hc))
      have hdeep := ih hb.2
      rw [hb.1] at hdeep
      simp only [reduceCtorEq, and_false, if_false] at hdeep
      obtain ⟨name, children, vals, rfl⟩ : ∃ name children vals, c = .child name children vals := by
        cases c with
        | root => simp [asName] at hb
        | child name children vals => exact ⟨name, children, vals, rfl⟩
      simp only [matchChild, childPaths, asName, label, Option.bind_eq_bind, Option.bind_some, hdeep]
      rcases matchLevel l name with ⟨_ | _, _ | _⟩ <;> simp [values]
    rw [matchTopic, candidates_eq h.forest]
    simp only [Option.bind_eq_bind, Option.bind_some, reduceCtorEq, false_and, if_false,
      foldlM_eq_flatMap hstep []]
    simp [matchPaths, List.map_flatMap]

theorem mem_valuesAt_cons {n : Node V} (h : Forest n.children) {f : String} {fs : List String}
    {v : V} : v ∈ n.valuesAt (f :: fs) ↔ ∃ c ∈ n.children, c.label = f ∧ v ∈ c.valuesAt fs := by
  constructor
  · intro hv
    simp only [valuesAt] at hv
    split at hv
    · rename_i c hc
      exact ⟨c, List.mem_of_find?_eq_some hc, by simpa using List.find?_some hc, hv⟩
    · simp at hv
  · rintro ⟨c, hc, rfl, hv⟩
    rw [valuesAt, find_label h.names hc]
    exact hv

/-- The walk finds a value under a path exactly if it is stored there and the path is one the walk
takes. -/
theorem mem_matchPaths_catches (dollar : Bool) (ls : List String) {n : Node V} (h : n.Sorted)
    {p : List String} {v : V} :
    (p, v) ∈ matchPaths dollar ls n ↔ v ∈ n.valuesAt p ∧ catches ls p ∧
      (dollar → n.asName = none → p.head?.any isWildcard = false) := by
  induction ls generalizing n p with
  | nil =>
    cases p with
    | nil => simp [matchPaths, valuesAt, catches]
    | cons f fs => simp [matchPaths, catches]
  | cons l ls ih =>
    have hdeep {c : Node V} (hc : c ∈ n.children) {q : List String} :
        (q, v) ∈ matchPaths dollar ls c ↔ v ∈ c.valuesAt q ∧ catches ls q := by
      have hb := branch_iff.mp (h.forest.below c hc)
      rw [ih hb.2, hb.1]
      simp
    simp only [matchPaths, List.mem_flatMap, mem_childPaths, mem_scope]
    constructor
    · rintro ⟨c, ⟨hc, hroot⟩, q, rfl, hcase⟩
      rw [mem_valuesAt_cons h.forest]
      split_ifs at hcase with hh
      · obtain ⟨rfl, hv⟩ := hcase
        exact ⟨⟨c, hc, rfl, hv⟩, by simp [catches, hh], by simpa using hroot⟩
      · obtain ⟨hlev, hv⟩ := hcase
        obtain ⟨hv, hw⟩ := (hdeep hc).mp hv
        exact ⟨⟨c, hc, rfl, hv⟩, by simpa [catches, hh, hw, or_assoc] using hlev,
          by simpa using hroot⟩
    · rintro ⟨hv, hw, hroot⟩
      cases p with
      | nil => simp [catches] at hw
      | cons f fs =>
        obtain ⟨c, hc, rfl, hvc⟩ := (mem_valuesAt_cons h.forest).mp hv
        refine ⟨c, ⟨hc, by simpa using hroot⟩, fs, rfl, ?_⟩
        simp only [catches, Bool.or_eq_true, decide_eq_true_eq] at hw
        split_ifs at hw ⊢ with hh
        · obtain rfl : fs = [] := by simpa using hw
          exact ⟨rfl, hvc⟩
        · simp only [Bool.and_eq_true, Bool.or_eq_true, decide_eq_true_eq, or_assoc] at hw
          exact ⟨hw.1, (hdeep hc).mpr ⟨hvc, hw.2⟩⟩

theorem mem_matchPaths (dollar : Bool) {ls : List String} (hls : ∀ l ∈ ls, isWildcard l = false)
    {n : Node V} (h : n.Sorted) {p : List String} {v : V} :
    (p, v) ∈ matchPaths dollar ls n ↔ v ∈ n.valuesAt p ∧ walks p ls ∧
      (dollar → n.asName = none → p.head?.any isWildcard = false) := by
  rw [mem_matchPaths_catches dollar ls h, catches_of_plain hls]

/-- No entry is found twice: siblings have different names and a node has no value twice. -/
theorem matchPaths_nodup [Std.TransOrd V] (dollar : Bool) (ls : List String) {n : Node V}
    (h : n.Sorted) : (matchPaths dollar ls n).Nodup := by
  have hvals {m : Node V} (hm : m.Sorted) : m.values.Nodup := by
    refine hm.vals.imp fun {a b} hab he => ?_
    rw [he] at hab
    simp at hab
  induction ls generalizing n with
  | nil => exact (hvals h).map fun a b hab => (Prod.mk.inj hab).2
  | cons l ls ih =>
    have hhead (c : Node V) (e : List String × V)
        (he : e ∈ childPaths (matchPaths dollar ls) l c) : e.1.head? = some c.label := by
      unfold childPaths at he
      split at he
      · obtain ⟨v, -, rfl⟩ := List.mem_map.mp he
        rfl
      · obtain ⟨e', -, rfl⟩ := List.mem_map.mp he
        rfl
      · simp at he
    refine List.nodup_flatMap.mpr ⟨fun c hc => ?_, ?_⟩
    · have hb := branch_iff.mp (h.forest.below c (scope_subset dollar n c hc))
      unfold childPaths
      split
      · exact (hvals hb.2).map fun a b hab => (Prod.mk.inj hab).2
      · refine (ih hb.2).map fun a b hab => ?_
        simp only [Prod.mk.injEq, List.cons.injEq, true_and] at hab
        exact Prod.ext hab.1 hab.2
      · exact List.nodup_nil
    · have hnames : (n.scope dollar).Pairwise fun a b => compare a.label b.label = .lt := by
        cases n with
        | root children =>
          cases dollar with
          | false => exact h.forest.names
          | true => exact h.forest.names.filter _
        | child => exact h.forest.names
      refine hnames.imp fun {a b} hab e hea heb => ?_
      have he : a.label = b.label := by
        rw [← Option.some.injEq, ← hhead a e hea, ← hhead b e heb]
      rw [he] at hab
      simp at hab

end Node

theorem mem_intercalate {α : Type} {sep xs : List α} {xss : List (List α)} {x : α}
    (hxs : xs ∈ xss) (hx : x ∈ xs) : x ∈ sep.intercalate xss := by
  induction xss with
  | nil => simp at hxs
  | cons ys yss ih =>
    cases yss with
    | nil =>
      obtain rfl := List.mem_singleton.mp hxs
      simpa using hx
    | cons zs zss =>
      rw [List.intercalate_cons_cons]
      rcases List.mem_cons.mp hxs with rfl | hxs
      · simp [hx]
      · simp [ih hxs]

theorem mem_of_mem_splitLevels {s l : String} {c : Char} (hl : l ∈ splitLevels s)
    (hc : c ∈ l.toList) : c ∈ s.toList := by
  obtain ⟨cs, hcs, rfl⟩ := List.mem_map.mp hl
  rw [String.toList_ofList] at hc
  have hjoin : ['/'].intercalate (s.toList.splitOn '/') = s.toList := List.intercalate_splitOn '/'
  rw [← hjoin]
  exact mem_intercalate hcs hc

/-- A string is what its levels are joined to. -/
theorem splitLevels_injective {s t : String} (h : splitLevels s = splitLevels t) : s = t := by
  have hsplit : s.toList.splitOn '/' = t.toList.splitOn '/' :=
    List.map_injective_iff.mpr (fun _ _ hs => String.ofList_injective hs) h
  have hjoin := congrArg (List.intercalate ['/']) hsplit
  rw [List.intercalate_splitOn, List.intercalate_splitOn] at hjoin
  exact String.toList_injective hjoin

/-- A valid topic name has no wildcard level. -/
theorem TopicName.levels_plain {t : TopicName} (ht : t.validate = .ok ()) :
    ∀ l ∈ (iterTopicPath t : List String), isWildcard l = false := by
  intro l hl
  have h₂ : ¬ t.val.toList.any (fun ch => ch == '#' || ch == '+' || ch == '\x00') := by
    intro h
    unfold TopicName.validate at ht
    rw [if_pos h] at ht
    split_ifs at ht <;> exact errCode_ne_ok _ _ _ _ ht
  simp only [List.any_eq_true, Bool.or_eq_true, beq_iff_eq, not_exists, not_and] at h₂
  have hplain (w : Char) (hw : w = '#' ∨ w = '+') : l ≠ String.ofList [w] := by
    rintro rfl
    have hmem := mem_of_mem_splitLevels hl (c := w) (by simp)
    exact h₂ w hmem (.inl hw)
  simp only [isWildcard, Bool.or_eq_false_iff, decide_eq_false_iff_not]
  exact ⟨hplain '#' (.inl rfl), hplain '+' (.inr rfl)⟩

theorem TopicName.levels_ne_nil (t : TopicName) : (iterTopicPath t : List String) ≠ [] := by
  simp [iterTopicPath, splitLevels, List.splitOn_ne_nil]

/-- A lookup in a reachable trie returns the values of the recorded walk. -/
theorem Inner.matchTopicName_eq {inner : Inner Subscription} (h : TrieOp.Reachable inner)
    (t : TopicName) : ∃ inner', inner.matchTopicName t =
      some ((inner.root.matchPaths true (iterTopicPath t)).map Prod.snd, inner') := by
  have hm := Node.matchTopic_eq true (iterTopicPath t) h.sorted.sorted
  simp only [t.levels_ne_nil, false_and, if_false] at hm
  exact ⟨_, by rw [matchTopicName, hm]; rfl⟩

/-- An entry is found exactly if it is stored under a filter that matches, does not begin with a
wildcard, and is no longer than the topic. -/
theorem Inner.mem_matchPaths {inner : Inner Subscription} (h : TrieOp.Reachable inner)
    {t : TopicName} (ht : t.validate = .ok ()) {p : List String} {v : Subscription} :
    (p, v) ∈ inner.root.matchPaths true (iterTopicPath t) ↔
      v ∈ inner.root.valuesAt p ∧ filterMatches p t ∧ p.head?.any isWildcard = false ∧
        p.length ≤ (iterTopicPath t : List String).length := by
  rw [Node.mem_matchPaths true (t.levels_plain ht) h.sorted.sorted, Node.walks_iff (t.levels_plain ht)]
  simp only [h.sorted.isRoot, filterMatches, forall_const, Bool.and_eq_true, Bool.not_eq_true']
  constructor
  · rintro ⟨hv, ⟨hm, hlen⟩, hw⟩
    exact ⟨hv, ⟨hm, by simp [hw]⟩, hw, hlen⟩
  · rintro ⟨hv, ⟨hm, -⟩, hw, hlen⟩
    exact ⟨hv, ⟨hm, hlen⟩, hw⟩

/-- A subscription is returned exactly if it is stored under some matching filter that does not
begin with a wildcard and does not need its `#` for the parent level. -/
theorem matchTopicName_complete_iff {inner : Inner Subscription} (h : TrieOp.Reachable inner)
    {t : TopicName} (ht : t.validate = .ok ()) (v : Subscription) :
    (∃ vals inner', inner.matchTopicName t = some (vals, inner') ∧ v ∈ vals) ↔
      ∃ g, v ∈ inner.root.valuesAt g ∧ filterMatches g t ∧ g.head?.any isWildcard = false ∧
        g.length ≤ (iterTopicPath t : List String).length := by
  obtain ⟨inner', hr⟩ := Inner.matchTopicName_eq h t
  rw [hr]
  constructor
  · rintro ⟨vals, _, heq, hmem⟩
    simp only [Option.some.injEq, Prod.mk.injEq] at heq
    rw [← heq.1] at hmem
    obtain ⟨⟨g, w⟩, hg, rfl⟩ := List.mem_map.mp hmem
    exact ⟨g, (Inner.mem_matchPaths h ht).mp hg⟩
  · rintro ⟨g, hg⟩
    exact ⟨_, _, rfl, List.mem_map.mpr ⟨(g, v), (Inner.mem_matchPaths h ht).mpr hg, rfl⟩⟩

/-- A QoS 0 subscription with no options. -/
def plainSubscription (client filter : String) : Subscription :=
  ⟨⟨filter⟩, ⟨client⟩, 0, none, .atMostOnce, false, false, .onEverySubscribe⟩

/-- The trie after one subscription to a filter of one level. -/
def singleton (level : String) : Inner Subscription :=
  ⟨⟨1, 0, 0, 0, 0⟩, .root [.child level [] [plainSubscription "c" level]]⟩

theorem singleton_reachable (level : String) : TrieOp.Reachable (singleton level) :=
  ⟨[.subscribe [level] (plainSubscription "c" level)], rfl⟩

theorem matchTopicName_complete_iff_plain :
    ∃ vals inner', (singleton "a").matchTopicName (TopicName.mk "a") = some (vals, inner') ∧
      plainSubscription "c" "a" ∈ vals :=
  (matchTopicName_complete_iff (singleton_reachable "a") (by decide) _).mpr
    ⟨["a"], List.mem_singleton.mpr rfl, by decide, by decide, by decide⟩

/-- A filter that begins with a wildcard is found for no topic at all: the rule for topics that begin
with `$` is applied to every topic. -/
theorem matchTopicName_incomplete :
    ¬ ∀ (inner : Inner Subscription) (f : TopicFilter) (t : TopicName) (v : Subscription),
      TrieOp.Reachable inner → f.validate = .ok () → t.validate = .ok () →
      v ∈ inner.root.valuesAt (iterTopicPath f) → filterMatches (iterTopicPath f) t →
      ∃ vals inner', inner.matchTopicName t = some (vals, inner') ∧ v ∈ vals := by
  intro hall
  obtain ⟨vals, inner', hr, hv⟩ := hall (singleton "#") ⟨"#"⟩ ⟨"a"⟩ (plainSubscription "c" "#")
    (singleton_reachable "#") (by decide) (by decide) (List.mem_singleton.mpr rfl) (by decide)
  have hnone : ((singleton "#").matchTopicName (TopicName.mk "a")).map Prod.fst = some [] := by
    decide
  rw [hr] at hnone
  obtain rfl : vals = [] := Option.some.inj hnone
  simp at hv

/-- Everything a lookup returns is stored under a matching filter, which does not begin with a
wildcard if the topic begins with `$`; no entry is returned twice. -/
theorem matchTopicName_sound {inner : Inner Subscription} (h : TrieOp.Reachable inner)
    {t : TopicName} (ht : t.validate = .ok ()) :
    ∃ (es : List (List String × Subscription)) (inner' : Inner Subscription),
      inner.matchTopicName t = some (es.map Prod.snd, inner') ∧ es.Nodup ∧
        ∀ e ∈ es, e.2 ∈ inner.root.valuesAt e.1 ∧ levelsMatch e.1 (iterTopicPath t) ∧
          (t.isDollar → e.1.head?.any isWildcard = false) := by
  obtain ⟨inner', hr⟩ := Inner.matchTopicName_eq h t
  refine ⟨_, inner', hr, Node.matchPaths_nodup true _ h.sorted.sorted, ?_⟩
  rintro ⟨p, v⟩ he
  obtain ⟨hv, hm, hw, -⟩ := (Inner.mem_matchPaths h ht).mp he
  simp only [filterMatches, Bool.and_eq_true] at hm
  exact ⟨hv, hm.1, fun _ => hw⟩

/-- Subscriptions of several clients, two of them to one filter. -/
def severalSubscriptions : List (TrieOp Subscription) :=
  [.subscribe ["a", "b"] (plainSubscription "c" "a/b"),
    .subscribe ["a", "+"] (plainSubscription "d" "a/+"),
    .subscribe ["a", "b"] (plainSubscription "e" "a/b"), .subscribe ["a"] (plainSubscription "c" "a"),
    .subscribe ["#"] (plainSubscription "d" "#")]

/-- Three of the five are found. -/
theorem matchTopicName_sound_several :
    ∃ (inner inner' : Inner Subscription) (es : List (List String × Subscription)),
      TrieOp.run Inner.default severalSubscriptions = some inner ∧
        inner.matchTopicName (TopicName.mk "a/b") = some (es.map Prod.snd, inner') ∧
        es.length = 3 ∧ es.Nodup ∧ ∀ e ∈ es, e.2 ∈ inner.root.valuesAt e.1 ∧
          levelsMatch e.1 (iterTopicPath (TopicName.mk "a/b")) ∧
          ((TopicName.mk "a/b").isDollar → e.1.head?.any isWildcard = false) := by
  have heval : (TrieOp.run Inner.default severalSubscriptions).map (fun inner =>
      (inner.matchTopicName (TopicName.mk "a/b")).map fun found => found.1.length) =
        some (some 3) := by decide
  obtain ⟨inner, hrun, hlen⟩ := Option.map_eq_some_iff.mp heval
  have htopic : (TopicName.mk "a/b").validate = .ok () := by decide
  obtain ⟨es, inner', hmatch, hnodup, hes⟩ := matchTopicName_sound ⟨_, hrun⟩ htopic
  refine ⟨inner, inner', es, hrun, hmatch, ?_, hnodup, hes⟩
  simpa [hmatch] using hlen

end Mqtr
