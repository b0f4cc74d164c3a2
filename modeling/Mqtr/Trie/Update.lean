import Mqtr.Trie.Content

/-! A trie as a map from level sequences to lists of values. Subscribing, retaining and unsubscribing
are compared with updates of the map at one key. -/
namespace Mqtr

namespace Node
variable {V : Type} [Ord V]

/-- Put a value before the first one of a higher rank, unless one of the same rank comes before. -/
def insertSorted (v : V) : List V → List V
  | [] => [v]
  | w :: ws =>
    match compare w v with
    | .lt => w :: insertSorted v ws
    | .eq => w :: ws
    | .gt => v :: w :: ws

theorem insertSorted_middle {v : V} {l r : List V} (hl : ∀ w ∈ l, compare w v = .lt)
    (hr : ∀ w ∈ r, compare w v = .gt) : insertSorted v (l ++ r) = l ++ v :: r := by
  induction l with
  | nil =>
    cases r with
    | nil => rfl
    | cons w r => simp [insertSorted, hr w (by simp)]
  | cons x l ih => simp [insertSorted, hl x (by simp), ih fun w hw => hl w (by simp [hw])]

theorem insertSorted_of_mem [Std.TransOrd V] {v w : V} {vs : List V} (hvs : InOrder vs)
    (hw : w ∈ vs) (heq : compare w v = .eq) : insertSorted v vs = vs := by
  induction hvs with
  | nil => simp at hw
  | @cons x vs hx hvs ih =>
    rcases List.mem_cons.mp hw with rfl | hw
    · simp [insertSorted, heq]
    · have hlt : compare x v = .lt := Std.TransCmp.lt_of_lt_of_eq (hx w hw) heq
      simp [insertSorted, hlt, ih hw]

theorem Inserts.eq_insertSorted [Std.TransOrd V] {v : V} {vs vs' : List V} {out : Bool × Bool}
    (hvs : InOrder vs) (h : Inserts v vs vs' out) : vs' = insertSorted v vs := by
  obtain ⟨first, rep⟩ := out
  cases rep with
  | true =>
    obtain ⟨-, hsame, w, hw, heq⟩ := h
    rw [hsame, insertSorted_of_mem hvs hw heq]
  | false =>
    obtain ⟨-, l, r, rfl, rfl, hl, hr⟩ := h
    exact (insertSorted_middle hl hr).symm

/-- What a removal leaves are the values of another rank, provided an only value of the same rank is
equal to the one meant. -/
theorem Removes.eq_filter_iff [Std.TransOrd V] [BEq V] {v : V} {vs vs' : List V}
    {out : Bool × Bool} (hbeq : ∀ w : V, (w == v) = true → compare w v = .eq) (hvs : InOrder vs)
    (h : Removes v vs vs' out) :
    vs' = vs.filter (fun w => compare w v ≠ .eq) ↔
      ∀ w, vs = [w] → compare w v = .eq → (w == v) = true := by
  obtain ⟨last, miss⟩ := out
  cases miss with
  | true =>
    obtain ⟨-, rfl, -, hmiss⟩ := h
    rw [eq_comm, List.filter_eq_self]
    simp only [ne_eq, decide_not, Bool.not_eq_true', decide_eq_false_iff_not]
    split_ifs at hmiss with hlen
    · obtain ⟨x, rfl⟩ := List.length_eq_one_iff.mp hlen
      have hx := hmiss x (by simp)
      simp [hx]
    · refine iff_of_true hmiss fun w hw => ?_
      simp [hw] at hlen
  | false =>
    obtain ⟨-, l, w, r, rfl, rfl, hw⟩ := h
    have hrank : compare w v = .eq := by
      split_ifs at hw
      · exact hbeq w hw
      · exact hw
    -- no other value has the rank of the one that goes
    have hother (x : V) (hx : x ∈ l ++ r) : compare x v ≠ .eq := by
      intro heq
      have hxw : x = w := hvs.eq_of_compare (by simp at hx ⊢; tauto) (by simp)
        (Std.TransCmp.eq_trans heq (Std.OrientedCmp.eq_symm hrank))
      exact (List.nodup_cons.mp (List.nodup_middle.mp hvs.nodup)).1 (hxw ▸ hx)
    have hfilter : (l ++ w :: r).filter (fun w => compare w v ≠ .eq) = l ++ r := by
      have hsplit := List.filter_eq_self.mpr fun x hx => decide_eq_true (hother x hx)
      rw [List.filter_append] at hsplit
      simpa [hrank] using hsplit
    refine iff_of_true hfilter.symm fun x hx _ => ?_
    rw [hx, List.length_singleton, if_pos rfl] at hw
    obtain ⟨-, hcons⟩ | ⟨-, hnil⟩ := List.append_eq_singleton_iff.mp hx
    · rw [← (List.cons.inj hcons).1]
      exact hw
    · cases hnil

theorem insertValue_isSome (v : V) (m : Node V) (hm : m.asName ≠ none) :
    (insertValue v m).isSome := by
  rcases m with _ | ⟨name, children, _ | ⟨w, ws⟩⟩
  · exact absurd rfl hm
  · rfl
  · obtain ⟨a, ha, hle⟩ := Bisect.search_total (compare · v) (w :: ws)
    cases a with
    | ok i => simp [insertValue, ha]
    | error i =>
      have hi : i ≤ ws.length + 1 := hle i rfl
      simp [insertValue, ha, Bisect.insertAt, hi]

theorem removeValue_isSome_iff [Std.TransOrd V] [BEq V] (v : V) {m : Node V}
    (hm : m.Proper InOrder) : (removeValue v m).isSome ↔ m.values ≠ [] := by
  obtain ⟨below, names, held, inhabited⟩ := hm
  rename_i name children values
  rcases values with _ | ⟨w, _ | ⟨x, ws⟩⟩
  · simp [removeValue, Node.values]
  · cases hw : w == v <;> simp [removeValue, hw, Node.values]
  · obtain ⟨a, ha, hanswer⟩ := searchValue_answer held v
    cases a with
    | error i => simp [removeValue, ha, Node.values]
    | ok i =>
      obtain ⟨l, y, r, hsplit, rfl, -⟩ := hanswer
      have hremove := Bisect.removeAt_append l y r
      rw [← hsplit] at hremove
      simp [removeValue, ha, hremove, Node.values]

end Node

theorem Subscription.compare_of_beq {w v : Subscription} (h : (w == v) = true) :
    compare w v = .eq := by
  change Subscription.eq w v = true at h
  simp only [Subscription.eq, decide_eq_true_eq] at h
  exact Subscription.compare_eq_iff.mpr ⟨h.2.1, h.1⟩

namespace Inner
variable {V κ : Type} [IterTopicPath κ] {inner : Inner V} {key : κ} {v : V}

/-- The list of values under each level sequence. -/
def view (inner : Inner V) : List String → List V := fun ks => inner.root.valuesAt ks

theorem view_default : (default : Inner V).view = fun _ => [] := by
  funext ks
  cases ks <;> rfl

/-- An update of the tree that leaves the other paths alone, as an update of the map. -/
theorem view_eq_update {inner' : Inner V} {path : List String} {vs : List V}
    (hat : inner'.root.valuesAt path = vs)
    (hrest : ∀ ks, ks ≠ path → inner'.root.valuesAt ks = inner.root.valuesAt ks) :
    inner'.view = Function.update inner.view path vs := by
  funext ks
  by_cases hks : ks = path
  · subst hks
    rw [Function.update_self]
    exact hat
  · rw [Function.update_of_ne hks]
    exact hrest ks hks

theorem doSubscribe_isSome [Ord V] (hi : inner.Kept Node.InOrder) (hkey : iterTopicPath key ≠ []) :
    (inner.doSubscribe key v).isSome := by
  obtain ⟨r, hr⟩ := Option.isSome_iff_exists.mp
    (Node.grow_isSome (Node.insertValue_isSome v) List.Pairwise.nil hi.kept (.inr hkey))
  simp [doSubscribe, Node.sub_eq_grow, hr]

/-- Unsubscribing aborts exactly if the key has no value and is the beginning of another that has. -/
theorem doUnsubscribe_isSome_iff [Ord V] [Std.TransOrd V] [BEq V] (hi : inner.Kept Node.InOrder)
    (hkey : iterTopicPath key ≠ []) :
    (inner.doUnsubscribe key v).isSome ↔
      (inner.view (iterTopicPath key) = [] → ∀ ks, inner.view (iterTopicPath key ++ ks) = []) := by
  have hprune : (inner.doUnsubscribe key v).isSome ↔
      (Node.prune (Node.removeValue v) (false, true) (iterTopicPath key) inner.root).isSome := by
    cases hp : Node.prune (Node.removeValue v) (false, true) (iterTopicPath key) inner.root with
    | none => simp [doUnsubscribe, Node.unsub_eq_prune, hp]
    | some r =>
      obtain ⟨n', hn'⟩ := Node.prune_root hi.kept hi.isRoot hkey hp
      simp [doUnsubscribe, Node.unsub_eq_prune, hp, hn']
  rw [hprune]
  exact Node.prune_isSome_iff_valuesAt hi.kept hkey fun m hm => Node.removeValue_isSome_iff v hm

/-- Subscribing puts the value in its place under the key and leaves the other keys alone. -/
theorem doSubscribe_view [Ord V] [Std.TransOrd V] (hi : inner.Kept Node.InOrder)
    (hkey : iterTopicPath key ≠ []) :
    ∃ inner', inner.doSubscribe key v = some inner' ∧
      inner'.view = Function.update inner.view (iterTopicPath key)
        (Node.insertSorted v (inner.view (iterTopicPath key))) := by
  obtain ⟨inner', h⟩ := Option.isSome_iff_exists.mp (doSubscribe_isSome hi hkey (v := v))
  obtain ⟨out, hedit, hrest, -⟩ := doSubscribe_valuesAt hi h
  have horder := hi.kept.valuesAt List.Pairwise.nil (iterTopicPath key)
  exact ⟨inner', h, view_eq_update (hedit.eq_insertSorted horder) hrest⟩

theorem doSet_view (hi : inner.Kept Node.AtMostOne) (hkey : iterTopicPath key ≠ []) :
    ∃ inner', inner.doSet key v = some inner' ∧
      inner'.view = Function.update inner.view (iterTopicPath key) [v] := by
  obtain ⟨inner', h⟩ := Option.isSome_iff_exists.mp (doSet_isSome hi hkey (v := v))
  obtain ⟨hat, hrest, -⟩ := doSet_valuesAt hi h
  exact ⟨inner', h, view_eq_update hat hrest⟩

end Inner

/-- Subscribing and retaining are updates of the map at one key. A subscription is put in its sorted
place, and an entry of the same client and filter stays as it is; a retained message replaces what
was there. -/
theorem subscribe_set_update_map {κ : Type} [IterTopicPath κ] (key : κ)
    (hkey : iterTopicPath key ≠ []) :
    (∀ (inner : Inner Subscription) (v : Subscription), TrieOp.Reachable inner →
      ∃ inner', inner.doSubscribe key v = some inner' ∧
        inner'.view = Function.update inner.view (iterTopicPath key)
          (Node.insertSorted v (inner.view (iterTopicPath key))) ∧
        ((∃ w ∈ inner.view (iterTopicPath key),
            w.clientId = v.clientId ∧ w.topicFilter = v.topicFilter) →
          inner'.view = inner.view)) ∧
    ∀ (ops : List (RetainOp Publish)) (inner : Inner Publish) (v : Publish),
      RetainOp.run Inner.default ops = some inner →
        ∃ inner', inner.doSet key v = some inner' ∧
          inner'.view = Function.update inner.view (iterTopicPath key) [v] := by
  constructor
  · intro inner v h
    obtain ⟨inner', hsub, hview⟩ := Inner.doSubscribe_view h.kept hkey (v := v)
    refine ⟨inner', hsub, hview, ?_⟩
    rintro ⟨w, hw, hsame⟩
    have horder := h.kept.kept.valuesAt List.Pairwise.nil (iterTopicPath key)
    have hkeep := Node.insertSorted_of_mem horder hw (Subscription.compare_eq_iff.mpr hsame)
    rw [hview]
    exact (congrArg _ hkeep).trans (Function.update_eq_self _ _)
  · intro ops inner v h
    exact Inner.doSet_view (RetainOp.run_kept h) hkey

/-- A subscription between two others of its filter. -/
theorem subscribe_set_update_map_between :
    ∃ inner inner', TrieOp.run Inner.default severalSubscriptions = some inner ∧
      inner.doSubscribe (TopicFilter.mk "a/b") (plainSubscription "d" "a/b") = some inner' ∧
      inner'.view = Function.update inner.view ["a", "b"]
        [plainSubscription "c" "a/b", plainSubscription "d" "a/b", plainSubscription "e" "a/b"] := by
  have heval : (TrieOp.run Inner.default severalSubscriptions).map
      (fun inner => Node.insertSorted (plainSubscription "d" "a/b") (inner.view ["a", "b"])) =
        some [plainSubscription "c" "a/b", plainSubscription "d" "a/b",
          plainSubscription "e" "a/b"] := by decide
  obtain ⟨inner, hrun, hsorted⟩ := Option.map_eq_some_iff.mp heval
  obtain ⟨inner', hsub, hview, -⟩ := (subscribe_set_update_map (TopicFilter.mk "a/b") (by decide)).1
    inner (plainSubscription "d" "a/b") ⟨_, hrun⟩
  refine ⟨inner, inner', hrun, hsub, hview.trans ?_⟩
  exact congrArg _ hsorted

/-- Unsubscribing removes the entry of the same client and filter, and nothing else, exactly if the
key has subscribers or begins no key that has, and an only subscriber with this client and filter has
the same options too. -/
theorem unsubscribe_iff {κ : Type} [IterTopicPath κ] {inner : Inner Subscription}
    (h : TrieOp.Reachable inner) (key : κ) (hkey : iterTopicPath key ≠ []) (v : Subscription) :
    (∃ inner', inner.doUnsubscribe key v = some inner' ∧
        inner'.view = Function.update inner.view (iterTopicPath key)
          ((inner.view (iterTopicPath key)).filter fun w =>
            ¬ (w.clientId = v.clientId ∧ w.topicFilter = v.topicFilter))) ↔
      (inner.view (iterTopicPath key) = [] → ∀ ks, inner.view (iterTopicPath key ++ ks) = []) ∧
        ∀ w, inner.view (iterTopicPath key) = [w] →
          w.clientId = v.clientId ∧ w.topicFilter = v.topicFilter → (w == v) = true := by
  have horder : Node.InOrder (inner.view (iterTopicPath key)) :=
    h.kept.kept.valuesAt List.Pairwise.nil _
  simp only [← Subscription.compare_eq_iff]
  have hat {inner' : Inner Subscription} (hu : inner.doUnsubscribe key v = some inner') :
      inner'.view (iterTopicPath key) =
          (inner.view (iterTopicPath key)).filter (fun w => ¬ compare w v = .eq) ↔
        ∀ w, inner.view (iterTopicPath key) = [w] → compare w v = .eq → (w == v) = true := by
    obtain ⟨out, hedit | ⟨-, hnil, hnil'⟩, -⟩ := Inner.doUnsubscribe_valuesAt h.kept hu
    · exact hedit.eq_filter_iff (fun w => Subscription.compare_of_beq) horder
    · simp [Inner.view, hnil, hnil']
  rw [← Inner.doUnsubscribe_isSome_iff h.kept hkey (v := v)]
  constructor
  · rintro ⟨inner', hu, hview⟩
    refine ⟨by simp [hu], (hat hu).mp ?_⟩
    rw [hview, Function.update_self]
  · rintro ⟨hsome, hone⟩
    obtain ⟨inner', hu⟩ := Option.isSome_iff_exists.mp hsome
    obtain ⟨-, -, hrest, -⟩ := Inner.doUnsubscribe_valuesAt h.kept hu
    exact ⟨inner', hu, Inner.view_eq_update ((hat hu).mpr hone) hrest⟩

theorem unsubscribe_iff_only :
    ∃ inner', (singleton "a").doUnsubscribe (TopicFilter.mk "a") (plainSubscription "c" "a") =
        some inner' ∧
      inner'.view = Function.update (singleton "a").view ["a"] [] := by
  refine (unsubscribe_iff (singleton_reachable "a") (TopicFilter.mk "a") (by decide)
    (plainSubscription "c" "a")).mpr ⟨fun hnil => ?_, fun w hw _ => ?_⟩
  · cases hnil
  · obtain rfl : plainSubscription "c" "a" = w := (List.cons.inj hw).1
    decide

def firstSubscribe : List (TrieOp Subscription) :=
  [.subscribe ["a", "b"] (plainSubscription "alice" "a/b")]

/-- A client that unsubscribes from `a`, where the only subscription is to `a/b`. -/
theorem unsubscribe_above_aborts :
    ¬ ∀ (inner : Inner Subscription) (key : TopicFilter) (v : Subscription),
      TrieOp.Reachable inner → ∃ inner', inner.doUnsubscribe key v = some inner' ∧
        inner'.view = Function.update inner.view (iterTopicPath key)
          ((inner.view (iterTopicPath key)).filter fun w =>
            ¬ (w.clientId = v.clientId ∧ w.topicFilter = v.topicFilter)) := by
  intro h
  obtain ⟨inner, hrun⟩ := Option.isSome_iff_exists.mp
    (show (TrieOp.run Inner.default firstSubscribe).isSome by decide)
  obtain ⟨inner', hu, -⟩ := h inner ⟨"a"⟩ (plainSubscription "alice" "a") ⟨firstSubscribe, hrun⟩
  have hnone : (TrieOp.run Inner.default firstSubscribe).all fun inner =>
      (inner.doUnsubscribe (TopicFilter.mk "a") (plainSubscription "alice" "a")).isNone := by decide
  rw [hrun, Option.all_some, hu] at hnone
  cases hnone

end Mqtr
